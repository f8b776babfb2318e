import Isle.Go.Shlex
import Mathlib.Logic.Function.Basic
import Mathlib.Data.String.Basic

/-!
# The kernel command line

How the host tells a guest who it runs for: `VM.Run` of `vm/vm.go` joins words `key=value`, the
kernel hands the text on with a newline behind it, and `CommandLine` of `pkg/kcmdline` splits it as
a shell would and cuts each word at its first `=`.

Nothing is quoted on the way, so a value comes back only if it has no white space, quote or
backslash in it. Such values come back **whatever else is in them** (`commandLine_bootLine`): an
`=` in a value is behind the one that ends the key, an empty value leaves a word that is not empty,
and a `#` is never at the start of a word.
-/

namespace Vm

/-- What `VM.Run` puts on the command line: the swap size, the configuration and the user. -/
structure Boot where
  swap : String
  clusterId : String
  username : String
  uid : String
  gid : String
  token : String
  authKey : String
  deriving DecidableEq, Repr

/-- The text has no white space, quote or backslash. -/
def Plain (s : String) : Prop := ∀ c ∈ s.toList, IsShellPlain c

instance (s : String) : Decidable (Plain s) := List.decidableBAll IsShellPlain s.toList

/-- All values are such texts. -/
structure Boot.Plain (b : Boot) : Prop where
  swap : Vm.Plain b.swap
  clusterId : Vm.Plain b.clusterId
  username : Vm.Plain b.username
  uid : Vm.Plain b.uid
  gid : Vm.Plain b.gid
  token : Vm.Plain b.token
  authKey : Vm.Plain b.authKey

/-- The words that the host puts on the command line. -/
def kernelCommandLineArguments (b : Boot) : List String :=
  ["console=hvc0",
    "root=/dev/vda",
    "acpi=on",
    "mitigations=off",
    "overlaytmpfs",
    "swap=" ++ b.swap,
    "data=/dev/vdb",
    "vol_user=/dev/vdc",
    "share_home=home",
    "cluster_id=" ++ b.clusterId,
    "user_name=" ++ b.username,
    "user_uid=" ++ b.uid,
    "user_gid=" ++ b.gid,
    "token=" ++ b.token,
    "auth_key=" ++ b.authKey]

/-- The arguments joined with spaces, as `/proc/cmdline` has them. -/
def bootLine (b : Boot) : List Char :=
  [' '].intercalate ((kernelCommandLineArguments b).map String.toList) ++ ['\n']

/-! ### The guest's side -/

/-- A word of the command line, cut at its first `=`. -/
def cutWord (p : List Char) : String × String :=
  if '=' ∈ p then
    (String.ofList (p.takeWhile (· ≠ '=')), String.ofList (p.dropWhile (· ≠ '=')).tail)
  else (String.ofList p, "")

/-- `CommandLine`, of the text of `/proc/cmdline` if it can be read. The map is nil if it cannot or
if its quotes do not match. -/
def commandLine (S : Shlex) (cmdline : Option (List Char)) : String → Option String :=
  match cmdline.bind S.split with
  | none => fun _ ↦ none
  | some parts => parts.foldl
    (fun vars p ↦ Function.update vars (cutWord p).1 (some (cutWord p).2)) fun _ ↦ none

/-! ### Words -/

theorem cutWord_append {key : List Char} (hkey : '=' ∉ key) (value : String) :
    cutWord (key ++ '=' :: value.toList) = (String.ofList key, value) := by
  have hne : ∀ c ∈ key, decide (c ≠ '=') = true := fun c hc ↦
    decide_eq_true fun h ↦ hkey (h ▸ hc)
  rw [cutWord, if_pos (List.mem_append_right _ List.mem_cons_self),
    List.takeWhile_append_of_pos hne, List.dropWhile_append_of_pos hne]
  simp

/-- The last of several words with a key decides its value, and with no two of one key each does. -/
theorem foldl_update_of_mem {α : Type*} {f : α → String × String} {l : List α} {x : α}
    (hl : (l.map fun x ↦ (f x).1).Nodup) (hx : x ∈ l) (vars : String → Option String) :
    l.foldl (fun vars x ↦ Function.update vars (f x).1 (some (f x).2)) vars (f x).1 =
      some (f x).2 := by
  have hother : ∀ (l : List α) (vars : String → Option String) (key : String),
      key ∉ l.map (fun x ↦ (f x).1) →
        l.foldl (fun vars x ↦ Function.update vars (f x).1 (some (f x).2)) vars key = vars key := by
    intro l
    induction l with
    | nil => exact fun _ _ _ ↦ rfl
    | cons y l ih =>
      intro vars key hkey
      obtain ⟨hne, hkey⟩ := not_or.1 fun h ↦ hkey (List.mem_cons.2 h)
      rw [List.foldl_cons, ih _ _ hkey, Function.update_of_ne hne]
  induction l generalizing vars with
  | nil => cases hx
  | cons y l ih =>
    rw [List.map_cons, List.nodup_cons] at hl
    rw [List.foldl_cons]
    rcases List.mem_cons.1 hx with rfl | hx
    · rw [hother _ _ _ hl.1, Function.update_self]
    · exact ih hl.2 hx _

/-- The words of the command line, as keys and values. -/
def bootVars (b : Boot) : List (String × String) :=
  [("console", "hvc0"), ("root", "/dev/vda"), ("acpi", "on"), ("mitigations", "off"),
    ("overlaytmpfs", ""), ("swap", b.swap), ("data", "/dev/vdb"), ("vol_user", "/dev/vdc"),
    ("share_home", "home"), ("cluster_id", b.clusterId), ("user_name", b.username),
    ("user_uid", b.uid), ("user_gid", b.gid), ("token", b.token), ("auth_key", b.authKey)]

theorem map_cutWord (b : Boot) :
    (kernelCommandLineArguments b).map (fun p ↦ cutWord p.toList) = bootVars b := by
  have hcut : ∀ (word key value : String), word.toList = key.toList ++ ['='] → '=' ∉ key.toList →
      cutWord (word ++ value).toList = (key, value) := by
    intro word key value hword hkey
    rw [String.toList_append, hword, List.append_assoc, List.singleton_append,
      cutWord_append hkey, String.ofList_toList]
  simp only [kernelCommandLineArguments, bootVars, List.map_cons, List.map_nil]
  rw [hcut "swap=" "swap" _ rfl (by decide), hcut "cluster_id=" "cluster_id" _ rfl (by decide),
    hcut "user_name=" "user_name" _ rfl (by decide), hcut "user_uid=" "user_uid" _ rfl (by decide),
    hcut "user_gid=" "user_gid" _ rfl (by decide), hcut "token=" "token" _ rfl (by decide),
    hcut "auth_key=" "auth_key" _ rfl (by decide)]
  rfl

theorem nodup_keys (b : Boot) : ((bootVars b).map Prod.fst).Nodup := by
  show ["console", "root", "acpi", "mitigations", "overlaytmpfs", "swap", "data", "vol_user",
    "share_home", "cluster_id", "user_name", "user_uid", "user_gid", "token", "auth_key"].Nodup
  decide

/-- Every argument is a word, whatever plain value it ends with. -/
theorem isShellWord_arguments {b : Boot} (hb : b.Plain) :
    ∀ p ∈ kernelCommandLineArguments b, IsShellWord p.toList := by
  have hword : ∀ {key value : String}, IsShellWord key.toList → Plain value →
      IsShellWord (key ++ value).toList := by
    intro key value hkey hvalue
    rw [String.toList_append]
    exact hkey.append hvalue
  simp only [kernelCommandLineArguments, List.forall_mem_cons]
  refine ⟨by decide, by decide, by decide, by decide, by decide, hword (by decide) hb.swap,
    by decide, by decide, by decide, hword (by decide) hb.clusterId,
    hword (by decide) hb.username, hword (by decide) hb.uid, hword (by decide) hb.gid,
    hword (by decide) hb.token, hword (by decide) hb.authKey, ?_⟩
  exact List.forall_mem_nil _

/-! ### The round trip -/

/-- Every variable of the command line is read back. -/
theorem commandLine_of_mem (S : Shlex) {b : Boot} (hb : b.Plain) {key value : String}
    (h : (key, value) ∈ bootVars b) : commandLine S (some (bootLine b)) key = some value := by
  have hsplit : S.split (bootLine b) = some ((kernelCommandLineArguments b).map String.toList) :=
    S.split_intercalate fun w hw ↦ by
      obtain ⟨p, hp, rfl⟩ := List.mem_map.1 hw
      exact isShellWord_arguments hb p hp
  rw [← map_cutWord] at h
  obtain ⟨p, hp, hcut⟩ := List.mem_map.1 h
  have hkeys : ((kernelCommandLineArguments b).map fun p ↦ (cutWord p.toList).1).Nodup := by
    have hmap := congrArg (List.map Prod.fst) (map_cutWord b)
    rw [List.map_map] at hmap
    rw [show (kernelCommandLineArguments b).map (fun p ↦ (cutWord p.toList).1) = _ from hmap]
    exact nodup_keys b
  have hvalue := foldl_update_of_mem hkeys hp fun _ ↦ none
  rw [hcut] at hvalue
  simp only [commandLine, Option.bind_some, hsplit, List.foldl_map]
  exact hvalue

/-- **The command line gives back what was put on it**, for all values of plain characters. -/
theorem commandLine_bootLine (S : Shlex) {b : Boot} (hb : b.Plain) :
    let vars := commandLine S (some (bootLine b))
    vars "user_name" = some b.username ∧ vars "user_uid" = some b.uid ∧
      vars "user_gid" = some b.gid ∧ vars "cluster_id" = some b.clusterId ∧
      vars "token" = some b.token ∧ vars "auth_key" = some b.authKey ∧
      vars "swap" = some b.swap := by
  have hvar : ∀ {key value : String}, (key, value) ∈ bootVars b →
      commandLine S (some (bootLine b)) key = some value := commandLine_of_mem S hb
  refine ⟨hvar ?_, hvar ?_, hvar ?_, hvar ?_, hvar ?_, hvar ?_, hvar ?_⟩ <;> simp [bootVars]

/-- A machine with a generated token, which ends in padding, and with no key. -/
def generated : Boot where
  swap := "4G"
  clusterId := "00c0ffee42"
  username := "isle#1"
  uid := "501"
  gid := ""
  token := "MZXW6YTBOI2DKNRXHA4TAMBR3E======"
  authKey := ""

theorem commandLine_generated :
    let vars := commandLine shlex (some (bootLine generated))
    vars "user_name" = some "isle#1" ∧ vars "user_gid" = some "" ∧
      vars "token" = some "MZXW6YTBOI2DKNRXHA4TAMBR3E======" ∧ vars "auth_key" = some "" := by
  have hplain : generated.Plain :=
    ⟨by decide, by decide, by decide, by decide, by decide, by decide, by decide⟩
  obtain ⟨hname, -, hgid, -, htoken, hkey, -⟩ := commandLine_bootLine shlex hplain
  exact ⟨hname, hgid, htoken, hkey⟩

end Vm
