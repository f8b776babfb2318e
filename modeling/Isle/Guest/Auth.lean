import Isle.Vm.CommandLine

/-!
# Who the guest lets in

The two secrets of a machine from the host's configuration to the handlers of `HandleSSH` in
`guest/guest.go`: the host puts them on the kernel command line, `main` of `cmd/isle-guest` takes
them from the map `CommandLine` makes of it, and the SSH server on the vsock listener asks a handler
for each password and each public key.

The handler for keys refuses every key if no key is configured. The one for passwords has no such
guard: **a guest without a token lets in whoever presents the empty password**. Where all values
survive the command line, that is the only way in without a secret (`sound_iff`).
-/

/-! ### Base64 without padding -/

namespace Base64

/-- The value of a character of the alphabet. -/
def sextet (c : Char) : Option ℕ :=
  if 65 ≤ c.toNat ∧ c.toNat ≤ 90 then some (c.toNat - 65)
  else if 97 ≤ c.toNat ∧ c.toNat ≤ 122 then some (c.toNat - 97 + 26)
  else if 48 ≤ c.toNat ∧ c.toNat ≤ 57 then some (c.toNat - 48 + 52)
  else if c = '+' then some 62
  else if c = '/' then some 63
  else none

/-- The bytes of a sequence of values: three for every four, one or two for the last two or three. A
single value at the end is an error. -/
def quanta : List ℕ → Option (List UInt8)
  | a :: b :: c :: d :: rest => (quanta rest).map fun bs ↦
    UInt8.ofNat (a * 4 + b / 16) :: UInt8.ofNat (b % 16 * 16 + c / 4) ::
      UInt8.ofNat (c % 4 * 64 + d) :: bs
  | [a, b, c] => some [UInt8.ofNat (a * 4 + b / 16), UInt8.ofNat (b % 16 * 16 + c / 4)]
  | [a, b] => some [UInt8.ofNat (a * 4 + b / 16)]
  | [_] => none
  | [] => some []

/-- `RawStdEncoding.DecodeString`: line ends are passed over. -/
def rawStdDecode (s : String) : Option (List UInt8) :=
  ((s.toList.filter fun c ↦ c ≠ '\r' ∧ c ≠ '\n').mapM sextet).bind quanta

example : rawStdDecode "aXNsZQ" = some [105, 115, 108, 101] := by decide

end Base64

namespace Guest

open Base64 (rawStdDecode)

/-! ### The guest -/

/-- `Guest`: the fields that `main` sets from the command line. -/
structure Settings where
  user : String
  clusterId : String
  token : String
  authKey : String
  deriving DecidableEq, Repr

/-- The guest that `main` makes; a key that is not in the map has the empty value. -/
def settings (vars : String → Option String) : Settings where
  user := (vars "user_name").getD ""
  clusterId := (vars "cluster_id").getD ""
  token := (vars "token").getD ""
  authKey := (vars "auth_key").getD ""

/-- What a client presents. -/
inductive Credential
  | none
  | password (password : String)
  /-- A public key, by its `Marshal`. -/
  | publicKey (key : List UInt8)
  | keyboardInteractive
  deriving DecidableEq, Repr

/-- The password is the token. -/
def passwordHandler (g : Settings) (password : String) : Bool := password == g.token

/-- The key is the one that was configured. -/
def publicKeyHandler (g : Settings) (key : List UInt8) : Bool :=
  if g.authKey = "" then false
  else
    match rawStdDecode g.authKey with
    | .none => false
    | some data => key == data

/-- Whether the server of `HandleSSH` accepts a credential. It has a handler for passwords and one
for keys, so a client that presents nothing is refused, and so is every other method. -/
def accepts (g : Settings) : Credential → Bool
  | .none => false
  | .password password => passwordHandler g password
  | .publicKey key => publicKeyHandler g key
  | .keyboardInteractive => false

/-- The guest of a machine that was booted with some values. -/
def bootedGuest (S : Shlex) (b : Vm.Boot) : Settings :=
  settings (Vm.commandLine S (some (Vm.bootLine b)))

/-! ### Authentication -/

/-- The credential is one of the secrets the host configured. -/
def Authorized (b : Vm.Boot) : Credential → Prop
  | .password password => b.token ≠ "" ∧ password = b.token
  | .publicKey key => b.authKey ≠ "" ∧ rawStdDecode b.authKey = some key
  | .none | .keyboardInteractive => False

/-- The guest lets in only who presents a secret that was configured. -/
def Sound (S : Shlex) (b : Vm.Boot) : Prop :=
  ∀ cred, accepts (bootedGuest S b) cred = true → Authorized b cred

/-- The guest accepts a key exactly if the configured one decodes to it. -/
theorem publicKeyHandler_iff {g : Settings} {key : List UInt8} :
    publicKeyHandler g key = true ↔ g.authKey ≠ "" ∧ rawStdDecode g.authKey = some key := by
  unfold publicKeyHandler
  by_cases hempty : g.authKey = ""
  · rw [if_pos hempty]
    exact iff_of_false Bool.false_ne_true fun h ↦ h.1 hempty
  · rw [if_neg hempty]
    rcases hdec : rawStdDecode g.authKey with - | data
    · exact iff_of_false Bool.false_ne_true fun h ↦ absurd h.2 (by simp)
    · simp only [beq_iff_eq, Option.some.injEq]
      exact ⟨fun h ↦ ⟨hempty, h.symm⟩, fun h ↦ h.2.symm⟩

/-- The secrets reach the guest as they were configured. -/
theorem bootedGuest_eq (S : Shlex) {b : Vm.Boot} (hb : b.Plain) :
    (bootedGuest S b).token = b.token ∧ (bootedGuest S b).authKey = b.authKey := by
  have hvar : ∀ {key value : String}, (key, value) ∈ Vm.bootVars b →
      Vm.commandLine S (some (Vm.bootLine b)) key = some value := Vm.commandLine_of_mem S hb
  have htoken := @hvar "token" b.token (by simp [Vm.bootVars])
  have hauthKey := @hvar "auth_key" b.authKey (by simp [Vm.bootVars])
  constructor
  · rw [bootedGuest, settings, htoken, Option.getD_some]
  · rw [bootedGuest, settings, hauthKey, Option.getD_some]

/-- Whatever is on the command line, the password that a guest compares with must be the token, and
not empty. -/
theorem Sound.token {S : Shlex} {b : Vm.Boot} (hsound : Sound S b) :
    b.token ≠ "" ∧ (bootedGuest S b).token = b.token :=
  hsound (.password (bootedGuest S b).token) (beq_self_eq_true _)

/-- **When a guest lets in only who has a secret.** For all values that survive the command line: if
and only if a token is configured. Of other values it is known that a token is needed, and has to
reach the guest as it is (`Sound.token`); what the splitter makes of them is left open. -/
theorem sound_iff (S : Shlex) {b : Vm.Boot} (hb : b.Plain) : Sound S b ↔ b.token ≠ "" := by
  obtain ⟨htoken, hauthKey⟩ := bootedGuest_eq S hb
  constructor
  · exact fun hsound ↦ hsound.token.1
  · rintro hne (- | password | key | -) haccepts
    · exact absurd haccepts Bool.false_ne_true
    · have hpassword : password = (bootedGuest S b).token := beq_iff_eq.1 haccepts
      exact ⟨hne, hpassword.trans htoken⟩
    · have hkey := publicKeyHandler_iff.1 haccepts
      rwa [hauthKey] at hkey
    · exact absurd haccepts Bool.false_ne_true

/-- A machine with a token and a key. -/
def keyedBoot : Vm.Boot where
  swap := "4G"
  clusterId := "00c0ffee42"
  username := "isle"
  uid := "501"
  gid := "20"
  token := "MZXW6YTBOI2DKNRXHA4TAMBR3E======"
  authKey := "aXNsZQ"

theorem sound_keyedBoot :
    accepts (bootedGuest shlex keyedBoot) (.publicKey [105, 115, 108, 101]) = true ∧
      Sound shlex keyedBoot := by
  have hplain : keyedBoot.Plain :=
    ⟨by decide, by decide, by decide, by decide, by decide, by decide, by decide⟩
  refine ⟨?_, (sound_iff shlex hplain).2 (by decide)⟩
  obtain ⟨-, hauthKey⟩ := bootedGuest_eq shlex hplain
  refine publicKeyHandler_iff.2 ?_
  rw [hauthKey]
  decide

/-- **A guest with no secret lets in the empty password.** -/
theorem exists_accepts_without_secret :
    ∃ b : Vm.Boot, b.Plain ∧ b.token = "" ∧ b.authKey = "" ∧
      accepts (bootedGuest shlex b) (.password "") = true ∧ ¬ Sound shlex b := by
  let b : Vm.Boot := { keyedBoot with token := "", authKey := "" }
  have hplain : b.Plain :=
    ⟨by decide, by decide, by decide, by decide, by decide, by decide, by decide⟩
  refine ⟨b, hplain, rfl, rfl, ?_, fun hsound ↦ hsound.token.1 rfl⟩
  show ("" == (bootedGuest shlex b).token) = true
  rw [(bootedGuest_eq shlex hplain).1]
  rfl

end Guest
