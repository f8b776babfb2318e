import Isle.Go.Filepath

/-!
# The admin console

`runConsole`, `runCommand` and `deleteCommand.Run` of `guest/console.go`. A console command reaches
the guest in two ways, and the two build the command differently:

* typed **interactively**, the words after the command go through the argument parser, whose error
  is printed for `--help` and otherwise dropped, and the command runs either way;
* sent **one-shot** with the session, they are not looked at, and the command runs with its zero
  value.

`deleteCommand.Run` then removes `filepath.Join(basePath, name)` whatever the name is. The empty
name is the directory of all isles, and a name with `..` in it is not even below that.

`deletesOnlyNamed_iff` says exactly for which commands a `delete` removes nothing but the isle it
names. The argument parser is a parameter; what is used of it is that the field it fills holds one
of the words or nothing.
-/

namespace Guest

open Filepath

/-! ### Commands -/

/-- An error of the argument parser. -/
inductive ArgError
  | help
  | usage
  deriving DecidableEq, Repr

/-- The argument parser, for a command with one optional positional field. -/
structure ArgParser where
  /-- The field after parsing the words, and the error. -/
  parse : List String → String × Option ArgError
  /-- The field keeps its zero value or is set to one of the words. -/
  field_mem : ∀ words, (parse words).1 = "" ∨ (parse words).1 ∈ words

/-- What the first word of a console command selects. -/
inductive Command
  /-- There is no first word, and reading it panics. -/
  | panic
  | nothing
  | help
  | exit
  | list
  | delete (name : String)
  deriving DecidableEq, Repr

/-- How a command reaches the console. -/
inductive Entry
  | interactive
  | oneShot
  deriving DecidableEq, Repr

/-- The command `runCommand` builds: the words after the first are not used. -/
def runCommand : List String → Command
  | [] => .panic
  | "delete" :: _ => .delete ""
  | "list" :: _ => .list
  | _ => .nothing

/-- The command `runConsole` builds from a line: the parser fills the field, and its error does not
keep the command from running. -/
def runConsole (P : ArgParser) : List String → Command
  | [] => .panic
  | "help" :: _ => .help
  | "delete" :: words => .delete (P.parse words).1
  | "list" :: _ => .list
  | "exit" :: _ => .exit
  | _ => .nothing

/-- The command built from the parts of a console command. -/
def commandOf (P : ArgParser) : Entry → List String → Command
  | .interactive, parts => runConsole P parts
  | .oneShot, parts => runCommand parts

/-! ### `deleteCommand.Run` -/

/-- Where the bundles of the isles are. -/
def basePath : Path := ["data", "containers"]

/-- An entry of `g.running`: the container's id, and whether it has a cancel function. -/
structure RunningContainer where
  /-- The container's id. -/
  id : ℕ
  /-- Set for a container that this guest booted, unset for one it found running. -/
  cancel : Bool
  deriving DecidableEq, Repr

/-- The part of the guest that a console command works on. -/
structure ConsoleGuest where
  /-- `g.running`. -/
  running : String → Option RunningContainer
  /-- The files of the machine. -/
  tree : FileTree
  /-- The containers that were cleaned up, the latest first. -/
  cleanups : List ℕ

/-- How the calls of `deleteCommand.Run` turn out. -/
structure DeleteEnv where
  /-- The containers with the isle's label, or the error of listing them. -/
  containers : Except String (List ℕ)
  /-- The files that cannot be removed. -/
  stuck : Path → Bool
  /-- The text of the error that removing them gives. -/
  removeError : String

/-- How a command ends. -/
inductive Outcome
  | panic
  | exit (code : ℕ) (output : String)
  deriving DecidableEq, Repr

/-- The state after `CleanupContainer` of the first container listed, if there is one. -/
def ConsoleGuest.cleanup (g : ConsoleGuest) (containers : List ℕ) : ConsoleGuest :=
  match containers with
  | [] => g
  | id :: _ => { g with cleanups := id :: g.cleanups }

/-- The last part of `deleteCommand.Run`: remove the bundle. -/
def ConsoleGuest.removeBundle (g : ConsoleGuest) (name : String) (env : DeleteEnv) :
    Outcome × ConsoleGuest :=
  let bundlePath := join basePath name
  let after := { g with tree := g.tree.removeAll env.stuck bundlePath }
  if g.tree.removeAllFails env.stuck bundlePath then
    (.exit 1 ("error: " ++ env.removeError ++ "\n"), after)
  else (.exit 0 ("isle deleted: " ++ name ++ "\n"), after)

/-- `deleteCommand.Run`. -/
def deleteCommandRun (g : ConsoleGuest) (name : String) (env : DeleteEnv) :
    Outcome × ConsoleGuest :=
  match g.running name with
  | some ⟨_, false⟩ => (.panic, g)
  | _ =>
    let g := { g with running := Function.update g.running name none }
    match env.containers with
    | .error e => (.exit 1 ("Error reading containers: " ++ e ++ "\n"), g)
    | .ok containers => (g.cleanup containers).removeBundle name env

/-- Run a command. Only `delete` changes anything. -/
def Command.run (g : ConsoleGuest) (env : DeleteEnv) : Command → Outcome × ConsoleGuest
  | .panic => (.panic, g)
  | .delete name => deleteCommandRun g name env
  | _ => (.exit 0 "", g)

/-! ### What `delete` removes -/

/-- The files after a `delete` are those before it, or those that removing the bundle leaves. -/
theorem tree_deleteCommandRun (g : ConsoleGuest) (name : String) (env : DeleteEnv) :
    (deleteCommandRun g name env).2.tree = g.tree ∨
      (deleteCommandRun g name env).2.tree = g.tree.removeAll env.stuck (join basePath name) := by
  unfold deleteCommandRun
  split
  · exact Or.inl rfl
  · rcases env.containers with e | containers
    · exact Or.inl rfl
    · right
      unfold ConsoleGuest.removeBundle ConsoleGuest.cleanup
      cases containers <;> (simp only; split <;> rfl)

/-- A `delete` of a name that is not running, with no container and nothing stuck, removes the
bundle path. -/
theorem tree_deleteCommandRun_of_free (tree : FileTree) (name : String) :
    (deleteCommandRun ⟨fun _ ↦ none, tree, []⟩ name ⟨.ok [], fun _ ↦ false, ""⟩).2.tree =
      tree.removeAll (fun _ ↦ false) (join basePath name) := by
  unfold deleteCommandRun ConsoleGuest.removeBundle ConsoleGuest.cleanup
  simp only
  split <;> rfl

/-- The name a `delete` runs with. -/
def deleteName (P : ArgParser) : Entry → List String → String
  | .interactive, words => (P.parse words).1
  | .oneShot, _ => ""

theorem commandOf_delete (P : ArgParser) (entry : Entry) (words : List String) :
    commandOf P entry ("delete" :: words) = .delete (deleteName P entry words) := by
  cases entry <;> rfl

/-- **The frame of a `delete`.** Whatever is gone afterwards was in the bundle of the one isle that
the words name, which is a direct child of the directory of all isles. -/
def DeleteFrame (words : List String) (before after : FileTree) : Prop :=
  ∀ p ∈ before.paths, p ∉ after.paths →
    ∃ name, words = [name] ∧ IsChildName name ∧ basePath ++ [name] <+: p

/-- A `delete` with the given words keeps to its frame, whatever is running and however its calls
turn out. -/
def DeletesOnlyNamed (P : ArgParser) (entry : Entry) (words : List String) (tree : FileTree) :
    Prop :=
  ∀ running cleanups env,
    DeleteFrame words tree
      ((commandOf P entry ("delete" :: words)).run ⟨running, tree, cleanups⟩ env).2.tree

/-- **The frame of `delete`, exactly.** A `delete` keeps to its frame if and only if it is typed
interactively with one word that the parser takes for the name and that is the name of a direct
child, or else there is nothing at the path it selects. -/
theorem deletesOnlyNamed_iff (P : ArgParser) (entry : Entry) (words : List String)
    (tree : FileTree) :
    DeletesOnlyNamed P entry words tree ↔
      (∃ name, entry = .interactive ∧ words = [name] ∧ (P.parse [name]).1 = name ∧
        IsChildName name) ∨
      join basePath (deleteName P entry words) ∉ tree.paths := by
  constructor
  · intro h
    by_cases htarget : join basePath (deleteName P entry words) ∈ tree.paths
    · left
      have hframe := h (fun _ ↦ none) [] ⟨.ok [], fun _ ↦ false, ""⟩
      rw [commandOf_delete, Command.run, tree_deleteCommandRun_of_free] at hframe
      obtain ⟨name, rfl, hname, hpre⟩ :=
        hframe _ htarget FileTree.target_not_mem_removeAll
      -- with the empty name the target is `basePath`, which is not below any bundle
      have hne : deleteName P entry [name] ≠ "" := by
        intro hempty
        rw [hempty, join_empty] at hpre
        have hlen := hpre.length_le
        simp only [List.length_append, List.length_singleton] at hlen
        omega
      cases entry with
      | oneShot => exact absurd rfl hne
      | interactive =>
        rcases P.field_mem [name] with hzero | hmem
        · exact absurd hzero hne
        · exact ⟨name, rfl, rfl, List.mem_singleton.1 hmem, hname⟩
    · exact Or.inr htarget
  · intro h running cleanups env p hp hgone
    rw [commandOf_delete, Command.run] at hgone
    rcases tree_deleteCommandRun ⟨running, tree, cleanups⟩ (deleteName P entry words) env with
      hsame | hrem
    · rw [hsame] at hgone
      exact absurd hp hgone
    · rw [hrem] at hgone
      have hpre := FileTree.prefix_of_removed hp hgone
      rcases h with ⟨name, rfl, rfl, hparse, hname⟩ | hnone
      · refine ⟨name, rfl, hname, ?_⟩
        rwa [deleteName, hparse, join_of_isChildName hname] at hpre
      · exact absurd (tree.closed p hp _ hpre) hnone

/-- A parser that takes the first word, as is right for words that are no options. -/
def firstWord : ArgParser where
  parse words := (words.headD "", none)
  field_mem words := by
    cases words with
    | nil => exact Or.inl rfl
    | cons w ws => exact Or.inr (List.mem_cons_self ..)

/-- **`delete foo` sent one-shot deletes every isle**, and the directory they are in. -/
theorem not_deletesOnlyNamed_oneShot_foo :
    ¬ DeletesOnlyNamed firstWord .oneShot ["foo"]
      (FileTree.ofPaths [["data", "containers", "foo"], ["data", "containers", "bar"]]) := by
  intro h
  have hframe := h (fun _ ↦ none) [] ⟨.ok [], fun _ ↦ false, ""⟩
  rw [commandOf_delete, Command.run, tree_deleteCommandRun_of_free] at hframe
  obtain ⟨name, hwords, -, hpre⟩ :=
    hframe ["data", "containers", "bar"] (by decide) (by decide)
  cases hwords
  revert hpre
  decide

end Guest
