import Isle.Go.Filepath
import Mathlib.Logic.Function.Basic

/-!
# Files that are written in steps

The contents of files under the operations that write them, at the grain at which a program can be
killed: a file is emptied when it is opened for writing, and then grows by what is written to it. A
program that is killed has applied a prefix of its operations.

A `Disk` has the contents of the files and the directories that were made. `file_applyAll_writeOps`
is the one fact about the operations: all of them together leave the whole file.
-/

open Filepath

/-- The contents of a file. -/
abbrev Content := List Char

/-- The files, and the directories that were asked for. -/
structure Disk where
  file : Path → Option Content
  dirs : List Path

/-- One step of writing. -/
inductive DiskOp
  /-- The file is opened for writing, and is empty then. -/
  | truncate (p : Path)
  | put (p : Path) (c : Char)
  /-- `os.MkdirAll` -/
  | mkdirAll (p : Path)

namespace Disk

/-- A disk with nothing on it. -/
def empty : Disk where
  file _ := none
  dirs := []

/-- One operation. -/
def apply (d : Disk) : DiskOp → Disk
  | .truncate p => { d with file := Function.update d.file p (some []) }
  | .put p c => { d with file := Function.update d.file p ((d.file p).map (· ++ [c])) }
  | .mkdirAll p => { d with dirs := d.dirs ++ p.inits }

/-- Some operations, one after the other. -/
def applyAll (d : Disk) (ops : List DiskOp) : Disk := ops.foldl apply d

/-- There is a file or a directory at the path. -/
def Present (d : Disk) (p : Path) : Prop := (d.file p).isSome ∨ p ∈ d.dirs

instance (d : Disk) (p : Path) : Decidable (d.Present p) := inferInstanceAs (Decidable (_ ∨ _))

end Disk

/-- A file is opened for writing and gets the contents. -/
def writeOps (p : Path) (data : Content) : List DiskOp := .truncate p :: data.map (.put p)

namespace Disk

@[simp] theorem applyAll_nil (d : Disk) : d.applyAll [] = d := rfl

@[simp] theorem applyAll_cons (d : Disk) (op : DiskOp) (ops : List DiskOp) :
    d.applyAll (op :: ops) = (d.apply op).applyAll ops := rfl

@[simp] theorem applyAll_append (d : Disk) (ops ops' : List DiskOp) :
    d.applyAll (ops ++ ops') = (d.applyAll ops).applyAll ops' :=
  List.foldl_append

@[simp] theorem file_apply_mkdirAll (d : Disk) (p : Path) : (d.apply (.mkdirAll p)).file = d.file :=
  rfl

/-- Making directories changes no file. -/
theorem file_applyAll_of_mkdirAll {ops : List DiskOp} (h : ∀ op ∈ ops, ∃ p, op = .mkdirAll p)
    (d : Disk) : (d.applyAll ops).file = d.file := by
  induction ops generalizing d with
  | nil => rfl
  | cons op ops ih =>
    obtain ⟨p, rfl⟩ := h op List.mem_cons_self
    rw [applyAll_cons, ih (fun op hop ↦ h op (List.mem_cons_of_mem _ hop)), file_apply_mkdirAll]

theorem file_apply_truncate (d : Disk) (p : Path) :
    (d.apply (.truncate p)).file = Function.update d.file p (some []) :=
  rfl

theorem file_apply_put (d : Disk) (p : Path) (c : Char) :
    (d.apply (.put p c)).file = Function.update d.file p ((d.file p).map (· ++ [c])) :=
  rfl

theorem file_applyAll_put (d : Disk) (p : Path) (data : Content) :
    (d.applyAll (data.map (.put p))).file
      = Function.update d.file p ((d.file p).map (· ++ data)) := by
  induction data generalizing d with
  | nil => simp
  | cons c data ih =>
    rw [List.map_cons, applyAll_cons, ih, file_apply_put, Function.update_idem,
      Function.update_self, Option.map_map]
    congr 2
    funext content
    exact List.append_assoc content [c] data

/-- **A file that is written to the end** has the contents written, and no other file changes. -/
@[simp] theorem file_applyAll_writeOps (d : Disk) (p : Path) (data : Content) :
    (d.applyAll (writeOps p data)).file = Function.update d.file p (some data) := by
  rw [writeOps, applyAll_cons, file_applyAll_put, file_apply_truncate, Function.update_idem,
    Function.update_self]
  rfl

/-- Writing a file makes no directory. -/
theorem dirs_applyAll_writeOps (d : Disk) (p : Path) (data : Content) :
    (d.applyAll (writeOps p data)).dirs = d.dirs := by
  have hput (d : Disk) : (d.applyAll (data.map (.put p))).dirs = d.dirs := by
    induction data generalizing d with
    | nil => rfl
    | cons c data ih => exact ih (d.apply (.put p c))
  exact hput (d.apply (.truncate p))

end Disk
