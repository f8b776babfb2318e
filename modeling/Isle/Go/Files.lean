import Isle.Go.Filepath
import Mathlib.Logic.Function.Basic

/-!
# Files of bytes

Files that are created, written and resized. A file that grows is filled up with zeros, and one that
is cut loses its end; `truncate` is that on the bytes of one file, and `prefix_truncate` says that
nothing is lost by it if the file does not shrink.
-/

open Filepath

namespace Files

/-- What is in a file. -/
abbrev Bytes := List UInt8

/-- `ftruncate` of a file to a size. -/
def truncate (n : ℕ) (bs : Bytes) : Bytes := bs.take n ++ List.replicate (n - bs.length) 0

@[simp] theorem length_truncate (n : ℕ) (bs : Bytes) : (truncate n bs).length = n := by
  simp only [truncate, List.length_append, List.length_take, List.length_replicate]
  omega

theorem prefix_truncate {n : ℕ} {bs : Bytes} (h : bs.length ≤ n) : bs <+: truncate n bs := by
  rw [truncate, List.take_of_length_le h]
  exact List.prefix_append ..

end Files

/-- The files that there are. -/
abbrev Files := Path → Option Files.Bytes

namespace Files

variable (fs : Files) (p : Path)

/-- `os.Create` -/
def create : Files := Function.update fs p (some [])

/-- A write to a file that was opened. -/
def write (bs : Bytes) : Files := Function.update fs p ((fs p).map (· ++ bs))

/-- `f.Truncate` on a file that was opened by its name: it fails if there is no such file, or if the
size is negative. -/
def truncateFile (size : ℤ) : Option Files :=
  match fs p with
  | some bs =>
    if 0 ≤ size then some (Function.update fs p (some (truncate size.toNat bs))) else none
  | none => none

end Files
