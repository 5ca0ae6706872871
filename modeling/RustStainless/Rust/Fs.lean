import Mathlib.Logic.Function.Basic

/-!
# Directories of the Rust standard library

`std::fs::rename` and `std::fs::remove_dir_all` on directories, for a program that uses a few fixed
paths. Whether an empty directory is replaced depends on the platform. An operation can also fail
for reasons of the operating system; a removal may then have removed a part.
-/

namespace Rust

/-- What a directory contains. -/
abbrev Dir (E : Type) := List E

/-- The directories that exist under the paths of the program. -/
abbrev Dirs (P E : Type) := P → Option (Dir E)

/-- A directory can be moved to where there is this one, if any. -/
def vacant {E : Type} (replacesEmpty : Bool) : Option (Dir E) → Bool
  | none => true
  | some dir => replacesEmpty && dir.isEmpty

namespace Dirs

variable {P E : Type} [DecidableEq P]

/-- The directory at `src` moves to `dst`. -/
def move (src dst : P) (ds : Dirs P E) : Dirs P E :=
  Function.update (Function.update ds dst (ds src)) src none

/-- `fs::rename`: whether it succeeds, and the directories then. -/
def rename (replacesEmpty fault : Bool) (src dst : P) (ds : Dirs P E) : Bool × Dirs P E :=
  if (ds src).isSome && vacant replacesEmpty (ds dst) && !fault then (true, ds.move src dst)
  else (false, ds)

/-- `fs::remove_dir_all`. With a fault, a part of the directory stays. -/
def removeDirAll (fault : Option (Dir E)) (p : P) (ds : Dirs P E) : Bool × Dirs P E :=
  match ds p with
  | none => (false, ds)
  | some _ => (fault.isNone, Function.update ds p fault)

variable {replacesEmpty fault : Bool} {src dst p : P} {ds : Dirs P E}

theorem move_src : ds.move src dst src = none := by simp [move]

theorem move_dst (h : dst ≠ src) : ds.move src dst dst = ds src := by simp [move, h]

theorem rename_of_ok (hsrc : (ds src).isSome) (hdst : vacant replacesEmpty (ds dst))
    (hfault : fault = false) : ds.rename replacesEmpty fault src dst = (true, ds.move src dst) :=
  if_pos (by simp [hsrc, hdst, hfault])

theorem rename_of_not_ok
    (h : ¬((ds src).isSome ∧ vacant replacesEmpty (ds dst) ∧ fault = false)) :
    ds.rename replacesEmpty fault src dst = (false, ds) :=
  if_neg (by simpa [and_assoc] using h)

/-- What is at the path after a removal. -/
theorem removeDirAll_self (rest : Option (Dir E)) :
    (ds.removeDirAll rest p).2 p = if (ds p).isSome then rest else none := by
  unfold removeDirAll
  cases h : ds p <;> simp [h]

theorem removeDirAll_of_ne {q : P} (h : q ≠ p) (rest : Option (Dir E)) :
    (ds.removeDirAll rest p).2 q = ds q := by
  unfold removeDirAll
  cases ds p <;> simp [h]

end Dirs

end Rust
