import Mathlib.Data.List.Infix
import RustStainless.Rust.Str

/-!
# Paths and substrings of the Rust standard library

`str::contains`, and the two functions of Unix paths that the cargo subcommand calls or is about.
-/

namespace Rust

/-- `str::contains`. -/
def contains (s pattern : String) : Bool := decide (pattern.toList <:+: s.toList)

/-- A part between slashes that is no component, unless it comes first. -/
def isBlankPart (part : List Char) : Bool := part == [] || part == ['.']

/-- `Path::file_name`. -/
def fileName (path : String) : Option String :=
  match (splitChar '/' path.toList).reverse.dropWhile isBlankPart with
  | [] => none
  | part :: _ => if part = ['.', '.'] then none else some (String.ofList part)

/-- `PathBuf::pop`. The root and the empty path stay. -/
def popPath (path : String) : String :=
  match splitChar '/' path.toList with
  | [] => path
  | first :: rest =>
    match rest.reverse.dropWhile isBlankPart with
    | [] => if first = [] then path else ""
    | _ :: parents =>
      match parents.dropWhile isBlankPart with
      | [] => String.ofList (if first = [] then ['/'] else first)
      | parents' => String.ofList (joinChar '/' (first :: parents'.reverse))

theorem infix_joinChar (sep : Char) {part : List Char} :
    ∀ {parts : List (List Char)}, part ∈ parts → part <:+: joinChar sep parts
  | [q], h => by
    rw [List.mem_singleton.mp h]
    exact List.infix_rfl
  | q :: r :: parts, h => by
    rw [joinChar]
    · rcases List.mem_cons.mp h with rfl | h
      · exact List.infix_append' [] part _
      · have hrest := infix_joinChar sep h
        exact hrest.trans ((List.suffix_cons _ _).trans (List.suffix_append _ _)).isInfix
    · simp

/-- A path contains its file name. -/
theorem contains_fileName {path name : String} (h : fileName path = some name) :
    contains path name = true := by
  unfold fileName at h
  split at h
  · cases h
  next part _ hparts =>
    split at h
    · cases h
    have hmem : part ∈ splitChar '/' path.toList := by
      have hdrop : part ∈ (splitChar '/' path.toList).reverse.dropWhile isBlankPart := by
        rw [hparts]
        exact List.mem_cons_self
      exact List.mem_reverse.mp ((List.dropWhile_sublist _).mem hdrop)
    have hinfix := infix_joinChar '/' hmem
    rw [joinChar_splitChar] at hinfix
    cases h
    simpa [contains] using hinfix

end Rust
