import RustStainless.Rust.Str

/-!
# Types of spec functions

The type of a spec function and the name of the function it belongs to are recovered from the name
of the spec function, which has the form `__{spec_type}_{index}_{fn_name}`.
-/

namespace Stainless

/-- Types of spec functions (pre-, postconditions, ...). -/
inductive SpecType where
  | pre
  | post
  | measure
deriving DecidableEq

/-- `TryFrom<&str>`. -/
def SpecType.tryFrom (name : List Char) : Option SpecType :=
  if name = "pre".toList then some .pre
  else if name = "post".toList then some .post
  else if name = "measure".toList then some .measure
  else none

/-- Parses the spec type and the name of the function the spec belongs to. -/
def SpecType.parseSpecTypeFnName (str : String) : Option (SpecType × String) :=
  match Rust.splitChar '_' str.toList with
  | [] :: [] :: specType :: index :: parts =>
    if index.all Rust.isNumeric then
      (SpecType.tryFrom specType).map fun sp => (sp, String.ofList (Rust.joinChar '_' parts))
    else none
  | _ => none

end Stainless
