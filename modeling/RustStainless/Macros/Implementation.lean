import RustStainless.Macros.Syntax
import RustStainless.Extraction.Spec

/-!
# The spec macros

`#[pre]`, `#[post]` and `#[measure]` turn all specs of their function into functions: next to it if
it has a receiver, otherwise at the start of its block.
-/

namespace Stainless

/-! ## Types of specs -/

/-- The macro crate has an enumeration of the same spec types. -/
def SpecType.name : SpecType → String
  | .pre => "pre"
  | .post => "post"
  | .measure => "measure"

/-- `TryFrom<String>`. -/
def SpecType.ofString (name : String) : Option SpecType :=
  if name = "pre" then some .pre
  else if name = "post" then some .post
  else if name = "measure" then some .measure
  else none

/-- `TryFrom<&Attribute>`: only a path of a single segment is recognised. -/
def SpecType.ofAttribute (attr : Syn.Attribute) : Option SpecType :=
  match attr.path with
  | [segment] => SpecType.ofString segment
  | _ => none

end Stainless

namespace StainlessMacros

open Syn Stainless

structure Spec where
  typ : SpecType
  expr : Expr
deriving DecidableEq

/-- Why there is no expansion. -/
inductive ExpandError where
  /-- `parse_quote!` panics on tokens that do not parse -/
  | parseQuote
  /-- `format_ident!` panics on a name that is no identifier -/
  | formatIdent
  /-- the arguments of a further spec are no expression, a compile error -/
  | parseArgs
deriving DecidableEq

/-! ## Parsing -/

/-- The specs among some attributes, with their arguments parsed. -/
def parseSpecs : List Attribute → Except ExpandError (List Spec)
  | [] => .ok []
  | attr :: attrs =>
    match SpecType.ofAttribute attr with
    | none => parseSpecs attrs
    | some typ =>
      match attr.args with
      | none => .error .parseArgs
      | some expr => do
        let specs ← parseSpecs attrs
        .ok ({ typ := typ, expr := expr } :: specs)

/-- Parse all specs of the decorated function. The first spec is the head of the list. -/
def tryParse (firstSpecType : SpecType) (firstAttrArgs : Option Expr) (item : ItemFn) :
    Except ExpandError (List Spec) :=
  match firstAttrArgs with
  | none => .error .parseQuote
  | some expr => do
    let specs ← parseSpecs item.attrs
    .ok ({ typ := firstSpecType, expr := expr } :: specs)

/-! ## Spec functions -/

/-- The spec identifier is of the form `__{type}_{index}_{name}`. -/
def specText (typ : SpecType) (index : Nat) (fnName : String) : String :=
  "__" ++ typ.name ++ "_" ++ toString index ++ "_" ++ fnName

def specIdent (typ : SpecType) (index : Nat) (fnName : String) : Option String :=
  formatIdent (specText typ index fnName)

/-- The return type of a function, the unit type if there is none. -/
def fnReturnTy (item : ItemFn) : TypeTokens := item.sig.output.getD (.plain "()")

def retParam (item : ItemFn) : SpecType → List (PunctToken FnArg)
  | .post => [.comma, .value (.typed "ret" (fnReturnTy item))]
  | .pre | .measure => []

def docHidden : Attribute := { path := ["doc"], args := some (.whole "hidden") }

def allowUnusedVariables : Attribute :=
  { path := ["allow"], args := some (.whole "unused_variables") }

/--
The body of a spec function. The type of a measure is not known, its function returns nothing.
-/
def specBody (spec : Spec) : Option (List Stmt) :=
  match spec.typ with
  | .measure => spec.expr.parseStmts true
  | .pre | .post => spec.expr.parseStmts false

/-- The function of a spec. -/
def specFn (item : ItemFn) (typ : SpecType) (ident : String) (inputs : Punctuated FnArg)
    (body : List Stmt) : ItemFn :=
  .mk [docHidden, allowUnusedVariables]
    { ident := ident
      generics := item.sig.generics.printed
      inputs := inputs
      output := some (match typ with
        | .measure => .plain "()"
        | .pre | .post => .plain "bool") }
    body

/--
`make_spec_fn`. The name may be no identifier, and the tokens of the parameters or of the body may
fail to parse.
-/
def makeSpecFn (item : ItemFn) (index : Nat) (spec : Spec) : Except ExpandError ItemFn :=
  match specIdent spec.typ (index + 1) item.sig.ident with
  | none => .error .formatIdent
  | some ident =>
    match Punctuated.parseTerminated (item.sig.inputs.toTokens ++ retParam item spec.typ),
      specBody spec with
    | some inputs, some body => .ok (specFn item spec.typ ident inputs body)
    | _, _ => .error .parseQuote

/-- The functions of the specs, the first of which has the index `i`. -/
def makeSpecFns (item : ItemFn) : Nat → List Spec → Except ExpandError (List ItemFn)
  | _, [] => .ok []
  | i, spec :: specs => do
    let f ← makeSpecFn item i spec
    let fs ← makeSpecFns item (i + 1) specs
    .ok (f :: fs)

/-! ## Placement -/

def hasSelfParam (item : ItemFn) : Bool :=
  match item.sig.inputs.elems.head? with
  | some firstInput => firstInput.isReceiver
  | none => false

/-- The specs are siblings of a function with a receiver, and nested in any other. -/
def generateFnWithSpec (item : ItemFn) (specs : List Spec) : Except ExpandError (List ItemFn) := do
  let specFns ← makeSpecFns item 0 specs
  if hasSelfParam item then .ok (specFns ++ [item])
  else .ok [item.splice (specFns.map .fn)]

/-- Extract all the specs from a given function and insert spec functions. -/
def extractSpecsAndExpand (firstSpecType : SpecType) (firstAttrArgs : Option Expr)
    (item : ItemFn) : Except ExpandError (List ItemFn) := do
  let specs ← tryParse firstSpecType firstAttrArgs item
  -- All remaining spec attributes are removed.
  let item := item.withAttrs (item.attrs.filter fun attr => (SpecType.ofAttribute attr).isNone)
  generateFnWithSpec item specs

end StainlessMacros
