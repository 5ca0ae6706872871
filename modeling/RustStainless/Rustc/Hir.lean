import RustStainless.Rustc.Hair

/-!
# HIR: attributes, binding patterns, bodies and items

The extractor walks two representations of a function: the HIR, where it finds items, attributes
and the binding patterns, and the HAIR of the body.
-/

namespace Hir

open Rustc

/-! ## Attributes -/

inductive TokenKind where
  | comma
  | ident (symbol : String)
  | litInteger (symbol : String)
  | other
deriving DecidableEq

inductive TokenTree where
  | token (kind : TokenKind)
  | delimited
deriving DecidableEq

inductive MacArgs where
  | empty
  | delimited (tokens : List TokenTree)
  | eq
deriving DecidableEq

/-- An attribute with the segments of its path, or a doc comment. -/
inductive Attribute where
  | normal (segments : List String) (args : MacArgs)
  | docComment
deriving DecidableEq

/-! ## Patterns and bodies -/

/-- The binding modes of the typeck tables (`ty::BindingMode`). -/
inductive BindMode where
  | byValue (mutbl : Mutability)
  | byReference (mutbl : Mutability)
deriving DecidableEq

/--
A HIR pattern, as far as the collector of bindings sees it.

A `binding` has the canonical id of its variable (all the `x` of `A(x) | B(x)` have the same one;
it is the id of the pattern itself for a parameter), its name, its mode and its type (`node_type`).
Every other pattern is `other` with its id and the patterns that `walk_pat` visits below it.
-/
inductive Pat where
  | binding (hirId : HirId) (name : String) (mode : Option BindMode) (nodeType : Ty)
      (subpattern : Option Pat)
  | other (hirId : HirId) (subpatterns : List Pat)

def Pat.hirId : Pat → HirId
  | .binding hirId _ _ _ _ | .other hirId _ => hirId

/-- `simple_ident`: the name of a binding by value without a subpattern. -/
def Pat.simpleIdent : Pat → Option String
  | .binding _ name (some (.byValue _)) _ none => some name
  | _ => none

mutual

/-- The variables that a pattern binds, with their types. -/
def Pat.bindings : Pat → List (HirId × Ty)
  | .binding hirId _ _ nodeType subpattern => (hirId, nodeType) :: Pat.optBindings subpattern
  | .other _ subpatterns => Pat.listBindings subpatterns

def Pat.optBindings : Option Pat → List (HirId × Ty)
  | none => []
  | some p => p.bindings

def Pat.listBindings : List Pat → List (HirId × Ty)
  | [] => []
  | p :: ps => p.bindings ++ listBindings ps

end

/-- The binding that a pattern is itself. -/
def Pat.topBinding : Pat → List (HirId × Ty)
  | .binding hirId _ _ nodeType _ => [(hirId, nodeType)]
  | .other _ _ => []

/--
The body of a function: the patterns of its parameters, the patterns that `visit_expr` meets in
the value, in visiting order and without those of nested bodies, and the value mirrored to HAIR.
-/
structure Body where
  params : List Pat
  pats : List Pat
  value : Hair.Expr

/-- The bindings of a body, those of the parameters first. -/
def Body.bindings (body : Body) : List (HirId × Ty) :=
  Pat.listBindings body.params ++ Pat.listBindings body.pats

/-! ## Items -/

/-- An identifier: its name and its syntax context. Context 0 is the root. -/
structure Ident where
  name : String
  ctxt : Nat
deriving DecidableEq

/-- An associated item of an impl. -/
inductive AssocItem where
  | fn (defId : DefId) (ident : Ident) (fromExpansion : Bool)
  | other
deriving DecidableEq

inductive ItemKind where
  | externCrate
  | use (path : String)
  | enum
  | struct
  | fn (fromExpansion : Bool)
  | impl (items : List AssocItem)
  | other
deriving DecidableEq

structure Item where
  defId : DefId
  ident : Ident
  kind : ItemKind
deriving DecidableEq

/-- The items of the local crate in visiting order, and whether it has trait items and impl items
other than functions. -/
structure Crate where
  items : List Item
  traitItems : List DefId
  otherImplItems : List DefId

end Hir
