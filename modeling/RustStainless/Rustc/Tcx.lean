import RustStainless.Lib.Assoc
import RustStainless.Rustc.Hir

/-!
# The typing context

`Tcx` is what the extractor asks of rustc and of the standard hash maps: definition paths, ADTs,
generics, bounds, signatures, attributes and bodies, the table of standard items, and the order in
which each hash map is iterated.
-/

namespace Rustc

/-- A standard item, either a rust lang item, or one of the stainless library. -/
inductive StdItem where
  | fnTrait
  | fnMutTrait
  | fnOnceTrait
  | sizedTrait
  | beginPanicFn
  | beginPanicFmtFn
  | setType
  | setAddFn
  | setDifferenceFn
  | setIntersectionFn
  | setUnionFn
  | subsetOfFn
  | setEmptyFn
  | setSingletonFn
deriving DecidableEq

/-- The two tables of standard items. -/
structure StdItems where
  itemToDef : StdItem → DefId
  defToItem : List (DefId × StdItem)

def StdItems.defToItemOpt (t : StdItems) (d : DefId) : Option StdItem :=
  Lib.Assoc.get? t.defToItem d

def StdItems.isOneOf (t : StdItems) (d : DefId) (items : List StdItem) : Bool :=
  items.any fun item => t.itemToDef item = d

/-- The places at which the extractor iterates over a hash map or a hash set. -/
inductive HashSite where
  | tparamToFunParams (d : DefId)
  | indexToTparam (d : DefId)
  | fnsByIdentifier (impl : DefId)
  | flags (carrier : DefId) (symbol : Option String)
  | flagsBySymbol (carrier : DefId)
  | functionRefs
  | adts
  | functions
deriving DecidableEq

/-- What kind of definition a `DefId` names. -/
inductive DefKind where
  | adt
  | variant
  | field
  | tyParam
  | fn
  | ctor
  | other
deriving DecidableEq

structure Tcx where
  defKind : DefId → DefKind
  defPathStr : DefId → String
  adtDefs : List AdtDef
  genericsOf : DefId → Generics
  predicatesOf : DefId → List Predicate
  isClosure : DefId → Bool
  fnSig : DefId → FnSig
  parent : DefId → Option DefId
  attrs : DefId → List Hir.Attribute
  bodyOf : DefId → Hir.Body
  stdItems : StdItems
  iterOrder : Lib.IterOrder HashSite

/-- A number for each standard item. -/
def StdItem.index : StdItem → Nat
  | .fnTrait => 0
  | .fnMutTrait => 1
  | .fnOnceTrait => 2
  | .sizedTrait => 3
  | .beginPanicFn => 4
  | .beginPanicFmtFn => 5
  | .setType => 6
  | .setAddFn => 7
  | .setDifferenceFn => 8
  | .setIntersectionFn => 9
  | .setUnionFn => 10
  | .subsetOfFn => 11
  | .setEmptyFn => 12
  | .setSingletonFn => 13

/-- The context of a crate without definitions. The standard items are in a crate of their own. -/
def Tcx.empty : Tcx where
  defKind := fun _ => .other
  defPathStr := fun _ => ""
  adtDefs := []
  genericsOf := fun _ => .root []
  predicatesOf := fun _ => []
  isClosure := fun _ => false
  fnSig := fun _ => { inputs := [], output := .unit }
  parent := fun _ => none
  attrs := fun _ => []
  bodyOf := fun _ => { params := [], pats := [], value := .tuple .unit [] }
  stdItems :=
    { itemToDef := fun item => { krate := 1, index := item.index }
      defToItem := [] }
  iterOrder := .insertion

/-- The same crate with another order of its hash maps. -/
def Tcx.withOrder (tcx : Tcx) (o : Lib.IterOrder HashSite) : Tcx := { tcx with iterOrder := o }

/-- The definition of an ADT. rustc has a bug when there is none. -/
def Tcx.adtDef (tcx : Tcx) (d : DefId) : Option AdtDef :=
  tcx.adtDefs.find? (fun a => a.did = d)

theorem Tcx.adtDef_did {tcx : Tcx} {d : DefId} {a : AdtDef} (h : tcx.adtDef d = some a) :
    a.did = d := by
  simpa using List.find?_some h

theorem Tcx.adtDef_mem {tcx : Tcx} {d : DefId} {a : AdtDef} (h : tcx.adtDef d = some a) :
    a ∈ tcx.adtDefs := List.mem_of_find?_eq_some h

/-! ## Generics -/

/-- All generic parameters, those of the outermost parent first. -/
def allGenericParams : Generics → List GenericParamDef
  | .root params => params
  | .child _ parentGenerics params => allGenericParams parentGenerics ++ params

def allGenericParamsOf (tcx : Tcx) (d : DefId) : List GenericParamDef :=
  allGenericParams (tcx.genericsOf d)

/-! ## Standard items -/

def Tcx.isFnLikeTrait (tcx : Tcx) (d : DefId) : Bool :=
  tcx.stdItems.isOneOf d [.fnTrait, .fnMutTrait, .fnOnceTrait]

def Tcx.shouldSilentlyIgnoreTrait (tcx : Tcx) (d : DefId) : Bool :=
  tcx.stdItems.isOneOf d [.sizedTrait]

/-- Is the ADT the integer type of `num_bigint`? -/
def Tcx.isBigint (tcx : Tcx) (d : DefId) : Bool :=
  tcx.defPathStr d == "num_bigint::BigInt"

/-- Is the ADT the box type? -/
def Tcx.isBox (tcx : Tcx) (d : DefId) : Bool :=
  match tcx.adtDef d with
  | some a => a.isBox
  | none => false

def isBvType : Ty → Bool
  | .int _ | .uint _ => true
  | _ => false

def isSignedBvType : Ty → Bool
  | .int _ => true
  | _ => false

def Tcx.isBigintType (tcx : Tcx) : Ty → Bool
  | .adt d _ => tcx.isBigint d
  | _ => false

end Rustc
