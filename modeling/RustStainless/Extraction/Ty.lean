import RustStainless.Extraction.State

/-!
# Extraction of types and generics

`extractTyWith` and `extractGenericsWith` take as a parameter the function that gives the id of an
ADT: that function extracts the ADT when it is new, and so calls back into this module
(`Extraction/Adt.lean` ties the knot).
-/

namespace Stainless

open Rustc St Lib

/-- A Stainless type parameter or a type to replace it with. -/
inductive TyParam where
  | replaced (tpe : Tpe)
  | extracted (tp : TypeParameter)
deriving DecidableEq

def TyParam.toTpe : TyParam → Tpe
  | .replaced tpe => tpe
  | .extracted tp => .typeParameter tp.id tp.flags

/-- Only an extracted type parameter has a definition. -/
def TyParam.toDef : TyParam → Option TypeParameterDef
  | .replaced _ => none
  | .extracted tp => some { tp := tp }

structure TyExtractionCtxt where
  /-- the surrounding item -/
  defId : DefId
  /-- from parameter indices to stainless type parameters -/
  indexToTparam : Assoc Nat TyParam

/-! ## Types -/

section ExtractTy

variable (tcx : Tcx) (adtId : DefId → Xtor SymbolIdentifier) (txtcx : TyExtractionCtxt)

mutual

def extractTyWith : Ty → Xtor Tpe
  | .bool => pure .booleanType
  | .int t =>
    match t.bitWidth with
    | some size => pure (.bvType true size)
    | none => do
      unsupported "Cannot extract type"
      pure .untyped
  | .uint t =>
    match t.bitWidth with
    | some size => pure (.bvType false size)
    | none => do
      unsupported "Cannot extract type"
      pure .untyped
  | .tuple tys => do
    let argTps ← extractTysWith tys
    match argTps with
    | [] => pure .unitType
    | [_] => do
      unsupported "Cannot extract type of one-tuples"
      pure .untyped
    | _ => pure (.tupleType argTps)
  | .adt did substs =>
    if tcx.isBigint did then pure .integerType
    -- The indirection of a box is erased.
    else if tcx.isBox did then extractTyAt0 substs
    else if tcx.stdItems.defToItemOpt did = some .setType then do
      let argTy ← extractTyAt0 substs
      pure (.setType argTy)
    else do
      let sortId ← adtId did
      let argTps ← extractTysWith substs
      pure (.adtType sortId argTps)
  | .ref ty .not => extractTyWith ty
  | .param index =>
    match txtcx.indexToTparam.get? index with
    | some tparam => pure tparam.toTpe
    | none => Run.panic .missingTypeParam
  | .ref _ .mut | .char | .str | .never | .fnDef _ _ | .closure _ _ | .other _ => do
    unsupported "Cannot extract type"
    pure .untyped

def extractTysWith : List Ty → Xtor (List Tpe)
  | [] => pure []
  | ty :: tys => do
    let tpe ← extractTyWith ty
    let tpes ← extractTysWith tys
    pure (tpe :: tpes)

/-- The extraction of `substs.type_at(0)`. -/
def extractTyAt0 : List Ty → Xtor Tpe
  | [] => Run.panic .assertion
  | ty :: _ => extractTyWith ty

end

end ExtractTy

/-! ## Generics -/

/-- The `Fn`-like bounds found on the type parameters: argument types and return type, by index. -/
structure FunBounds where
  params : Assoc Nat (List Ty)
  returns : Assoc Nat Ty

/--
Discover the HOF parameters.

All other predicates are complained about, but for the obviously innocuous ones.
-/
def scanPredicates (tcx : Tcx) : List Predicate → FunBounds → Xtor FunBounds
  | [], bounds => pure bounds
  | .trait did (.param index) paramTys :: rest, bounds =>
    if tcx.shouldSilentlyIgnoreTrait did then scanPredicates tcx rest bounds
    else if tcx.isFnLikeTrait did then
      if bounds.params.contains index then Run.panic .funParams
      else scanPredicates tcx rest { bounds with params := bounds.params.insert index paramTys }
    else do
      spanWarn "Ignored predicate during extraction"
      scanPredicates tcx rest bounds
  | .trait did _ _ :: rest, bounds =>
    if tcx.shouldSilentlyIgnoreTrait did then scanPredicates tcx rest bounds
    else do
      spanWarn "Ignored predicate during extraction"
      scanPredicates tcx rest bounds
  | .projection did (.param index) ty :: rest, bounds =>
    if tcx.isFnLikeTrait did then
      if bounds.returns.contains index then Run.panic .funReturn
      else scanPredicates tcx rest { bounds with returns := bounds.returns.insert index ty }
    else do
      spanWarn "Ignored predicate during extraction"
      scanPredicates tcx rest bounds
  | .projection _ _ _ :: rest, bounds | .other :: rest, bounds => do
    spanWarn "Ignored predicate during extraction"
    scanPredicates tcx rest bounds

/-- Type parameters for all normal generic parameters (ignoring HOF parameters). -/
def extractTparams (tcx : Tcx) (bounds : FunBounds) :
    List GenericParamDef → Assoc Nat TyParam → Xtor (Assoc Nat TyParam)
  | [], indexToTparam => pure indexToTparam
  | param :: rest, indexToTparam =>
    match param.kind with
    | .type =>
      if bounds.params.contains param.index then extractTparams tcx bounds rest indexToTparam
      else do
        let id ← getOrRegisterDef tcx param.defId
        extractTparams tcx bounds rest
          (indexToTparam.insert param.index (.extracted { id := id, flags := [] }))
    | .lifetime | .const => do
      unsupported "Cannot extract generic parameter"
      extractTparams tcx bounds rest indexToTparam

/-- For each HOF parameter, record that it is replaced by the recovered function type. -/
def replaceHofParams (tcx : Tcx) (adtId : DefId → Xtor SymbolIdentifier) :
    Assoc Nat (List Ty) → Assoc Nat Ty → TyExtractionCtxt → Xtor TyExtractionCtxt
  | [], _, txtcx => pure txtcx
  | (index, paramTys) :: rest, returns, txtcx => do
    let paramTps ← extractTysWith tcx adtId txtcx paramTys
    match returns.get? index with
    | none => Run.panic .missingFunReturn
    | some returnTy => do
      let returnTpe ← extractTyWith tcx adtId txtcx returnTy
      if txtcx.indexToTparam.contains index then Run.panic .replacedTparam
      else
        replaceHofParams tcx adtId rest (returns.remove index)
          { txtcx with
            indexToTparam :=
              txtcx.indexToTparam.insert index (.replaced (.functionType paramTps returnTpe)) }

/-- The definitions of the extracted type parameters, in the order in which the map gives them. -/
def tparamDefs (tcx : Tcx) (txtcx : TyExtractionCtxt) : List TypeParameterDef :=
  (tcx.iterOrder.iter (.indexToTparam txtcx.defId) txtcx.indexToTparam.values).filterMap
    TyParam.toDef

def extractGenericsWith (tcx : Tcx) (adtId : DefId → Xtor SymbolIdentifier) (d : DefId) :
    Xtor (List TypeParameterDef × TyExtractionCtxt) :=
  if tcx.isClosure d then
    -- Only a sanity check against the compiler internal type parameters.
    if (allGenericParamsOf tcx d).length = 3 ∧ tcx.predicatesOf d = [] then
      pure ([], { defId := d, indexToTparam := [] })
    else Run.panic .assertion
  else do
    let bounds ← scanPredicates tcx (tcx.predicatesOf d) { params := [], returns := [] }
    let indexToTparam ← extractTparams tcx bounds (allGenericParamsOf tcx d) []
    let txtcx ← replaceHofParams tcx adtId
      (tcx.iterOrder.iter (.tparamToFunParams d) bounds.params) bounds.returns
      { defId := d, indexToTparam := indexToTparam }
    pure (tparamDefs tcx txtcx, txtcx)

end Stainless
