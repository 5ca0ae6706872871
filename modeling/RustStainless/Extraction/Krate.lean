import RustStainless.Extraction.Bindings
import RustStainless.Extraction.Spec

/-!
# Extraction of a crate

The visitor sorts the items of the crate: ADTs, functions, and the spec functions of each function.
Then the ADTs and the functions are extracted, each function with its specs wrapped around its
body, and last the external functions that were referred to, as stubs.
-/

namespace Stainless

open Rustc St Lib

/-! ## Function items -/

/-- Functions in either impl blocks or top-level scope. -/
structure FnItem where
  defId : DefId
  fromExpansion : Bool
  /-- the type of the spec, if the name is that of a spec function -/
  specType : Option SpecType
  /-- the name of the function that is spec'd, if the name is that of a spec function -/
  specFnName : Option Hir.Ident
deriving DecidableEq

/-- `Ident::from_str`: an identifier in the root syntax context. -/
def identFromStr (name : String) : Hir.Ident := { name := name, ctxt := 0 }

def FnItem.new (defId : DefId) (ident : Hir.Ident) (fromExpansion : Bool) : FnItem :=
  match SpecType.parseSpecTypeFnName ident.name with
  | some (specType, specFnName) =>
    { defId := defId
      fromExpansion := fromExpansion
      specType := some specType
      specFnName := some (identFromStr specFnName) }
  | none => { defId := defId, fromExpansion := fromExpansion, specType := none, specFnName := none }

def FnItem.isSpecFn (f : FnItem) : Bool := f.fromExpansion && f.specType.isSome

/-! ## The visitor -/

/-- What the visitor has collected. `specs` maps the user functions to their spec functions. -/
structure ItemVisitor where
  adts : List DefId
  functions : List FnItem
  specs : Assoc DefId (List FnItem)

def ItemVisitor.new : ItemVisitor := { adts := [], functions := [], specs := [] }

def ItemVisitor.pushSpec (v : ItemVisitor) (d : DefId) (spec : FnItem) : ItemVisitor :=
  { v with specs := v.specs.insert d (((v.specs.get? d).getD []) ++ [spec]) }

def shouldIgnore (item : Hir.Item) : Bool :=
  match item.kind with
  | .externCrate => item.ident.name == "std" || item.ident.name == "stainless"
  | .use path => path.startsWith "::std::prelude::v" || path.startsWith "stainless"
  | _ => false

/-- A function is kept as a spec of its parent, or as a normal function. -/
def ItemVisitor.visitFn (tcx : Tcx) (v : ItemVisitor) (fnItem : FnItem) : ItemVisitor :=
  match tcx.parent fnItem.defId with
  | some parent =>
    if fnItem.isSpecFn then v.pushSpec parent fnItem
    else { v with functions := v.functions ++ [fnItem] }
  | none => { v with functions := v.functions ++ [fnItem] }

/-- All functions in an impl by their identifier. -/
def fnsByIdentifier : List Hir.AssocItem → Assoc Hir.Ident FnItem → Assoc Hir.Ident FnItem
  | [], fns => fns
  | .fn defId ident fromExpansion :: rest, fns =>
    fnsByIdentifier rest (fns.insert ident (FnItem.new defId ident fromExpansion))
  | .other :: rest, fns => fnsByIdentifier rest fns

/-- A spec function of an impl is matched with the function of its name, if there is one. -/
def ItemVisitor.matchSpec (fns : Assoc Hir.Ident FnItem) (v : ItemVisitor) (spec : FnItem) :
    ItemVisitor :=
  match spec.specFnName.bind fns.get? with
  | some fnItem => v.pushSpec fnItem.defId spec
  | none => v

def ItemVisitor.visitImpl (tcx : Tcx) (v : ItemVisitor) (impl : DefId)
    (items : List Hir.AssocItem) : ItemVisitor :=
  let fns := fnsByIdentifier items []
  let (specs, functions) :=
    (tcx.iterOrder.iter (.fnsByIdentifier impl) fns.values).partition FnItem.isSpecFn
  specs.foldl (ItemVisitor.matchSpec fns) { v with functions := v.functions ++ functions }

def visitItem (tcx : Tcx) (v : ItemVisitor) (item : Hir.Item) : Xtor ItemVisitor :=
  if shouldIgnore item then pure v
  else
    match item.kind with
    | .enum | .struct => pure { v with adts := v.adts ++ [item.defId] }
    | .fn fromExpansion => pure (v.visitFn tcx (FnItem.new item.defId item.ident fromExpansion))
    | .impl items => pure (v.visitImpl tcx item.defId items)
    | _ => do
      unsupported "Other kind of item"
      pure v

def visitItems (tcx : Tcx) : List Hir.Item → ItemVisitor → Xtor ItemVisitor
  | [], v => pure v
  | item :: rest, v => do
    let v ← visitItem tcx v item
    visitItems tcx rest v

def reportAll (msg : String) : List DefId → Xtor Unit
  | [] => pure ()
  | _ :: rest => do
    unsupported msg
    reportAll msg rest

/-- Items first, then trait items and impl items. -/
def visitAllItemLikes (tcx : Tcx) (krate : Hir.Crate) : Xtor ItemVisitor := do
  let v ← visitItems tcx krate.items .new
  reportAll "Trait item" krate.traitItems
  reportAll "Impl item other than function" krate.otherImplItems
  pure v

/-! ## Spec functions -/

/-- The type parameters of a spec function stand for those of the original function. -/
def correlateTparams (original : Assoc Nat TyParam) :
    List GenericParamDef → Assoc Nat TyParam → Except Panic (Assoc Nat TyParam)
  | [], indexToTparam => .ok indexToTparam
  | param :: rest, indexToTparam =>
    match original.get? param.index with
    | none => .error .assertion
    | some tparam => correlateTparams original rest (indexToTparam.insert param.index tparam)

/-- Register the variables of the original function for the parameters of a spec function. -/
def correlateParams : List Variable → List HirId → Vars → Except Panic Vars
  | v :: vs, h :: hs, vars =>
    if vars.contains h then .error .addVar else correlateParams vs hs (vars.insert h v)
  | _, _, vars => .ok vars

/-- The ids of the parameters of a body. -/
def paramHirIds (body : Hir.Body) : List HirId := body.params.map Hir.Pat.hirId

/--
Match the type parameters and the parameters of a spec function with those of the original
function. The last parameter of a post spec function is the return value.
-/
def correlateSpecFn (tcx : Tcx) (d : DefId) (original : TyExtractionCtxt) (params : List ValDef)
    (returnVar : Option Variable) : Except Panic BodyCtxt :=
  if (tcx.genericsOf d).parent ≠ (tcx.genericsOf original.defId).parent then .error .assertion
  else if (allGenericParamsOf tcx d).length ≠ original.indexToTparam.length then .error .assertion
  else do
    let indexToTparam ← correlateTparams original.indexToTparam (allGenericParamsOf tcx d) []
    let hirIds := paramHirIds (tcx.bodyOf d)
    -- `pop` takes the return parameter off the end.
    if returnVar.isSome && hirIds.isEmpty then .error .assertion
    else if params.length ≠ hirIds.length - returnVar.toList.length then .error .assertion
    else do
      let vars ← correlateParams (params.map (·.v) ++ returnVar.toList) hirIds []
      .ok { txtcx := { defId := d, indexToTparam := indexToTparam }, vars := vars }

def liftPanic {α : Type} : Except Panic α → Xtor α
  | .ok a => pure a
  | .error e => Run.panic e

/-- Extract a specification function and return its body. -/
def extractSpecFn (tcx : Tcx) (d : DefId) (original : TyExtractionCtxt) (params : List ValDef)
    (returnVar : Option Variable) : Xtor St.Expr := do
  let ctx ← liftPanic (correlateSpecFn tcx d original params returnVar)
  let (vars, _) ← populateDefContext tcx ctx.txtcx (tcx.bodyOf d) [] ctx.vars
  extractExpr tcx { ctx with vars := vars } (tcx.bodyOf d).value

def extractSpecFns (tcx : Tcx) (original : TyExtractionCtxt) (params : List ValDef)
    (returnVar : Option Variable) : List DefId → Xtor (List St.Expr)
  | [] => pure []
  | d :: rest => do
    let e ← extractSpecFn tcx d original params returnVar
    let es ← extractSpecFns tcx original params returnVar rest
    pure (e :: es)

/-! ## Local functions -/

def fetchParams (ctx : BodyCtxt) : List HirId → Xtor (List ValDef)
  | [] => pure []
  | h :: rest => do
    let v ← fetchVar ctx h
    let vds ← fetchParams ctx rest
    pure ({ v := v } :: vds)

/-- The parameters, the return type and the body of a function, and the flags left over. -/
def extractFnBody (tcx : Tcx) (d : DefId) (txtcx : TyExtractionCtxt)
    (flagsBySymbol : Assoc String Flags) :
    Xtor (List ValDef × Tpe × St.Expr × Assoc String Flags) := do
  let body := tcx.bodyOf d
  let (vars, flagsBySymbol) ← populateDefContext tcx txtcx body flagsBySymbol []
  let ctx : BodyCtxt := { txtcx := txtcx, vars := vars }
  let returnTpe ← extractTy tcx txtcx (tcx.fnSig d).output
  let params ← fetchParams ctx (paramHirIds body)
  let bodyExpr ← extractExpr tcx ctx body.value
  pure (params, returnTpe, bodyExpr, flagsBySymbol)

/--
The body of a measure function has a trailing `;`, as its type is unknown. The unit literal that
this leaves is dropped, and the last expression is the measure.
-/
def measureOf (specExpr : St.Expr) : Except Panic (Option St.Expr) :=
  match specExpr with
  | .block exprs (.literal .unit) =>
    match exprs.getLast? with
    | none => .error .assertion
    | some last => .ok (some (.block exprs.dropLast last))
  | _ => .ok none

def wrapDecreases (measure : Option St.Expr) (bodyExpr : St.Expr) : St.Expr :=
  match measure with
  | none => bodyExpr
  | some measure => .decreases measure bodyExpr

def wrapRequire (specExprs : List St.Expr) (bodyExpr : St.Expr) : St.Expr :=
  match specExprs with
  | [] => bodyExpr
  | _ => .require (makeAnd specExprs) bodyExpr

def wrapEnsuring (specExprs : List St.Expr) (returnVd : ValDef) (bodyExpr : St.Expr) : St.Expr :=
  match specExprs with
  | [] => bodyExpr
  | _ => .ensuring bodyExpr [returnVd] (makeAnd specExprs)

def extractMeasure (tcx : Tcx) (txtcx : TyExtractionCtxt) (params : List ValDef)
    (measureSpecFunction : Option DefId) : Xtor (Option St.Expr) :=
  match measureSpecFunction with
  | none => pure none
  | some d => do
    let specExpr ← extractSpecFn tcx d txtcx params none
    liftPanic (measureOf specExpr)

/-- Extract a local function. -/
def extractLocalFn (tcx : Tcx) (d : DefId) (preSpecFunctions postSpecFunctions : List DefId)
    (measureSpecFunction : Option DefId) : Xtor FunDef :=
  if !d.isLocal then Run.panic .assertion
  else do
    let flags ← extractFlags tcx d
    let (tparams, txtcx) ← extractGenerics tcx d
    let (params, returnTpe, bodyExpr, flagsBySymbol) ← extractFnBody tcx d txtcx flags.bySymbol
    reportUnusedFlags tcx d flagsBySymbol
    let measure ← extractMeasure tcx txtcx params measureSpecFunction
    let preExprs ← extractSpecFns tcx txtcx params none preSpecFunctions
    let returnId ← freshId "ret"
    let returnVar : Variable := { id := returnId, tpe := returnTpe, flags := [] }
    let postExprs ← extractSpecFns tcx txtcx params (some returnVar) postSpecFunctions
    let fullBody := wrapEnsuring postExprs { v := returnVar }
      (wrapRequire preExprs (wrapDecreases measure bodyExpr))
    let funId ← extractFnRef tcx d
    pure
      { id := funId
        tparams := tparams
        params := params
        returnType := returnTpe
        fullBody := fullBody
        flags := flags.carrier.toStainless tcx d none }

/-- The spec functions that were found for a function, by their types. -/
structure FnSpecs where
  measureFns : List DefId
  preFns : List DefId
  postFns : List DefId

def specsOfType (t : SpecType) (specs : List FnItem) : List DefId :=
  (specs.filter fun s => s.specType = some t).map FnItem.defId

def ItemVisitor.fnSpecs (v : ItemVisitor) (d : DefId) : FnSpecs :=
  let specs := (v.specs.get? d).getD []
  { measureFns := specsOfType .measure specs
    preFns := specsOfType .pre specs
    postFns := specsOfType .post specs }

def extractFn (tcx : Tcx) (d : DefId) (specs : FnSpecs) : Xtor Unit := do
  if specs.measureFns.length > 1 then spanErr "Multiple measures."
  let fd ← extractLocalFn tcx d specs.preFns specs.postFns specs.measureFns.head?
  addFunction fd.id fd

def extractFns (tcx : Tcx) (v : ItemVisitor) : List FnItem → Xtor Unit
  | [] => pure ()
  | f :: rest => do
    extractFn tcx f.defId (v.fnSpecs f.defId)
    extractFns tcx v rest

/-! ## External functions -/

def extractExternParams (tcx : Tcx) (txtcx : TyExtractionCtxt) :
    Nat → List Ty → Xtor (List ValDef)
  | _, [] => pure []
  | i, ty :: tys => do
    let id ← freshId ("param" ++ toString i)
    let tpe ← extractTy tcx txtcx ty
    let rest ← extractExternParams tcx txtcx (i + 1) tys
    pure ({ v := { id := id, tpe := tpe, flags := [] } } :: rest)

/-- Extract an external function, with an empty body. -/
def extractExternFn (tcx : Tcx) (d : DefId) : Xtor FunDef :=
  if d.isLocal then Run.panic .assertion
  else do
    let (tparams, txtcx) ← extractGenerics tcx d
    let params ← extractExternParams tcx txtcx 0 (tcx.fnSig d).inputs
    let returnTpe ← extractTy tcx txtcx (tcx.fnSig d).output
    let funId ← extractFnRef tcx d
    pure
      { id := funId
        tparams := tparams
        params := params
        returnType := returnTpe
        fullBody := .noTree returnTpe
        flags := [.external] }

def extractExternFns (tcx : Tcx) : List DefId → Xtor Unit
  | [] => pure ()
  | d :: rest => do
    let fd ← extractExternFn tcx d
    addFunction fd.id fd
    extractExternFns tcx rest

/-- Those functions that have been referenced, but are not in the crate. -/
def externalFunctions (tcx : Tcx) : Xtor (List DefId) := do
  let s ← get
  pure ((tcx.iterOrder.iter .functionRefs s.functionRefs).filter fun d => !d.isLocal)

/-! ## The crate -/

/-- Entrypoint into the extractor. -/
def processCrate (tcx : Tcx) (krate : Hir.Crate) : Xtor Unit := do
  let v ← visitAllItemLikes tcx krate
  extractLocalAdts tcx v.adts
  extractFns tcx v v.functions
  let external ← externalFunctions tcx
  extractExternFns tcx external

/-- The extracted program. -/
structure Symbols where
  sorts : List ADTSort
  functions : List FunDef

/-- `into_result`, in the iteration order of the maps. -/
def intoResult (tcx : Tcx) (s : Extraction) : Symbols where
  sorts := tcx.iterOrder.iter .adts s.adts.values
  functions := tcx.iterOrder.iter .functions s.functions.values

end Stainless
