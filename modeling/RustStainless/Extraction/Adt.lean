import RustStainless.Extraction.Flags
import RustStainless.Extraction.Ty

/-!
# Extraction of ADTs

`extract_adt` and `extract_ty` call each other: the field types of an ADT are extracted while the
ADT is, and an ADT type met there extracts its ADT unless that has an id already. An ADT gets its
id before its fields are looked at, so the nesting is at most as deep as there are ADTs. The
recursion of `extractAdtWith` is on that depth.
-/

namespace Stainless

open Rustc St Lib

/-- Extract the id of an ADT, extracting the ADT itself if it has none. -/
def extractAdtIdWith (adt : DefId → Xtor ADTSort) (d : DefId) : Xtor SymbolIdentifier := do
  match ← getIdFromDef d with
  | some id => pure id
  | none => do
    let sort ← adt d
    pure sort.id

/-- The fields of a variant. Each takes the flags that name it out of the map. -/
def extractFields (tcx : Tcx) (adtId : DefId → Xtor SymbolIdentifier) (txtcx : TyExtractionCtxt) :
    List FieldDef → Assoc String Flags → Xtor (List ValDef × Assoc String Flags)
  | [], flagsBySymbol => pure ([], flagsBySymbol)
  | field :: rest, flagsBySymbol => do
    let fieldId ← getOrRegisterDef tcx field.did
    let fieldTy ← extractTyWith tcx adtId txtcx field.ty
    let flags := ((flagsBySymbol.get? field.name).map
      (Flags.toStainless tcx txtcx.defId (some field.name))).getD []
    let (fields, flagsBySymbol) ←
      extractFields tcx adtId txtcx rest (flagsBySymbol.remove field.name)
    pure ({ v := { id := fieldId, tpe := fieldTy, flags := flags } } :: fields, flagsBySymbol)

def extractConstructors (tcx : Tcx) (adtId : DefId → Xtor SymbolIdentifier)
    (txtcx : TyExtractionCtxt) (sortId : SymbolIdentifier) :
    List VariantDef → Assoc String Flags → Xtor (List ADTConstructor × Assoc String Flags)
  | [], flagsBySymbol => pure ([], flagsBySymbol)
  | variant :: rest, flagsBySymbol => do
    let consId ← getOrRegisterDef tcx variant.defId
    let (fields, flagsBySymbol) ← extractFields tcx adtId txtcx variant.fields flagsBySymbol
    let (constructors, flagsBySymbol) ←
      extractConstructors tcx adtId txtcx sortId rest flagsBySymbol
    pure ({ id := consId, sort := sortId, fields := fields } :: constructors, flagsBySymbol)

/-- The sort that is stored for an ADT, if it has an id and was added. -/
def getSort (d : DefId) : Xtor (Option ADTSort) := do
  let s ← get
  pure ((s.mapping.didToStid.get? d).bind fun id => s.adts.get? id.globalId)

/-- The flags of an ADT. Only local ones have any. -/
def extractAdtFlags (tcx : Tcx) (d : DefId) : Xtor ItemFlags :=
  if d.isLocal then extractFlags tcx d else pure { carrier := .new, bySymbol := [] }

def reportUnusedAdtFlags (tcx : Tcx) (d : DefId) (bySymbol : Assoc String Flags) : Xtor Unit :=
  if d.isLocal then reportUnusedFlags tcx d bySymbol else pure ()

/-- The part of `extract_adt` behind the registration of the ADT under `sortId`. -/
def extractSort (tcx : Tcx) (adtId : DefId → Xtor SymbolIdentifier) (sortId : SymbolIdentifier)
    (d : DefId) (adtDef : AdtDef) : Xtor ADTSort := do
  let flags ← extractAdtFlags tcx d
  let (tparams, txtcx) ← extractGenericsWith tcx adtId d
  let (constructors, flagsBySymbol) ←
    extractConstructors tcx adtId txtcx sortId adtDef.variants flags.bySymbol
  reportUnusedAdtFlags tcx d flagsBySymbol
  pure
    { id := sortId
      tparams := tparams
      constructors := constructors
      flags := if d.isLocal then flags.carrier.toStainless tcx d none else [] }

/-- Extract an ADT (regardless of whether it is local or external). -/
def extractAdtWith (tcx : Tcx) : Nat → DefId → Xtor ADTSort
  | 0, _ => Run.panic .tooDeep
  | depth + 1, d => do
    match ← getSort d with
    | some sort => pure sort
    | none => do
      let adtId ← registerDef tcx d
      match tcx.adtDef d with
      | none => Run.panic .noAdtDef
      | some adtDef =>
        extractSort tcx (extractAdtIdWith (extractAdtWith tcx depth)) adtId d adtDef

/-- How deep `extract_adt` can be nested: every level gives an id to another ADT. -/
def adtDepth (tcx : Tcx) : Nat := tcx.adtDefs.length + 1

def extractAdt (tcx : Tcx) (d : DefId) : Xtor ADTSort := extractAdtWith tcx (adtDepth tcx) d

def extractAdtId (tcx : Tcx) (d : DefId) : Xtor SymbolIdentifier :=
  extractAdtIdWith (extractAdt tcx) d

def extractTy (tcx : Tcx) (txtcx : TyExtractionCtxt) (ty : Ty) : Xtor Tpe :=
  extractTyWith tcx (extractAdtId tcx) txtcx ty

def extractTys (tcx : Tcx) (txtcx : TyExtractionCtxt) (tys : List Ty) : Xtor (List Tpe) :=
  extractTysWith tcx (extractAdtId tcx) txtcx tys

def extractGenerics (tcx : Tcx) (d : DefId) :
    Xtor (List TypeParameterDef × TyExtractionCtxt) :=
  extractGenericsWith tcx (extractAdtId tcx) d

/-- The loop of `process_crate` over the local ADTs. -/
def extractLocalAdts (tcx : Tcx) : List DefId → Xtor Unit
  | [] => pure ()
  | d :: rest => do
    let sort ← extractAdt tcx d
    addAdt sort.id sort
    extractLocalAdts tcx rest

end Stainless
