import RustStainless.Data.Symbols
import RustStainless.Data.Tree

/-!
# Serialization of the trees

The `Serializable` impls of the node kinds that the extractor builds: a marker, and the fields in
the order in which the impl writes them. `toSignedBytesBe` is the function of that name of a big
integer.
-/

namespace St

open Lib

/-! ## Identifiers -/

def Identifier.serialize (i : Identifier) : Ser := do
  writeMarker 90
  serializeTuple 3 do
    serializeString i.name
    serializeInt i.globalId
    serializeInt i.id

/-- The Identifier's `globalId` is also the Symbol's id. Its name is not written. -/
def SymbolIdentifier.serialize (i : SymbolIdentifier) : Ser := do
  writeMarker 145
  serializeTuple 4 do
    serializeInt i.id.globalId
    serializeInt i.id.id
    serializeSeq i.symbolPath.length (serializeAll serializeString i.symbolPath)
    serializeInt i.id.globalId

/-! ## Types -/

def Flag.serialize (flag : Flag) : Ser := writeMarker flag.marker

def serializeFlags (flags : List Flag) : Ser :=
  serializeSeq flags.length (serializeAll Flag.serialize flags)

mutual

def Tpe.serialize : Tpe → Ser
  | .untyped => writeMarker 75
  | .booleanType => writeMarker 76
  | .unitType => writeMarker 77
  | .integerType => writeMarker 79
  | .stringType => writeMarker 81
  | .bvType signed size => do
    writeMarker 82
    serializeBoolean signed
    serializeInt size
  | .typeParameter id flags => do
    writeMarker 83
    id.serialize
    serializeFlags flags
  | .tupleType bases => do
    writeMarker 84
    serializeSeq bases.length (Tpe.serializeAll bases)
  | .setType base => do
    writeMarker 85
    Tpe.serialize base
  | .functionType params result => do
    writeMarker 88
    serializeSeq params.length (Tpe.serializeAll params)
    Tpe.serialize result
  | .adtType id tps => do
    writeMarker 89
    id.serialize
    serializeSeq tps.length (Tpe.serializeAll tps)

def Tpe.serializeAll : List Tpe → Ser
  | [] => pure ()
  | t :: ts => do
    Tpe.serialize t
    Tpe.serializeAll ts

end

def serializeTps (tps : List Tpe) : Ser := serializeSeq tps.length (Tpe.serializeAll tps)

def TypeParameter.serialize (tp : TypeParameter) : Ser := do
  writeMarker 83
  tp.id.serialize
  serializeFlags tp.flags

def TypeParameterDef.serialize (tpd : TypeParameterDef) : Ser := do
  writeMarker 95
  tpd.tp.serialize

def Variable.serialize (v : Variable) : Ser := do
  writeMarker 11
  v.id.serialize
  v.tpe.serialize
  serializeFlags v.flags

def ValDef.serialize (vd : ValDef) : Ser := do
  writeMarker 94
  vd.v.serialize

def serializeValDefs (vds : List ValDef) : Ser :=
  serializeSeq vds.length (serializeAll ValDef.serialize vds)

def serializeTparams (tparams : List TypeParameterDef) : Ser :=
  serializeSeq tparams.length (serializeAll TypeParameterDef.serialize tparams)

section

variable (toSignedBytesBe : Int → List UInt8)

/-! ## Patterns -/

def Literal.serialize : Literal → Ser
  | .bv signed value size => do
    writeMarker 20
    serializeTuple 3 do
      serializeBoolean signed
      serializeBigInt (toSignedBytesBe value)
      serializeInt size
  | .boolean value => do
    writeMarker 23
    serializeBoolean value
  | .string value => do
    writeMarker 24
    serializeString value
  | .unit => writeMarker 25

def serializeBinder (binder : Option ValDef) : Ser :=
  serializeOption (binder.map ValDef.serialize)

mutual

def Pattern.serialize : Pattern → Ser
  | .wildcard binder => do
    writeMarker 128
    serializeBinder binder
  | .adt binder id tps subPatterns => do
    writeMarker 129
    serializeBinder binder
    id.serialize
    serializeTps tps
    serializeSeq subPatterns.length (Pattern.serializeAll subPatterns)
  | .tuple binder subPatterns => do
    writeMarker 130
    serializeBinder binder
    serializeSeq subPatterns.length (Pattern.serializeAll subPatterns)
  | .literal binder lit => do
    writeMarker 131
    serializeBinder binder
    lit.serialize toSignedBytesBe

def Pattern.serializeAll : List Pattern → Ser
  | [] => pure ()
  | p :: ps => do
    Pattern.serialize p
    Pattern.serializeAll ps

end

/-! ## Expressions -/

mutual

def Expr.serialize : Expr → Ser
  | .variable v => v.serialize
  | .literal lit => lit.serialize toSignedBytesBe
  | .unary op arg => do
    writeMarker op.marker
    Expr.serialize arg
  | .binary op lhs rhs => do
    writeMarker op.marker
    Expr.serialize lhs
    Expr.serialize rhs
  | .letIn vd value body => do
    writeMarker 12
    vd.serialize
    Expr.serialize value
    Expr.serialize body
  | .functionInvocation id tps args => do
    writeMarker 17
    id.serialize
    serializeTps tps
    serializeSeq args.length (Expr.serializeAll args)
  | .ifExpr cond thenn elze => do
    writeMarker 18
    Expr.serialize cond
    Expr.serialize thenn
    Expr.serialize elze
  | .adt id tps args => do
    writeMarker 27
    id.serialize
    serializeTps tps
    serializeSeq args.length (Expr.serializeAll args)
  | .adtSelector adt selector => do
    writeMarker 29
    Expr.serialize adt
    selector.serialize
  | .and exprs => do
    writeMarker 31
    serializeSeq exprs.length (Expr.serializeAll exprs)
  | .or exprs => do
    writeMarker 32
    serializeSeq exprs.length (Expr.serializeAll exprs)
  | .bvWideningCast expr newType => do
    writeMarker 56
    Expr.serialize expr
    newType.serialize
  | .tuple exprs => do
    writeMarker 57
    serializeSeq exprs.length (Expr.serializeAll exprs)
  | .tupleSelect tuple index => do
    writeMarker 58
    Expr.serialize tuple
    serializeInt index
  | .finiteSet elements base => do
    writeMarker 59
    serializeSeq elements.length (Expr.serializeAll elements)
    base.serialize
  | .noTree tpe => do
    writeMarker 120
    tpe.serialize
  | .error tpe description => do
    writeMarker 121
    tpe.serialize
    serializeString description
  | .require pred body => do
    writeMarker 122
    Expr.serialize pred
    Expr.serialize body
  | .ensuring body params pred => do
    writeMarker 124
    Expr.serialize body
    -- The predicate is a lambda.
    writeMarker 14
    serializeValDefs params
    Expr.serialize pred
  | .matchExpr scrutinee cases => do
    writeMarker 126
    Expr.serialize scrutinee
    serializeSeq cases.length (Expr.serializeCases cases)
  | .decreases measure body => do
    writeMarker 180
    Expr.serialize measure
    Expr.serialize body
  | .block exprs last => do
    writeMarker 188
    serializeSeq exprs.length (Expr.serializeAll exprs)
    Expr.serialize last

def Expr.serializeAll : List Expr → Ser
  | [] => pure ()
  | e :: es => do
    Expr.serialize e
    Expr.serializeAll es

def MatchCase.serialize : MatchCase → Ser
  | .mk pattern optGuard rhs => do
    writeMarker 127
    pattern.serialize toSignedBytesBe
    Expr.serializeOpt optGuard
    Expr.serialize rhs

def Expr.serializeCases : List MatchCase → Ser
  | [] => pure ()
  | c :: cs => do
    MatchCase.serialize c
    Expr.serializeCases cs

def Expr.serializeOpt : Option Expr → Ser
  | none => serializeOption none
  | some e => serializeOption (some (Expr.serialize e))

end

/-! ## Definitions -/

def ADTConstructor.serialize (c : ADTConstructor) : Ser := do
  writeMarker 97
  c.id.serialize
  c.sort.serialize
  serializeValDefs c.fields

def ADTSort.serialize (sort : ADTSort) : Ser := do
  writeMarker 96
  sort.id.serialize
  serializeTparams sort.tparams
  serializeSeq sort.constructors.length
    (St.serializeAll ADTConstructor.serialize sort.constructors)
  serializeFlags sort.flags

def FunDef.serialize (fd : FunDef) : Ser := do
  writeMarker 98
  fd.id.serialize
  serializeTparams fd.tparams
  serializeValDefs fd.params
  fd.returnType.serialize
  fd.fullBody.serialize toSignedBytesBe
  serializeFlags fd.flags

/-! ## Symbols -/

/-- `sort()` of definitions, which are compared by the `globalId` of their ids. -/
def sortById {D : Type} (key : D → Int) (defs : List D) : List D :=
  defs.mergeSort fun d e => key d ≤ key e

def Symbols.sortedSorts (x : Symbols) : List ADTSort :=
  sortById (fun sort => sort.id.globalId) x.sorts.values

def Symbols.sortedFunctions (x : Symbols) : List FunDef :=
  sortById (fun fd => fd.id.globalId) x.functions.values

/-- What `Symbols::serialize` writes to the inner serializer. -/
def Symbols.serializeInner (x : Symbols) : Ser :=
  serializeTuple 2 do
    serializeSeq x.sortedFunctions.length
      (St.serializeAll (FunDef.serialize toSignedBytesBe) x.sortedFunctions)
    serializeSeq x.sortedSorts.length (St.serializeAll ADTSort.serialize x.sortedSorts)

def Symbols.serialize (x : Symbols) : Ser :=
  match x.serializeInner toSignedBytesBe [] with
  | .ok (_, buffer) => serializeBuffer buffer
  | .error p => Run.panic p

end

end St
