import Mathlib.Logic.Function.Basic
import RustStainless.Data.ToTree

/-!
# A tree tells what it is the shape of

The shape of an identifier has no name. Up to these names (`unnamed`), every term can be read back
from its shape.
-/

namespace St

open Lib

/-! ## Without the names of identifiers -/

/-- An identifier as far as `globalId`, `id` and path go. -/
def SymbolIdentifier.unnamed (i : SymbolIdentifier) : SymbolIdentifier :=
  { i with id := { i.id with name := "" } }

mutual

def Tpe.unnamed : Tpe → Tpe
  | .typeParameter id flags => .typeParameter id.unnamed flags
  | .tupleType bases => .tupleType (Tpe.unnamedAll bases)
  | .setType base => .setType (Tpe.unnamed base)
  | .functionType params result => .functionType (Tpe.unnamedAll params) (Tpe.unnamed result)
  | .adtType id tps => .adtType id.unnamed (Tpe.unnamedAll tps)
  | t => t

def Tpe.unnamedAll : List Tpe → List Tpe
  | [] => []
  | t :: ts => Tpe.unnamed t :: Tpe.unnamedAll ts

end

def TypeParameterDef.unnamed (tpd : TypeParameterDef) : TypeParameterDef :=
  { tp := { tpd.tp with id := tpd.tp.id.unnamed } }

def Variable.unnamed (v : Variable) : Variable :=
  { v with id := v.id.unnamed, tpe := v.tpe.unnamed }

def ValDef.unnamed (vd : ValDef) : ValDef := { v := vd.v.unnamed }

mutual

def Pattern.unnamed : Pattern → Pattern
  | .wildcard binder => .wildcard (binder.map ValDef.unnamed)
  | .literal binder lit => .literal (binder.map ValDef.unnamed) lit
  | .tuple binder subPatterns =>
    .tuple (binder.map ValDef.unnamed) (Pattern.unnamedAll subPatterns)
  | .adt binder id tps subPatterns =>
    .adt (binder.map ValDef.unnamed) id.unnamed (Tpe.unnamedAll tps)
      (Pattern.unnamedAll subPatterns)

def Pattern.unnamedAll : List Pattern → List Pattern
  | [] => []
  | p :: ps => Pattern.unnamed p :: Pattern.unnamedAll ps

end

mutual

def Expr.unnamed : Expr → Expr
  | .variable v => .variable v.unnamed
  | .literal lit => .literal lit
  | .unary op arg => .unary op (Expr.unnamed arg)
  | .binary op lhs rhs => .binary op (Expr.unnamed lhs) (Expr.unnamed rhs)
  | .bvWideningCast expr newType => .bvWideningCast (Expr.unnamed expr) newType.unnamed
  | .and exprs => .and (Expr.unnamedAll exprs)
  | .or exprs => .or (Expr.unnamedAll exprs)
  | .tuple exprs => .tuple (Expr.unnamedAll exprs)
  | .tupleSelect expr index => .tupleSelect (Expr.unnamed expr) index
  | .adtSelector expr selector => .adtSelector (Expr.unnamed expr) selector.unnamed
  | .adt id tps args => .adt id.unnamed (Tpe.unnamedAll tps) (Expr.unnamedAll args)
  | .functionInvocation id tps args =>
    .functionInvocation id.unnamed (Tpe.unnamedAll tps) (Expr.unnamedAll args)
  | .finiteSet elements base => .finiteSet (Expr.unnamedAll elements) base.unnamed
  | .letIn vd value body => .letIn vd.unnamed (Expr.unnamed value) (Expr.unnamed body)
  | .block exprs last => .block (Expr.unnamedAll exprs) (Expr.unnamed last)
  | .ifExpr cond thenn elze =>
    .ifExpr (Expr.unnamed cond) (Expr.unnamed thenn) (Expr.unnamed elze)
  | .matchExpr scrutinee cases =>
    .matchExpr (Expr.unnamed scrutinee) (Expr.unnamedCases cases)
  | .error tpe description => .error tpe.unnamed description
  | .noTree tpe => .noTree tpe.unnamed
  | .decreases measure body => .decreases (Expr.unnamed measure) (Expr.unnamed body)
  | .require pred body => .require (Expr.unnamed pred) (Expr.unnamed body)
  | .ensuring body params pred =>
    .ensuring (Expr.unnamed body) (params.map ValDef.unnamed) (Expr.unnamed pred)

def Expr.unnamedAll : List Expr → List Expr
  | [] => []
  | e :: es => Expr.unnamed e :: Expr.unnamedAll es

def MatchCase.unnamed : MatchCase → MatchCase
  | .mk pattern optGuard rhs => .mk pattern.unnamed (Expr.unnamedOpt optGuard) (Expr.unnamed rhs)

def Expr.unnamedCases : List MatchCase → List MatchCase
  | [] => []
  | c :: cs => MatchCase.unnamed c :: Expr.unnamedCases cs

def Expr.unnamedOpt : Option Expr → Option Expr
  | none => none
  | some e => some (Expr.unnamed e)

end

def ADTConstructor.unnamed (c : ADTConstructor) : ADTConstructor :=
  { id := c.id.unnamed, sort := c.sort.unnamed, fields := c.fields.map ValDef.unnamed }

def ADTSort.unnamed (sort : ADTSort) : ADTSort :=
  { sort with
    id := sort.id.unnamed
    tparams := sort.tparams.map TypeParameterDef.unnamed
    constructors := sort.constructors.map ADTConstructor.unnamed }

def FunDef.unnamed (fd : FunDef) : FunDef :=
  { fd with
    id := fd.id.unnamed
    tparams := fd.tparams.map TypeParameterDef.unnamed
    params := fd.params.map ValDef.unnamed
    returnType := fd.returnType.unnamed
    fullBody := fd.fullBody.unnamed }

/-! ## Reading shapes -/

noncomputable section

def readString : Tree → Option String
  | .string bytes => Function.partialInv asBytes bytes
  | _ => none

def readSeq {α : Type} (read : Tree → Option α) : Tree → Option (List α)
  | .seq elems => elems.mapM read
  | _ => none

def SymbolIdentifier.ofTree : Tree → Option SymbolIdentifier
  | .node .symbolIdentifier [.tuple [.int globalId, .int id, path, .int _]] => do
    let symbolPath ← readSeq readString path
    pure { id := { name := "", globalId := globalId, id := id }, symbolPath }
  | _ => none

def Identifier.ofTree : Tree → Option Identifier
  | .node .identifier [.tuple [name, .int globalId, .int id]] => do
    let name ← readString name
    pure { name, globalId := globalId, id := id }
  | _ => none

def Flag.ofTree : Tree → Option Flag
  | .node (.flag flag) [] => some flag
  | _ => none

mutual

def Tpe.ofTree : Tree → Option Tpe
  | .node .untyped [] => some .untyped
  | .node .booleanType [] => some .booleanType
  | .node .unitType [] => some .unitType
  | .node .integerType [] => some .integerType
  | .node .stringType [] => some .stringType
  | .node .bvType [.boolean signed, .int size] => some (.bvType signed size.toNat)
  | .node .typeParameter [id, flags] => do
    let id ← SymbolIdentifier.ofTree id
    let flags ← readSeq Flag.ofTree flags
    pure (.typeParameter id flags)
  | .node .tupleType [.seq bases] => do
    let bases ← Tpe.ofTrees bases
    pure (.tupleType bases)
  | .node .setType [base] => do
    let base ← Tpe.ofTree base
    pure (.setType base)
  | .node .functionType [.seq params, result] => do
    let params ← Tpe.ofTrees params
    let result ← Tpe.ofTree result
    pure (.functionType params result)
  | .node .adtType [id, .seq tps] => do
    let id ← SymbolIdentifier.ofTree id
    let tps ← Tpe.ofTrees tps
    pure (.adtType id tps)
  | _ => none

def Tpe.ofTrees : List Tree → Option (List Tpe)
  | [] => some []
  | t :: ts => do
    let t ← Tpe.ofTree t
    let ts ← Tpe.ofTrees ts
    pure (t :: ts)

end

def TypeParameterDef.ofTree : Tree → Option TypeParameterDef
  | .node .typeParameterDef [.node .typeParameter [id, flags]] => do
    let id ← SymbolIdentifier.ofTree id
    let flags ← readSeq Flag.ofTree flags
    pure { tp := { id, flags } }
  | _ => none

def Variable.ofTree : Tree → Option Variable
  | .node .variable [id, tpe, flags] => do
    let id ← SymbolIdentifier.ofTree id
    let tpe ← Tpe.ofTree tpe
    let flags ← readSeq Flag.ofTree flags
    pure { id, tpe, flags }
  | _ => none

def ValDef.ofTree : Tree → Option ValDef
  | .node .valDef [v] => do
    let v ← Variable.ofTree v
    pure { v }
  | _ => none

def readBinder : Tree → Option (Option ValDef)
  | .none => some none
  | .some vd => do
    let vd ← ValDef.ofTree vd
    pure (some vd)
  | _ => none

variable (toSignedBytesBe : Int → List UInt8)

def Literal.ofTree : Tree → Option Literal
  | .node .unitLiteral [] => some .unit
  | .node .booleanLiteral [.boolean value] => some (.boolean value)
  | .node .bvLiteral [.tuple [.boolean signed, .bigInt bytes, .int size]] => do
    let value ← Function.partialInv toSignedBytesBe bytes
    pure (.bv signed value size.toNat)
  | .node .stringLiteral [value] => do
    let value ← readString value
    pure (.string value)
  | _ => none

mutual

def Pattern.ofTree : Tree → Option Pattern
  | .node .wildcardPattern [binder] => do
    let binder ← readBinder binder
    pure (.wildcard binder)
  | .node .literalPattern [binder, lit] => do
    let binder ← readBinder binder
    let lit ← Literal.ofTree toSignedBytesBe lit
    pure (.literal binder lit)
  | .node .tuplePattern [binder, .seq subPatterns] => do
    let binder ← readBinder binder
    let subPatterns ← Pattern.ofTrees subPatterns
    pure (.tuple binder subPatterns)
  | .node .adtPattern [binder, id, .seq tps, .seq subPatterns] => do
    let binder ← readBinder binder
    let id ← SymbolIdentifier.ofTree id
    let tps ← Tpe.ofTrees tps
    let subPatterns ← Pattern.ofTrees subPatterns
    pure (.adt binder id tps subPatterns)
  | _ => none

def Pattern.ofTrees : List Tree → Option (List Pattern)
  | [] => some []
  | t :: ts => do
    let p ← Pattern.ofTree t
    let ps ← Pattern.ofTrees ts
    pure (p :: ps)

end

mutual

def Expr.ofTree : Tree → Option Expr
  | .node .variable fields => do
    let v ← Variable.ofTree (.node .variable fields)
    pure (.variable v)
  | .node (.unary op) [arg] => do
    let arg ← Expr.ofTree arg
    pure (.unary op arg)
  | .node (.binary op) [lhs, rhs] => do
    let lhs ← Expr.ofTree lhs
    let rhs ← Expr.ofTree rhs
    pure (.binary op lhs rhs)
  | .node .bvWideningCast [expr, newType] => do
    let expr ← Expr.ofTree expr
    let newType ← Tpe.ofTree newType
    pure (.bvWideningCast expr newType)
  | .node .and [.seq exprs] => do
    let exprs ← Expr.ofTrees exprs
    pure (.and exprs)
  | .node .or [.seq exprs] => do
    let exprs ← Expr.ofTrees exprs
    pure (.or exprs)
  | .node .tuple [.seq exprs] => do
    let exprs ← Expr.ofTrees exprs
    pure (.tuple exprs)
  | .node .tupleSelect [expr, .int index] => do
    let expr ← Expr.ofTree expr
    pure (.tupleSelect expr index.toNat)
  | .node .adtSelector [expr, selector] => do
    let expr ← Expr.ofTree expr
    let selector ← SymbolIdentifier.ofTree selector
    pure (.adtSelector expr selector)
  | .node .adt [id, .seq tps, .seq args] => do
    let id ← SymbolIdentifier.ofTree id
    let tps ← Tpe.ofTrees tps
    let args ← Expr.ofTrees args
    pure (.adt id tps args)
  | .node .functionInvocation [id, .seq tps, .seq args] => do
    let id ← SymbolIdentifier.ofTree id
    let tps ← Tpe.ofTrees tps
    let args ← Expr.ofTrees args
    pure (.functionInvocation id tps args)
  | .node .finiteSet [.seq elements, base] => do
    let elements ← Expr.ofTrees elements
    let base ← Tpe.ofTree base
    pure (.finiteSet elements base)
  | .node .letIn [vd, value, body] => do
    let vd ← ValDef.ofTree vd
    let value ← Expr.ofTree value
    let body ← Expr.ofTree body
    pure (.letIn vd value body)
  | .node .block [.seq exprs, last] => do
    let exprs ← Expr.ofTrees exprs
    let last ← Expr.ofTree last
    pure (.block exprs last)
  | .node .ifExpr [cond, thenn, elze] => do
    let cond ← Expr.ofTree cond
    let thenn ← Expr.ofTree thenn
    let elze ← Expr.ofTree elze
    pure (.ifExpr cond thenn elze)
  | .node .matchExpr [scrutinee, .seq cases] => do
    let scrutinee ← Expr.ofTree scrutinee
    let cases ← Expr.ofCaseTrees cases
    pure (.matchExpr scrutinee cases)
  | .node .error [tpe, description] => do
    let tpe ← Tpe.ofTree tpe
    let description ← readString description
    pure (.error tpe description)
  | .node .noTree [tpe] => do
    let tpe ← Tpe.ofTree tpe
    pure (.noTree tpe)
  | .node .decreases [measure, body] => do
    let measure ← Expr.ofTree measure
    let body ← Expr.ofTree body
    pure (.decreases measure body)
  | .node .require [pred, body] => do
    let pred ← Expr.ofTree pred
    let body ← Expr.ofTree body
    pure (.require pred body)
  | .node .ensuring [body, .node .lambda [params, pred]] => do
    let body ← Expr.ofTree body
    let params ← readSeq ValDef.ofTree params
    let pred ← Expr.ofTree pred
    pure (.ensuring body params pred)
  | .node kind fields => do
    let lit ← Literal.ofTree toSignedBytesBe (.node kind fields)
    pure (.literal lit)
  | _ => none

def Expr.ofTrees : List Tree → Option (List Expr)
  | [] => some []
  | t :: ts => do
    let e ← Expr.ofTree t
    let es ← Expr.ofTrees ts
    pure (e :: es)

def MatchCase.ofTree : Tree → Option MatchCase
  | .node .matchCase [pattern, .none, rhs] => do
    let pattern ← Pattern.ofTree toSignedBytesBe pattern
    let rhs ← Expr.ofTree rhs
    pure (.mk pattern none rhs)
  | .node .matchCase [pattern, .some guard, rhs] => do
    let pattern ← Pattern.ofTree toSignedBytesBe pattern
    let guard ← Expr.ofTree guard
    let rhs ← Expr.ofTree rhs
    pure (.mk pattern (some guard) rhs)
  | _ => none

def Expr.ofCaseTrees : List Tree → Option (List MatchCase)
  | [] => some []
  | t :: ts => do
    let c ← MatchCase.ofTree t
    let cs ← Expr.ofCaseTrees ts
    pure (c :: cs)

end

end

/-! ## Reading back -/

theorem asBytes_injective : Function.Injective asBytes := by
  intro a b h
  have hdata : a.toByteArray.data = b.toByteArray.data := Array.toList_inj.mp h
  exact String.toByteArray_inj.mp (ByteArray.ext hdata)

@[simp] theorem readString_stringTree (v : String) : readString (stringTree v) = some v :=
  Function.partialInv_left asBytes_injective v

/-- A sequence is read back if its elements are. -/
theorem readSeq_map {α : Type} {read : Tree → Option α} {toTree : α → Tree} {f : α → α} :
    ∀ {vs : List α}, (∀ v ∈ vs, read (toTree v) = some (f v)) →
    readSeq read (.seq (vs.map toTree)) = some (vs.map f)
  | [], _ => rfl
  | v :: vs, h => by
    have ih : (vs.map toTree).mapM read = some (vs.map f) :=
      readSeq_map fun w hw => h w (List.mem_cons_of_mem _ hw)
    rw [readSeq, List.map_cons, List.mapM_cons, h v List.mem_cons_self, ih]
    rfl

theorem readSeq_map_id {α : Type} {read : Tree → Option α} {toTree : α → Tree} {vs : List α}
    (h : ∀ v ∈ vs, read (toTree v) = some v) : readSeq read (.seq (vs.map toTree)) = some vs := by
  rw [readSeq_map (f := id) h, List.map_id]

@[simp] theorem SymbolIdentifier.ofTree_toTree (i : SymbolIdentifier) :
    ofTree i.toTree = some i.unnamed := by
  have hpath : readSeq readString (.seq (i.symbolPath.map stringTree)) = some i.symbolPath :=
    readSeq_map_id fun v _ => readString_stringTree v
  simp [toTree, ofTree, hpath, unnamed]

@[simp] theorem Identifier.ofTree_toTree (i : Identifier) : ofTree i.toTree = some i := by
  simp [toTree, ofTree]

@[simp] theorem readSeq_flagsTree (flags : List Flag) :
    readSeq Flag.ofTree (flagsTree flags) = some flags :=
  readSeq_map_id fun _ _ => rfl

mutual

@[simp] theorem Tpe.ofTree_toTree : ∀ t : Tpe, ofTree t.toTree = some t.unnamed
  | .untyped | .booleanType | .unitType | .integerType | .stringType | .bvType _ _ => rfl
  | .typeParameter id flags => by simp [toTree, ofTree, unnamed]
  | .tupleType bases => by simp [toTree, ofTree, unnamed, Tpe.ofTrees_toTrees bases]
  | .setType base => by simp [toTree, ofTree, unnamed, Tpe.ofTree_toTree base]
  | .functionType params result => by
    simp [toTree, ofTree, unnamed, Tpe.ofTrees_toTrees params, Tpe.ofTree_toTree result]
  | .adtType id tps => by simp [toTree, ofTree, unnamed, Tpe.ofTrees_toTrees tps]

@[simp] theorem Tpe.ofTrees_toTrees : ∀ ts : List Tpe,
    ofTrees (toTrees ts) = some (unnamedAll ts)
  | [] => rfl
  | t :: ts => by
    simp [toTrees, ofTrees, unnamedAll, Tpe.ofTree_toTree t, Tpe.ofTrees_toTrees ts]

end

@[simp] theorem TypeParameterDef.ofTree_toTree (tpd : TypeParameterDef) :
    ofTree tpd.toTree = some tpd.unnamed := by
  simp [toTree, ofTree, unnamed]

@[simp] theorem Variable.ofTree_toTree (v : Variable) : ofTree v.toTree = some v.unnamed := by
  simp [toTree, ofTree, unnamed]

@[simp] theorem ValDef.ofTree_toTree (vd : ValDef) : ofTree vd.toTree = some vd.unnamed := by
  simp [toTree, ofTree, unnamed]

theorem readSeq_valDefs (vds : List ValDef) :
    readSeq ValDef.ofTree (.seq (vds.map ValDef.toTree)) = some (vds.map ValDef.unnamed) :=
  readSeq_map fun vd _ => vd.ofTree_toTree

@[simp] theorem readBinder_binderTree (binder : Option ValDef) :
    readBinder (binderTree binder) = some (binder.map ValDef.unnamed) := by
  cases binder with
  | none => rfl
  | some vd => simp [binderTree, optionTree, readBinder]

section

variable {toSignedBytesBe : Int → List UInt8} (hinj : Function.Injective toSignedBytesBe)

include hinj

theorem Literal.ofTree_toTree (lit : Literal) :
    ofTree toSignedBytesBe (lit.toTree toSignedBytesBe) = some lit := by
  cases lit with
  | bv signed value size => simp [toTree, ofTree, Function.partialInv_left hinj value]
  | string value => simp [toTree, ofTree]
  | _ => rfl

omit hinj in
mutual

theorem Pattern.ofTree_toTree (hinj : Function.Injective toSignedBytesBe) :
    ∀ p : Pattern, ofTree toSignedBytesBe (p.toTree toSignedBytesBe) = some p.unnamed
  | .wildcard binder => by simp [toTree, ofTree, unnamed]
  | .literal binder lit => by simp [toTree, ofTree, unnamed, lit.ofTree_toTree hinj]
  | .tuple binder subPatterns => by
    simp [toTree, ofTree, unnamed, Pattern.ofTrees_toTrees hinj subPatterns]
  | .adt binder id tps subPatterns => by
    simp [toTree, ofTree, unnamed, Pattern.ofTrees_toTrees hinj subPatterns]

theorem Pattern.ofTrees_toTrees (hinj : Function.Injective toSignedBytesBe) :
    ∀ ps : List Pattern, ofTrees toSignedBytesBe (toTrees toSignedBytesBe ps) = some (unnamedAll ps)
  | [] => rfl
  | p :: ps => by
    simp [toTrees, ofTrees, unnamedAll, Pattern.ofTree_toTree hinj p,
      Pattern.ofTrees_toTrees hinj ps]

end

omit hinj in
mutual

/-- **An expression is read back from its shape**, up to the names of identifiers. -/
theorem Expr.ofTree_toTree (hinj : Function.Injective toSignedBytesBe) :
    ∀ e : Expr, Expr.ofTree toSignedBytesBe (e.toTree toSignedBytesBe) = some e.unnamed
  | .variable v => by
    have hv : Variable.ofTree v.toTree = some v.unnamed := v.ofTree_toTree
    rw [Variable.toTree] at hv
    simp [Expr.toTree, Variable.toTree, Expr.ofTree, Expr.unnamed, hv]
  | .literal lit => by
    have hlit := lit.ofTree_toTree hinj
    cases lit <;> simp only [Expr.toTree, Literal.toTree] at hlit ⊢ <;>
      simp [Expr.ofTree, Expr.unnamed, hlit]
  | .unary op arg => by simp [Expr.toTree, Expr.ofTree, Expr.unnamed, Expr.ofTree_toTree hinj arg]
  | .binary op lhs rhs => by
    simp [Expr.toTree, Expr.ofTree, Expr.unnamed, Expr.ofTree_toTree hinj lhs,
      Expr.ofTree_toTree hinj rhs]
  | .bvWideningCast expr newType => by
    simp [Expr.toTree, Expr.ofTree, Expr.unnamed, Expr.ofTree_toTree hinj expr]
  | .and exprs | .or exprs | .tuple exprs => by
    simp [Expr.toTree, Expr.ofTree, Expr.unnamed, Expr.ofTrees_toTrees hinj exprs]
  | .tupleSelect expr index => by
    simp [Expr.toTree, Expr.ofTree, Expr.unnamed, Expr.ofTree_toTree hinj expr]
  | .adtSelector expr selector => by
    simp [Expr.toTree, Expr.ofTree, Expr.unnamed, Expr.ofTree_toTree hinj expr]
  | .adt id tps args | .functionInvocation id tps args => by
    simp [Expr.toTree, Expr.ofTree, Expr.unnamed, Expr.ofTrees_toTrees hinj args]
  | .finiteSet elements base => by
    simp [Expr.toTree, Expr.ofTree, Expr.unnamed, Expr.ofTrees_toTrees hinj elements]
  | .letIn vd value body => by
    simp [Expr.toTree, Expr.ofTree, Expr.unnamed, Expr.ofTree_toTree hinj value,
      Expr.ofTree_toTree hinj body]
  | .block exprs last => by
    simp [Expr.toTree, Expr.ofTree, Expr.unnamed, Expr.ofTrees_toTrees hinj exprs,
      Expr.ofTree_toTree hinj last]
  | .ifExpr cond thenn elze => by
    simp [Expr.toTree, Expr.ofTree, Expr.unnamed, Expr.ofTree_toTree hinj cond,
      Expr.ofTree_toTree hinj thenn, Expr.ofTree_toTree hinj elze]
  | .matchExpr scrutinee cases => by
    simp [Expr.toTree, Expr.ofTree, Expr.unnamed, Expr.ofTree_toTree hinj scrutinee,
      Expr.ofCaseTrees_caseTrees hinj cases]
  | .error tpe description => by simp [Expr.toTree, Expr.ofTree, Expr.unnamed]
  | .noTree tpe => by simp [Expr.toTree, Expr.ofTree, Expr.unnamed]
  | .decreases measure body => by
    simp [Expr.toTree, Expr.ofTree, Expr.unnamed, Expr.ofTree_toTree hinj measure,
      Expr.ofTree_toTree hinj body]
  | .require pred body => by
    simp [Expr.toTree, Expr.ofTree, Expr.unnamed, Expr.ofTree_toTree hinj pred,
      Expr.ofTree_toTree hinj body]
  | .ensuring body params pred => by
    simp [Expr.toTree, Expr.ofTree, Expr.unnamed, Expr.ofTree_toTree hinj body,
      readSeq_valDefs params, Expr.ofTree_toTree hinj pred]

theorem Expr.ofTrees_toTrees (hinj : Function.Injective toSignedBytesBe) :
    ∀ es : List Expr,
    Expr.ofTrees toSignedBytesBe (Expr.toTrees toSignedBytesBe es) = some (Expr.unnamedAll es)
  | [] => rfl
  | e :: es => by
    simp [Expr.toTrees, Expr.ofTrees, Expr.unnamedAll, Expr.ofTree_toTree hinj e,
      Expr.ofTrees_toTrees hinj es]

theorem MatchCase.ofTree_toTree (hinj : Function.Injective toSignedBytesBe) :
    ∀ c : MatchCase, MatchCase.ofTree toSignedBytesBe (c.toTree toSignedBytesBe) = some c.unnamed
  | .mk pattern none rhs => by
    simp [MatchCase.toTree, Expr.optTree, MatchCase.ofTree, MatchCase.unnamed, Expr.unnamedOpt,
      pattern.ofTree_toTree hinj, Expr.ofTree_toTree hinj rhs]
  | .mk pattern (some guard) rhs => by
    simp [MatchCase.toTree, Expr.optTree, MatchCase.ofTree, MatchCase.unnamed, Expr.unnamedOpt,
      pattern.ofTree_toTree hinj, Expr.ofTree_toTree hinj guard, Expr.ofTree_toTree hinj rhs]

theorem Expr.ofCaseTrees_caseTrees (hinj : Function.Injective toSignedBytesBe) :
    ∀ cs : List MatchCase, Expr.ofCaseTrees toSignedBytesBe (Expr.caseTrees toSignedBytesBe cs)
      = some (Expr.unnamedCases cs)
  | [] => rfl
  | c :: cs => by
    simp [Expr.caseTrees, Expr.ofCaseTrees, Expr.unnamedCases, MatchCase.ofTree_toTree hinj c,
      Expr.ofCaseTrees_caseTrees hinj cs]

end

end

end St
