import RustStainless.Data.Serialize

/-!
# What is serialized is a tree

Each of the Stainless trees has a shape (`toTree`), and serializing it is writing that shape.
-/

namespace St

open Lib

/-! ## Shapes -/

def stringTree (v : String) : Tree := .string (asBytes v)

/-- `SymbolIdentifier` without its name, which is not written. -/
def SymbolIdentifier.toTree (i : SymbolIdentifier) : Tree :=
  .node .symbolIdentifier
    [.tuple [.int i.id.globalId, .int i.id.id, .seq (i.symbolPath.map stringTree),
      .int i.id.globalId]]

def Identifier.toTree (i : Identifier) : Tree :=
  .node .identifier [.tuple [stringTree i.name, .int i.globalId, .int i.id]]

def Flag.toTree (flag : Flag) : Tree := .node (.flag flag) []

def flagsTree (flags : List Flag) : Tree := .seq (flags.map Flag.toTree)

mutual

def Tpe.toTree : Tpe → Tree
  | .untyped => .node .untyped []
  | .booleanType => .node .booleanType []
  | .unitType => .node .unitType []
  | .integerType => .node .integerType []
  | .stringType => .node .stringType []
  | .bvType signed size => .node .bvType [.boolean signed, .int size]
  | .typeParameter id flags => .node .typeParameter [id.toTree, flagsTree flags]
  | .tupleType bases => .node .tupleType [.seq (Tpe.toTrees bases)]
  | .setType base => .node .setType [Tpe.toTree base]
  | .functionType params result =>
    .node .functionType [.seq (Tpe.toTrees params), Tpe.toTree result]
  | .adtType id tps => .node .adtType [id.toTree, .seq (Tpe.toTrees tps)]

def Tpe.toTrees : List Tpe → List Tree
  | [] => []
  | t :: ts => Tpe.toTree t :: Tpe.toTrees ts

end

def TypeParameterDef.toTree (tpd : TypeParameterDef) : Tree :=
  .node .typeParameterDef [.node .typeParameter [tpd.tp.id.toTree, flagsTree tpd.tp.flags]]

def Variable.toTree (v : Variable) : Tree :=
  .node .variable [v.id.toTree, v.tpe.toTree, flagsTree v.flags]

def ValDef.toTree (vd : ValDef) : Tree := .node .valDef [vd.v.toTree]

def optionTree : Option Tree → Tree
  | none => .none
  | some t => .some t

section

variable (toSignedBytesBe : Int → List UInt8)

def Literal.toTree : Literal → Tree
  | .unit => .node .unitLiteral []
  | .boolean value => .node .booleanLiteral [.boolean value]
  | .bv signed value size =>
    .node .bvLiteral [.tuple [.boolean signed, .bigInt (toSignedBytesBe value), .int size]]
  | .string value => .node .stringLiteral [stringTree value]

def binderTree (binder : Option ValDef) : Tree := optionTree (binder.map ValDef.toTree)

mutual

def Pattern.toTree : Pattern → Tree
  | .wildcard binder => .node .wildcardPattern [binderTree binder]
  | .literal binder lit => .node .literalPattern [binderTree binder, lit.toTree toSignedBytesBe]
  | .tuple binder subPatterns =>
    .node .tuplePattern [binderTree binder, .seq (Pattern.toTrees subPatterns)]
  | .adt binder id tps subPatterns =>
    .node .adtPattern
      [binderTree binder, id.toTree, .seq (Tpe.toTrees tps), .seq (Pattern.toTrees subPatterns)]

def Pattern.toTrees : List Pattern → List Tree
  | [] => []
  | p :: ps => Pattern.toTree p :: Pattern.toTrees ps

end

mutual

def Expr.toTree : Expr → Tree
  | .variable v => v.toTree
  | .literal lit => lit.toTree toSignedBytesBe
  | .unary op arg => .node (.unary op) [Expr.toTree arg]
  | .binary op lhs rhs => .node (.binary op) [Expr.toTree lhs, Expr.toTree rhs]
  | .bvWideningCast expr newType => .node .bvWideningCast [Expr.toTree expr, newType.toTree]
  | .and exprs => .node .and [.seq (Expr.toTrees exprs)]
  | .or exprs => .node .or [.seq (Expr.toTrees exprs)]
  | .tuple exprs => .node .tuple [.seq (Expr.toTrees exprs)]
  | .tupleSelect tuple index => .node .tupleSelect [Expr.toTree tuple, .int index]
  | .adtSelector adt selector => .node .adtSelector [Expr.toTree adt, selector.toTree]
  | .adt id tps args => .node .adt [id.toTree, .seq (Tpe.toTrees tps), .seq (Expr.toTrees args)]
  | .functionInvocation id tps args =>
    .node .functionInvocation [id.toTree, .seq (Tpe.toTrees tps), .seq (Expr.toTrees args)]
  | .finiteSet elements base => .node .finiteSet [.seq (Expr.toTrees elements), base.toTree]
  | .letIn vd value body => .node .letIn [vd.toTree, Expr.toTree value, Expr.toTree body]
  | .block exprs last => .node .block [.seq (Expr.toTrees exprs), Expr.toTree last]
  | .ifExpr cond thenn elze =>
    .node .ifExpr [Expr.toTree cond, Expr.toTree thenn, Expr.toTree elze]
  | .matchExpr scrutinee cases =>
    .node .matchExpr [Expr.toTree scrutinee, .seq (Expr.caseTrees cases)]
  | .error tpe description => .node .error [tpe.toTree, stringTree description]
  | .noTree tpe => .node .noTree [tpe.toTree]
  | .decreases measure body => .node .decreases [Expr.toTree measure, Expr.toTree body]
  | .require pred body => .node .require [Expr.toTree pred, Expr.toTree body]
  | .ensuring body params pred =>
    .node .ensuring
      [Expr.toTree body, .node .lambda [.seq (params.map ValDef.toTree), Expr.toTree pred]]

def Expr.toTrees : List Expr → List Tree
  | [] => []
  | e :: es => Expr.toTree e :: Expr.toTrees es

def MatchCase.toTree : MatchCase → Tree
  | .mk pattern optGuard rhs =>
    .node .matchCase
      [pattern.toTree toSignedBytesBe, Expr.optTree optGuard, Expr.toTree rhs]

def Expr.caseTrees : List MatchCase → List Tree
  | [] => []
  | c :: cs => MatchCase.toTree c :: Expr.caseTrees cs

def Expr.optTree : Option Expr → Tree
  | none => .none
  | some e => .some (Expr.toTree e)

end

end

def ADTConstructor.toTree (c : ADTConstructor) : Tree :=
  .node .adtConstructor [c.id.toTree, c.sort.toTree, .seq (c.fields.map ValDef.toTree)]

def ADTSort.toTree (sort : ADTSort) : Tree :=
  .node .adtSort
    [sort.id.toTree, .seq (sort.tparams.map TypeParameterDef.toTree),
      .seq (sort.constructors.map ADTConstructor.toTree), flagsTree sort.flags]

def FunDef.toTree (toSignedBytesBe : Int → List UInt8) (fd : FunDef) : Tree :=
  .node .funDef
    [fd.id.toTree, .seq (fd.tparams.map TypeParameterDef.toTree),
      .seq (fd.params.map ValDef.toTree), fd.returnType.toTree,
      fd.fullBody.toTree toSignedBytesBe, flagsTree fd.flags]

/-! ## Serializing writes the shape -/

theorem serializeAll_eq {α : Type} {serialize : α → Ser} {toTree : α → Tree} : ∀ {vs : List α},
    (∀ v ∈ vs, serialize v = (toTree v).write) →
    serializeAll serialize vs = Tree.writeAll (vs.map toTree)
  | [], _ => rfl
  | v :: vs, h => by
    rw [serializeAll, h v List.mem_cons_self, serializeAll_eq fun w hw =>
      h w (List.mem_cons_of_mem _ hw)]
    rfl

/-- A sequence of values that are written as their shapes. -/
theorem serializeSeq_eq {α : Type} {serialize : α → Ser} {toTree : α → Tree} (vs : List α)
    (h : ∀ v ∈ vs, serialize v = (toTree v).write) :
    serializeSeq vs.length (serializeAll serialize vs) = (Tree.seq (vs.map toTree)).write := by
  rw [serializeAll_eq h, Tree.write, List.length_map]

section

-- A node is written as its marker and its fields; the shapes of the fields are known before.
attribute [local simp] Tree.write Tree.writeAll NodeKind.marker

theorem Identifier.serialize_eq (i : Identifier) : i.serialize = i.toTree.write := by
  simp [serialize, toTree, stringTree, serializeString]

theorem SymbolIdentifier.serialize_eq (i : SymbolIdentifier) : i.serialize = i.toTree.write := by
  have hpath : serializeSeq i.symbolPath.length (serializeAll serializeString i.symbolPath)
      = (Tree.seq (i.symbolPath.map stringTree)).write := serializeSeq_eq _ fun _ _ => rfl
  simp [serialize, toTree, hpath]

theorem Flag.serialize_eq (flag : Flag) : flag.serialize = flag.toTree.write := by
  simp [serialize, toTree]

theorem serializeFlags_eq (flags : List Flag) : serializeFlags flags = (flagsTree flags).write :=
  serializeSeq_eq flags fun flag _ => flag.serialize_eq

mutual

theorem Tpe.serialize_eq : ∀ t : Tpe, t.serialize = t.toTree.write
  | .untyped | .booleanType | .unitType | .integerType | .stringType => by
    simp [serialize, toTree]
  | .bvType signed size => by simp [serialize, toTree]
  | .typeParameter id flags => by
    simp [serialize, toTree, id.serialize_eq, serializeFlags_eq]
  | .tupleType bases => by
    simp [serialize, toTree, Tpe.serializeAll_eq bases, Tpe.length_toTrees]
  | .setType base => by simp [serialize, toTree, Tpe.serialize_eq base]
  | .functionType params result => by
    simp [serialize, toTree, Tpe.serializeAll_eq params, Tpe.length_toTrees,
      Tpe.serialize_eq result]
  | .adtType id tps => by
    simp [serialize, toTree, id.serialize_eq, Tpe.serializeAll_eq tps, Tpe.length_toTrees]

theorem Tpe.serializeAll_eq : ∀ ts : List Tpe, Tpe.serializeAll ts = Tree.writeAll (Tpe.toTrees ts)
  | [] => rfl
  | t :: ts => by
    simp [serializeAll, toTrees, Tpe.serialize_eq t, Tpe.serializeAll_eq ts]

theorem Tpe.length_toTrees : ∀ ts : List Tpe, (Tpe.toTrees ts).length = ts.length
  | [] => rfl
  | t :: ts => by rw [toTrees, List.length_cons, List.length_cons, Tpe.length_toTrees ts]

end

theorem serializeTps_eq (tps : List Tpe) :
    serializeTps tps = (Tree.seq (Tpe.toTrees tps)).write := by
  simp [serializeTps, Tpe.serializeAll_eq, Tpe.length_toTrees]

theorem TypeParameterDef.serialize_eq (tpd : TypeParameterDef) :
    tpd.serialize = tpd.toTree.write := by
  simp [serialize, toTree, TypeParameter.serialize, tpd.tp.id.serialize_eq, serializeFlags_eq]

theorem Variable.serialize_eq (v : Variable) : v.serialize = v.toTree.write := by
  simp [serialize, toTree, v.id.serialize_eq, v.tpe.serialize_eq, serializeFlags_eq]

theorem ValDef.serialize_eq (vd : ValDef) : vd.serialize = vd.toTree.write := by
  simp [serialize, toTree, vd.v.serialize_eq]

theorem serializeValDefs_eq (vds : List ValDef) :
    serializeValDefs vds = (Tree.seq (vds.map ValDef.toTree)).write :=
  serializeSeq_eq vds fun vd _ => vd.serialize_eq

theorem serializeTparams_eq (tparams : List TypeParameterDef) :
    serializeTparams tparams = (Tree.seq (tparams.map TypeParameterDef.toTree)).write :=
  serializeSeq_eq tparams fun tpd _ => tpd.serialize_eq

theorem serializeBinder_eq (binder : Option ValDef) :
    serializeBinder binder = (binderTree binder).write := by
  cases binder with
  | none => rfl
  | some vd => simp [serializeBinder, binderTree, optionTree, vd.serialize_eq]

variable (toSignedBytesBe : Int → List UInt8)

theorem Literal.serialize_eq (lit : Literal) :
    lit.serialize toSignedBytesBe = (lit.toTree toSignedBytesBe).write := by
  cases lit <;> simp [serialize, toTree, stringTree, serializeString]

mutual

theorem Pattern.serialize_eq : ∀ p : Pattern,
    p.serialize toSignedBytesBe = (p.toTree toSignedBytesBe).write
  | .wildcard binder => by simp [serialize, toTree, serializeBinder_eq]
  | .literal binder lit => by simp [serialize, toTree, serializeBinder_eq, lit.serialize_eq]
  | .tuple binder subPatterns => by
    simp [serialize, toTree, serializeBinder_eq, Pattern.serializeAll_eq subPatterns,
      Pattern.length_toTrees]
  | .adt binder id tps subPatterns => by
    simp [serialize, toTree, serializeBinder_eq, id.serialize_eq, serializeTps_eq,
      Pattern.serializeAll_eq subPatterns, Pattern.length_toTrees]

theorem Pattern.serializeAll_eq : ∀ ps : List Pattern,
    Pattern.serializeAll toSignedBytesBe ps = Tree.writeAll (Pattern.toTrees toSignedBytesBe ps)
  | [] => rfl
  | p :: ps => by simp [serializeAll, toTrees, Pattern.serialize_eq p, Pattern.serializeAll_eq ps]

theorem Pattern.length_toTrees : ∀ ps : List Pattern,
    (Pattern.toTrees toSignedBytesBe ps).length = ps.length
  | [] => rfl
  | p :: ps => by rw [toTrees, List.length_cons, List.length_cons, Pattern.length_toTrees ps]

end

theorem Expr.length_toTrees : ∀ es : List Expr,
    (Expr.toTrees toSignedBytesBe es).length = es.length
  | [] => rfl
  | e :: es => by rw [toTrees, List.length_cons, List.length_cons, Expr.length_toTrees es]

theorem Expr.length_caseTrees : ∀ cs : List MatchCase,
    (Expr.caseTrees toSignedBytesBe cs).length = cs.length
  | [] => rfl
  | c :: cs => by rw [caseTrees, List.length_cons, List.length_cons, Expr.length_caseTrees cs]

mutual

/-- **Serializing an expression writes its shape.** -/
theorem Expr.serialize_eq : ∀ e : Expr,
    e.serialize toSignedBytesBe = (e.toTree toSignedBytesBe).write
  | .variable v => by rw [Expr.serialize, Expr.toTree, v.serialize_eq]
  | .literal lit => by rw [Expr.serialize, Expr.toTree, lit.serialize_eq]
  | .unary op arg => by simp [Expr.serialize, Expr.toTree, Expr.serialize_eq arg]
  | .binary op lhs rhs => by
    simp [Expr.serialize, Expr.toTree, Expr.serialize_eq lhs, Expr.serialize_eq rhs]
  | .bvWideningCast expr newType => by
    simp [Expr.serialize, Expr.toTree, Expr.serialize_eq expr, newType.serialize_eq]
  | .and exprs | .or exprs | .tuple exprs => by
    simp [Expr.serialize, Expr.toTree, Expr.serializeAll_eq exprs, Expr.length_toTrees]
  | .tupleSelect tuple index => by simp [Expr.serialize, Expr.toTree, Expr.serialize_eq tuple]
  | .adtSelector adt selector => by
    simp [Expr.serialize, Expr.toTree, Expr.serialize_eq adt, selector.serialize_eq]
  | .adt id tps args | .functionInvocation id tps args => by
    simp [Expr.serialize, Expr.toTree, id.serialize_eq, serializeTps_eq, Expr.serializeAll_eq args,
      Expr.length_toTrees]
  | .finiteSet elements base => by
    simp [Expr.serialize, Expr.toTree, Expr.serializeAll_eq elements, Expr.length_toTrees,
      base.serialize_eq]
  | .letIn vd value body => by
    simp [Expr.serialize, Expr.toTree, vd.serialize_eq, Expr.serialize_eq value,
      Expr.serialize_eq body]
  | .block exprs last => by
    simp [Expr.serialize, Expr.toTree, Expr.serializeAll_eq exprs, Expr.length_toTrees,
      Expr.serialize_eq last]
  | .ifExpr cond thenn elze => by
    simp [Expr.serialize, Expr.toTree, Expr.serialize_eq cond, Expr.serialize_eq thenn,
      Expr.serialize_eq elze]
  | .matchExpr scrutinee cases => by
    simp [Expr.serialize, Expr.toTree, Expr.serialize_eq scrutinee, Expr.serializeCases_eq cases,
      Expr.length_caseTrees]
  | .error tpe description => by
    simp [Expr.serialize, Expr.toTree, tpe.serialize_eq, stringTree, serializeString]
  | .noTree tpe => by simp [Expr.serialize, Expr.toTree, tpe.serialize_eq]
  | .decreases measure body => by
    simp [Expr.serialize, Expr.toTree, Expr.serialize_eq measure, Expr.serialize_eq body]
  | .require pred body => by
    simp [Expr.serialize, Expr.toTree, Expr.serialize_eq pred, Expr.serialize_eq body]
  | .ensuring body params pred => by
    simp [Expr.serialize, Expr.toTree, Expr.serialize_eq body, serializeValDefs_eq,
      Expr.serialize_eq pred]

theorem Expr.serializeAll_eq : ∀ es : List Expr,
    Expr.serializeAll toSignedBytesBe es = Tree.writeAll (Expr.toTrees toSignedBytesBe es)
  | [] => rfl
  | e :: es => by
    simp [Expr.serializeAll, Expr.toTrees, Expr.serialize_eq e, Expr.serializeAll_eq es]

theorem MatchCase.serialize_eq : ∀ c : MatchCase,
    c.serialize toSignedBytesBe = (c.toTree toSignedBytesBe).write
  | .mk pattern optGuard rhs => by
    simp [MatchCase.serialize, MatchCase.toTree, pattern.serialize_eq,
      Expr.serializeOpt_eq optGuard,
      Expr.serialize_eq rhs]

theorem Expr.serializeCases_eq : ∀ cs : List MatchCase,
    Expr.serializeCases toSignedBytesBe cs = Tree.writeAll (Expr.caseTrees toSignedBytesBe cs)
  | [] => rfl
  | c :: cs => by
    simp [Expr.serializeCases, Expr.caseTrees, MatchCase.serialize_eq c, Expr.serializeCases_eq cs]

theorem Expr.serializeOpt_eq : ∀ e : Option Expr,
    Expr.serializeOpt toSignedBytesBe e = (Expr.optTree toSignedBytesBe e).write
  | none => rfl
  | some e => by simp [Expr.serializeOpt, Expr.optTree, Expr.serialize_eq e]

end

theorem ADTConstructor.serialize_eq (c : ADTConstructor) : c.serialize = c.toTree.write := by
  simp [serialize, toTree, c.id.serialize_eq, c.sort.serialize_eq, serializeValDefs_eq]

theorem ADTSort.serialize_eq (sort : ADTSort) : sort.serialize = sort.toTree.write := by
  have hcons : serializeSeq sort.constructors.length
      (St.serializeAll ADTConstructor.serialize sort.constructors)
      = (Tree.seq (sort.constructors.map ADTConstructor.toTree)).write :=
    serializeSeq_eq _ fun c _ => c.serialize_eq
  simp [serialize, toTree, sort.id.serialize_eq, serializeTparams_eq, hcons, serializeFlags_eq]

theorem FunDef.serialize_eq (fd : FunDef) :
    fd.serialize toSignedBytesBe = (fd.toTree toSignedBytesBe).write := by
  simp [serialize, toTree, fd.id.serialize_eq, serializeTparams_eq, serializeValDefs_eq,
    fd.returnType.serialize_eq, fd.fullBody.serialize_eq, serializeFlags_eq]

/-- What the inner serializer is given. -/
def Symbols.innerTree (x : Symbols) : Tree :=
  .tuple
    [.seq (x.sortedFunctions.map (FunDef.toTree toSignedBytesBe)),
      .seq (x.sortedSorts.map ADTSort.toTree)]

theorem Symbols.serializeInner_eq (x : Symbols) :
    x.serializeInner toSignedBytesBe = (x.innerTree toSignedBytesBe).write := by
  have hfuns : serializeSeq x.sortedFunctions.length
      (St.serializeAll (FunDef.serialize toSignedBytesBe) x.sortedFunctions)
      = (Tree.seq (x.sortedFunctions.map (FunDef.toTree toSignedBytesBe))).write :=
    serializeSeq_eq _ fun fd _ => fd.serialize_eq toSignedBytesBe
  have hsorts : serializeSeq x.sortedSorts.length
      (St.serializeAll ADTSort.serialize x.sortedSorts)
      = (Tree.seq (x.sortedSorts.map ADTSort.toTree)).write :=
    serializeSeq_eq _ fun sort _ => sort.serialize_eq
  simp [serializeInner, innerTree, hfuns, hsorts]

end

end St
