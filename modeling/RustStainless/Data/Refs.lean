import RustStainless.Data.Symbols

/-!
# References

What a tree refers to, by the keys of the tables: the functions that are invoked, the sorts in
types, and the constructors and fields of the sorts. A program is closed if it defines whatever it
refers to.
-/

namespace St

open Lib

inductive Ref where
  | function (key : Int)
  | sort (key : Int)
  | constructor (key : Int)
  | selector (key : Int)
deriving DecidableEq

/-! ## Types -/

mutual

def Tpe.refs : Tpe → List Ref
  | .booleanType | .integerType | .unitType | .stringType | .bvType _ _ | .typeParameter _ _
  | .untyped => []
  | .tupleType bases => Tpe.listRefs bases
  | .setType base => base.refs
  | .adtType id tps => .sort id.globalId :: Tpe.listRefs tps
  | .functionType params result => Tpe.listRefs params ++ result.refs

def Tpe.listRefs : List Tpe → List Ref
  | [] => []
  | t :: ts => t.refs ++ Tpe.listRefs ts

end

theorem Tpe.mem_listRefs {r : Ref} : ∀ {ts : List Tpe}, r ∈ Tpe.listRefs ts ↔ ∃ t ∈ ts, r ∈ t.refs
  | [] => by simp [Tpe.listRefs]
  | t :: ts => by
    have ih : r ∈ Tpe.listRefs ts ↔ ∃ t ∈ ts, r ∈ t.refs := Tpe.mem_listRefs
    simp [Tpe.listRefs, ih]

def ValDef.refs (vd : ValDef) : List Ref := vd.v.tpe.refs

/-! ## Patterns -/

def binderRefs : Option ValDef → List Ref
  | none => []
  | some vd => vd.refs

mutual

def Pattern.refs : Pattern → List Ref
  | .wildcard binder | .literal binder _ => binderRefs binder
  | .tuple binder subPatterns => binderRefs binder ++ Pattern.listRefs subPatterns
  | .adt binder id tps subPatterns =>
    binderRefs binder ++ (.constructor id.globalId :: Tpe.listRefs tps) ++
      Pattern.listRefs subPatterns

def Pattern.listRefs : List Pattern → List Ref
  | [] => []
  | p :: ps => p.refs ++ Pattern.listRefs ps

end

theorem Pattern.mem_listRefs {r : Ref} :
    ∀ {ps : List Pattern}, r ∈ Pattern.listRefs ps ↔ ∃ p ∈ ps, r ∈ p.refs
  | [] => by simp [Pattern.listRefs]
  | p :: ps => by
    have ih : r ∈ Pattern.listRefs ps ↔ ∃ p ∈ ps, r ∈ p.refs := Pattern.mem_listRefs
    simp [Pattern.listRefs, ih]

/-! ## Expressions -/

mutual

def Expr.refs : Expr → List Ref
  | .variable v => v.tpe.refs
  | .literal _ => []
  | .unary _ arg | .tupleSelect arg _ => arg.refs
  | .binary _ lhs rhs => lhs.refs ++ rhs.refs
  | .bvWideningCast expr newType => expr.refs ++ newType.refs
  | .and exprs | .or exprs | .tuple exprs => Expr.listRefs exprs
  | .adtSelector expr selector => .selector selector.globalId :: expr.refs
  | .adt id tps args => (.constructor id.globalId :: Tpe.listRefs tps) ++ Expr.listRefs args
  | .functionInvocation id tps args =>
    (.function id.globalId :: Tpe.listRefs tps) ++ Expr.listRefs args
  | .finiteSet elements base => base.refs ++ Expr.listRefs elements
  | .letIn vd value body => vd.refs ++ value.refs ++ body.refs
  | .block exprs last => Expr.listRefs exprs ++ last.refs
  | .ifExpr cond thenn elze => cond.refs ++ thenn.refs ++ elze.refs
  | .matchExpr scrutinee cases => scrutinee.refs ++ MatchCase.listRefs cases
  | .error tpe _ | .noTree tpe => tpe.refs
  | .decreases measure body => measure.refs ++ body.refs
  | .require pred body => pred.refs ++ body.refs
  | .ensuring body params pred => body.refs ++ params.flatMap ValDef.refs ++ pred.refs

def Expr.listRefs : List Expr → List Ref
  | [] => []
  | e :: es => e.refs ++ Expr.listRefs es

def Expr.optRefs : Option Expr → List Ref
  | none => []
  | some e => e.refs

def MatchCase.refs : MatchCase → List Ref
  | .mk pattern optGuard rhs => pattern.refs ++ Expr.optRefs optGuard ++ rhs.refs

def MatchCase.listRefs : List MatchCase → List Ref
  | [] => []
  | c :: cs => c.refs ++ MatchCase.listRefs cs

end

theorem Expr.listRefs_append : ∀ es es' : List Expr,
    Expr.listRefs (es ++ es') = Expr.listRefs es ++ Expr.listRefs es'
  | [], _ => rfl
  | e :: es, es' => by
    rw [List.cons_append, Expr.listRefs, Expr.listRefs, Expr.listRefs_append es es',
      List.append_assoc]

theorem Expr.mem_listRefs {r : Ref} :
    ∀ {es : List Expr}, r ∈ Expr.listRefs es ↔ ∃ e ∈ es, r ∈ e.refs
  | [] => by simp [Expr.listRefs]
  | e :: es => by
    have ih : r ∈ Expr.listRefs es ↔ ∃ e ∈ es, r ∈ e.refs := Expr.mem_listRefs
    simp [Expr.listRefs, ih]

theorem MatchCase.mem_listRefs {r : Ref} :
    ∀ {cs : List MatchCase}, r ∈ MatchCase.listRefs cs ↔ ∃ c ∈ cs, r ∈ c.refs
  | [] => by simp [MatchCase.listRefs]
  | c :: cs => by
    have ih : r ∈ MatchCase.listRefs cs ↔ ∃ c ∈ cs, r ∈ c.refs := MatchCase.mem_listRefs
    simp [MatchCase.listRefs, ih]

theorem makeAnd_refs : ∀ es : List Expr, (makeAnd es).refs = Expr.listRefs es
  | [] => rfl
  | [_] => (List.append_nil _).symm
  | _ :: _ :: _ => rfl

/-! ## Definitions -/

def ADTSort.refs (sort : ADTSort) : List Ref :=
  sort.constructors.flatMap fun c => c.fields.flatMap ValDef.refs

def FunDef.refs (fd : FunDef) : List Ref :=
  fd.params.flatMap ValDef.refs ++ fd.returnType.refs ++ fd.fullBody.refs

/-- Everything that the definitions of a program refer to. -/
def Symbols.refs (p : Symbols) : List Ref :=
  p.sorts.values.flatMap ADTSort.refs ++ p.functions.values.flatMap FunDef.refs

/-! ## Closed programs -/

/-- The program has what the reference is to. -/
def Ref.Defined (p : Symbols) : Ref → Prop
  | .function key => ∃ fd ∈ p.functions.values, fd.id.globalId = key
  | .sort key => ∃ sort ∈ p.sorts.values, sort.id.globalId = key
  | .constructor key =>
    ∃ sort ∈ p.sorts.values, ∃ c ∈ sort.constructors, c.id.globalId = key
  | .selector key =>
    ∃ sort ∈ p.sorts.values, ∃ c ∈ sort.constructors, ∃ f ∈ c.fields, f.v.id.globalId = key

instance (p : Symbols) (r : Ref) : Decidable (r.Defined p) := by
  cases r <;> exact inferInstanceAs (Decidable (∃ _ ∈ _, _))

/--
Every function that is invoked, every sort in a type, and every constructor and field that is used
is one of the program.
-/
def Symbols.Closed (p : Symbols) : Prop := ∀ r ∈ p.refs, r.Defined p

instance (p : Symbols) : Decidable p.Closed := inferInstanceAs (Decidable (∀ _ ∈ _, _))

end St
