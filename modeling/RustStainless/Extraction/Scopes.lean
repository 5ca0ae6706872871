import RustStainless.Data.Scope
import RustStainless.Extraction.Subpatterns

/-!
# The free variables of a translation

A body refers to variables that it binds itself, in a `let` or in the pattern of an arm, and to
others. The free variables of its translation are those that were registered for the others, as long
as every binding has a variable of its own.
-/

namespace Stainless

open Rustc St Lib

/-! ## References -/

/-- Are the guards of a match looked at? In what is taken for an `if`, they are not. -/
def guardsMet (scrutinee : Hair.Expr) (arms : List Hair.Arm) : Bool :=
  match looksLikeIf scrutinee arms with
  | .ok none => true
  | _ => false

mutual

/-- The bindings that an expression refers to without binding them itself, as far as the extraction
meets the references. -/
def exprRefs : Hair.Expr → List HirId
  | .literal _ _ | .other _ _ => []
  | .varRef _ id => [id]
  | .unary _ _ arg | .field _ arg _ | .scope _ arg | .use _ arg | .neverToAny _ arg
  | .deref _ arg | .borrow _ _ arg => exprRefs arg
  | .binary _ _ lhs rhs | .logicalOp _ _ lhs rhs => exprRefs lhs ++ exprRefs rhs
  | .tuple _ fields => listRefs fields
  | .call _ _ args => listRefs args
  | .adt _ _ _ _ fields _ => fieldRefs fields
  | .block _ _ stmts expr => stmtRefs stmts (optRefs expr)
  | .matchE _ scrutinee arms => exprRefs scrutinee ++ armRefs (guardsMet scrutinee arms) arms

def listRefs : List Hair.Expr → List HirId
  | [] => []
  | e :: es => exprRefs e ++ listRefs es

def fieldRefs : List (Nat × Hair.Expr) → List HirId
  | [] => []
  | (_, e) :: es => exprRefs e ++ fieldRefs es

def optRefs : Option Hair.Expr → List HirId
  | none => []
  | some e => exprRefs e

/-- A `let` binds its variables in the statements behind it and in the final expression, whose
references are `tail`. -/
def stmtRefs : List Hair.Stmt → List HirId → List HirId
  | [], tail => tail
  | .expr e :: rest, tail => exprRefs e ++ stmtRefs rest tail
  | .letS pattern initializer :: rest, tail =>
    optRefs initializer ++ (stmtRefs rest tail).filter (· ∉ pattern.vars)

def armRefs (guards : Bool) : List Hair.Arm → List HirId
  | [] => []
  | .mk pattern guard body :: rest =>
    ((if guards then optRefs guard else []) ++ exprRefs body).filter (· ∉ pattern.vars) ++
      armRefs guards rest

end

/-! ## What rustc guarantees for a body -/

section Guarantees

variable (tcx : Tcx)

/-- How many fields a variant has. -/
def variantLength (did : DefId) (variantIndex : Nat) : Option Nat := do
  let a ← tcx.adtDef did
  let v ← a.variants[variantIndex]?
  pure v.fields.length

/-- How many fields a value of a type with one variant has. -/
def leafLength : Ty → Option Nat
  | .adt did _ => variantLength tcx did 0
  | .tuple tys => some tys.length
  | _ => none

/-- The indices are those of different fields. -/
def FieldsFit {α : Type} (numFields : Option Nat) (fields : List (Nat × α)) : Prop :=
  ∀ n ∈ numFields, (fields.map Prod.fst).Nodup ∧ ∀ f ∈ fields, f.1 < n

mutual

/-- Every pattern lists different fields of its variant or tuple. -/
def PatOk : Hair.Pat → Prop
  | .wild _ | .constant _ _ | .other _ => True
  | .binding _ _ _ _ subpattern => PatOk.opt subpattern
  | .variant _ did _ variantIndex subpatterns =>
    FieldsFit (variantLength tcx did variantIndex) subpatterns ∧ PatOk.fields subpatterns
  | .leaf ty subpatterns => FieldsFit (leafLength tcx ty) subpatterns ∧ PatOk.fields subpatterns
  | .deref _ subpattern | .ascribeUserType _ subpattern => PatOk subpattern

def PatOk.opt : Option Hair.Pat → Prop
  | none => True
  | some p => PatOk p

def PatOk.fields : List (Nat × Hair.Pat) → Prop
  | [] => True
  | (_, p) :: rest => PatOk p ∧ PatOk.fields rest

end

/-- The operations on two sets and `Box::new` take as many arguments as they are declared with. -/
def CallOk (funTy : Ty) (numArgs : Nat) : Prop :=
  ∀ did substs, funTy = .fnDef did substs →
    (∀ item, tcx.stdItems.defToItemOpt did = some item → setOperator item ≠ none → numArgs = 2) ∧
    ((symbolNameAndPath (symbolPathFromDefId tcx did)).2 = boxNewPath → numArgs = 1)

mutual

/-- The patterns and the calls in an expression are in order. -/
def ExprOk : Hair.Expr → Prop
  | .literal _ _ | .varRef _ _ | .other _ _ => True
  | .unary _ _ arg | .field _ arg _ | .scope _ arg | .use _ arg | .neverToAny _ arg
  | .deref _ arg | .borrow _ _ arg => ExprOk arg
  | .binary _ _ lhs rhs | .logicalOp _ _ lhs rhs => ExprOk lhs ∧ ExprOk rhs
  | .tuple _ fields => ExprOk.list fields
  | .call _ funTy args => CallOk tcx funTy args.length ∧ ExprOk.list args
  | .adt _ _ _ _ fields _ => ExprOk.fields fields
  | .block _ _ stmts expr => ExprOk.stmts stmts ∧ ExprOk.opt expr
  | .matchE _ scrutinee arms => ExprOk scrutinee ∧ ExprOk.arms arms

def ExprOk.list : List Hair.Expr → Prop
  | [] => True
  | e :: es => ExprOk e ∧ ExprOk.list es

def ExprOk.fields : List (Nat × Hair.Expr) → Prop
  | [] => True
  | (_, e) :: es => ExprOk e ∧ ExprOk.fields es

def ExprOk.opt : Option Hair.Expr → Prop
  | none => True
  | some e => ExprOk e

def ExprOk.stmts : List Hair.Stmt → Prop
  | [] => True
  | .expr e :: rest => ExprOk e ∧ ExprOk.stmts rest
  | .letS pattern initializer :: rest =>
    PatOk tcx pattern ∧ ExprOk.opt initializer ∧ ExprOk.stmts rest

def ExprOk.arms : List Hair.Arm → Prop
  | [] => True
  | .mk pattern guard body :: rest =>
    PatOk tcx pattern ∧ ExprOk.opt guard ∧ ExprOk body ∧ ExprOk.arms rest

end

end Guarantees

variable {tcx : Tcx} {ids : Ids} {ctx : BodyCtxt}

theorem PatOk.of_fields : ∀ {fields : List (Nat × Hair.Pat)}, PatOk.fields tcx fields →
    ∀ f ∈ fields, PatOk tcx f.2
  | (_, p) :: rest, h, f, hf => by
    rcases List.mem_cons.mp hf with rfl | hf
    · exact h.1
    · exact PatOk.of_fields h.2 f hf

theorem ExprOk.of_list : ∀ {es : List Hair.Expr}, ExprOk.list tcx es → ∀ e ∈ es, ExprOk tcx e
  | e' :: es, h, e, he => by
    rcases List.mem_cons.mp he with rfl | he
    · exact h.1
    · exact ExprOk.of_list h.2 e he

theorem ExprOk.of_fields : ∀ {fields : List (Nat × Hair.Expr)}, ExprOk.fields tcx fields →
    ∀ f ∈ fields, ExprOk tcx f.2
  | (_, e) :: rest, h, f, hf => by
    rcases List.mem_cons.mp hf with rfl | hf
    · exact h.1
    · exact ExprOk.of_fields h.2 f hf

theorem ExprOk.of_stmts : ∀ {stmts : List Hair.Stmt}, ExprOk.stmts tcx stmts →
    ∀ e ∈ stmtExprs stmts, ExprOk tcx e
  | .expr e' :: rest, h, e, he => by
    rcases List.mem_cons.mp he with rfl | he
    · exact h.1
    · exact ExprOk.of_stmts h.2 e he
  | .letS _ none :: rest, h, e, he => ExprOk.of_stmts h.2.2 e he
  | .letS _ (some init) :: rest, h, e, he => by
    rcases List.mem_cons.mp he with rfl | he
    · exact h.2.1
    · exact ExprOk.of_stmts h.2.2 e he

/-! ## Registered variables -/

/-- One of the bindings has the variable. -/
def VarOf (ctx : BodyCtxt) (hs : List HirId) (v : Variable) : Prop :=
  ∃ h ∈ hs, ctx.vars.get? h = some v

@[simp] theorem varOf_nil {v : Variable} : VarOf ctx [] v ↔ False := by
  simp [VarOf]

@[simp] theorem varOf_singleton {h : HirId} {v : Variable} :
    VarOf ctx [h] v ↔ ctx.vars.get? h = some v := by
  simp [VarOf]

@[simp] theorem varOf_append {hs hs' : List HirId} {v : Variable} :
    VarOf ctx (hs ++ hs') v ↔ VarOf ctx hs v ∨ VarOf ctx hs' v := by
  simp [VarOf, or_and_right, exists_or]

/-- No two bindings share a variable. -/
def OwnVars (ctx : BodyCtxt) : Prop :=
  ∀ h h' v, ctx.vars.get? h = some v → ctx.vars.get? h' = some v → h = h'

/-- Leaving out some bindings leaves out their variables. -/
theorem varOf_filter_notMem (hown : OwnVars ctx) {hs bound : List HirId} {v : Variable} :
    VarOf ctx (hs.filter (· ∉ bound)) v ↔ VarOf ctx hs v ∧ ¬ VarOf ctx bound v := by
  constructor
  · rintro ⟨h, hh, hv⟩
    obtain ⟨hh, hnot⟩ := List.mem_filter.mp hh
    refine ⟨⟨h, hh, hv⟩, ?_⟩
    rintro ⟨h', hh', hv'⟩
    obtain rfl := hown h h' v hv hv'
    exact of_decide_eq_true hnot hh'
  · rintro ⟨⟨h, hh, hv⟩, hnot⟩
    exact ⟨h, List.mem_filter.mpr ⟨hh, decide_eq_true fun hb => hnot ⟨h, hb, hv⟩⟩, hv⟩

theorem mem_fieldVars {h : HirId} {fields : List (Nat × Hair.Pat)} :
    h ∈ Hair.Pat.fieldVars fields ↔ ∃ f ∈ fields, h ∈ f.2.vars := by
  induction fields with
  | nil => simp [Hair.Pat.fieldVars]
  | cons f rest ih =>
    show h ∈ f.2.vars ++ Hair.Pat.fieldVars rest ↔ _
    rw [List.mem_append, ih]
    simp

theorem varOf_fieldVars {fields : List (Nat × Hair.Pat)} {v : Variable} :
    VarOf ctx (Hair.Pat.fieldVars fields) v ↔ ∃ f ∈ fields, VarOf ctx f.2.vars v := by
  unfold VarOf
  simp only [mem_fieldVars]
  constructor
  · rintro ⟨h, ⟨f, hf, hh⟩, hv⟩
    exact ⟨f, hf, h, hh, hv⟩
  · rintro ⟨f, hf, h, hh, hv⟩
    exact ⟨h, ⟨f, hf, hh⟩, hv⟩

theorem varOf_listRefs {v : Variable} {es : List Hair.Expr} :
    VarOf ctx (listRefs es) v ↔ ∃ e ∈ es, VarOf ctx (exprRefs e) v := by
  induction es with
  | nil => simp [listRefs]
  | cons e es ih =>
    rw [listRefs, varOf_append, ih]
    simp

theorem varOf_fieldRefs {v : Variable} {fields : List (Nat × Hair.Expr)} :
    VarOf ctx (fieldRefs fields) v ↔ ∃ f ∈ fields, VarOf ctx (exprRefs f.2) v := by
  induction fields with
  | nil => simp [fieldRefs]
  | cons f rest ih =>
    show VarOf ctx (exprRefs f.2 ++ fieldRefs rest) v ↔ _
    rw [varOf_append, ih]
    simp

/-! ## Patterns -/

/-- A sorted list of fields in range is gone through to its end. -/
theorem SubpatternsExtract.mem_listVars {R : Hair.Pat → Pattern → Prop} {Q : Hair.Pat → Prop}
    {v : Variable} {i n : Nat} {fields : List (Nat × Hair.Pat)} {ps : List Pattern}
    (h : SubpatternsExtract R i n fields ps) (hsorted : fields.Pairwise fun a b => a.1 < b.1)
    (hbounds : ∀ f ∈ fields, i ≤ f.1 ∧ f.1 < i + n)
    (hR : ∀ f ∈ fields, ∀ q, R f.2 q → (v ∈ q.vars ↔ Q f.2)) :
    v ∈ Pattern.listVars ps ↔ ∃ f ∈ fields, Q f.2 := by
  induction h with
  | @done i fields =>
    have hnone : ∀ f ∈ fields, False := by
      intro f hf
      have := hbounds f hf
      omega
    obtain rfl : fields = [] := List.eq_nil_iff_forall_not_mem.mpr hnone
    simp [Pattern.listVars]
  | @wildcard i n fields ps hhead _ ih =>
    have hbounds' : ∀ f ∈ fields, i + 1 ≤ f.1 ∧ f.1 < i + 1 + n := by
      intro f hf
      have hf' := hbounds f hf
      obtain ⟨g, rest, rfl⟩ := List.exists_cons_of_ne_nil (List.ne_nil_of_mem hf)
      have hg := hhead g rfl
      have hg' := hbounds g List.mem_cons_self
      rcases List.mem_cons.mp hf with rfl | hf
      · omega
      · have := (List.pairwise_cons.mp hsorted).1 f hf
        omega
    simpa [Pattern.listVars, Pattern.vars, binderVars] using ih hsorted hbounds' hR
  | @pattern i n p q fields ps hpq _ ih =>
    obtain ⟨hfirst, hsorted'⟩ := List.pairwise_cons.mp hsorted
    have hbounds' : ∀ f ∈ fields, i + 1 ≤ f.1 ∧ f.1 < i + 1 + n := by
      intro f hf
      have h1 := hfirst f hf
      have h2 := hbounds f (List.mem_cons_of_mem _ hf)
      simp only at h1
      omega
    rw [Pattern.listVars, List.mem_append, hR (i, p) List.mem_cons_self q hpq,
      ih hsorted' hbounds' fun f hf => hR f (List.mem_cons_of_mem _ hf)]
    simp

theorem fieldsIds_length : ∀ {fs : List FieldDef} {fields : List SymbolIdentifier},
    fieldsIds ids fs = some fields → fields.length = fs.length
  | [], fields, h => by
    obtain rfl := Option.some.inj h
    rfl
  | f :: fs, fields, h => by
    obtain ⟨id, -, h⟩ := Option.bind_eq_some_iff.mp h
    obtain ⟨rest, hrest, h⟩ := Option.bind_eq_some_iff.mp h
    obtain rfl := Option.some.inj h
    rw [List.length_cons, List.length_cons, fieldsIds_length hrest]

theorem variantsIds_fields : ∀ {vs : List VariantDef} {sort : List ConstructorIds} {i : Nat}
    {constructor : ConstructorIds}, variantsIds ids vs = some sort → sort[i]? = some constructor →
    ∃ v, vs[i]? = some v ∧ constructor.fields.length = v.fields.length
  | [], sort, i, constructor, h, hc => by
    obtain rfl := Option.some.inj h
    simp at hc
  | v :: vs, sort, i, constructor, h, hc => by
    obtain ⟨id, -, h⟩ := Option.bind_eq_some_iff.mp h
    obtain ⟨fields, hfields, h⟩ := Option.bind_eq_some_iff.mp h
    obtain ⟨rest, hrest, h⟩ := Option.bind_eq_some_iff.mp h
    obtain rfl := Option.some.inj h
    cases i with
    | zero =>
      obtain rfl := Option.some.inj hc
      exact ⟨v, rfl, fieldsIds_length hfields⟩
    | succ i =>
      obtain ⟨v', hv', hlen⟩ := @variantsIds_fields vs rest i constructor hrest hc
      exact ⟨v', hv', hlen⟩

/-- A constructor has as many fields as its variant. -/
theorem adtIds_fields {did : DefId} {sort : List ConstructorIds} {i : Nat}
    {constructor : ConstructorIds} (h : adtIds tcx ids did = some sort)
    (hc : sort[i]? = some constructor) :
    variantLength tcx did i = some constructor.fields.length := by
  obtain ⟨a, ha, h⟩ := Option.bind_eq_some_iff.mp h
  obtain ⟨v, hv, hlen⟩ := variantsIds_fields h hc
  simp [variantLength, ha, hv, hlen]

/-- The variables of a pattern are those of its bindings, and the binder that was passed down. -/
theorem PatExtracts.mem_vars {p : Hair.Pat} {binder : Option ValDef} {q : Pattern}
    (h : PatExtracts tcx ids ctx p binder q) : PatOk tcx p → ∀ v : Variable,
    (v ∈ q.vars ↔ v ∈ binderVars binder ∨ VarOf ctx p.vars v) := by
  refine PatExtracts.induct (P := fun p binder q => PatOk tcx p → ∀ v : Variable,
    (v ∈ q.vars ↔ v ∈ binderVars binder ∨ VarOf ctx p.vars v)) (fun p binder q hrule hok v => ?_)
    p binder q h
  have hfields : ∀ {fields : List (Nat × Hair.Pat)} {n : Nat} {ps : List Pattern},
      (fields.map Prod.fst).Nodup ∧ (∀ f ∈ fields, f.1 < n) → PatOk.fields tcx fields →
      SubpatternsExtract (fun p q => PatExtracts tcx ids ctx p none q ∧ (PatOk tcx p → ∀ v,
        (v ∈ q.vars ↔ v ∈ binderVars none ∨ VarOf ctx p.vars v))) 0 n (sortByIndex fields) ps →
      (v ∈ Pattern.listVars ps ↔ VarOf ctx (Hair.Pat.fieldVars fields) v) := by
    intro fields n ps hfit hok hps
    rw [varOf_fieldVars, hps.mem_listVars (Q := fun p => VarOf ctx p.vars v)
      (sortByIndex_strict hfit.1)]
    · simp only [mem_sortByIndex]
    · intro f hf
      have := hfit.2 f (mem_sortByIndex.mp hf)
      omega
    · intro f hf q hq
      rw [hq.2 (PatOk.of_fields hok f (mem_sortByIndex.mp hf)) v]
      simp [binderVars]
  cases hrule with
  | wild => simp [Pattern.vars, Hair.Pat.vars]
  | binding _ hv => simp [Pattern.vars, binderVars, Hair.Pat.vars, Hair.Pat.optVars, hv, eq_comm]
  | bindingAt _ hv hp =>
    rw [hp.2 hok v, Hair.Pat.vars, Hair.Pat.optVars]
    show _ ↔ _ ∨ VarOf ctx ([_] ++ _) v
    rw [varOf_append]
    simp [binderVars, hv, eq_comm]
  | variant hsort hcons _ hps =>
    rw [Pattern.vars, List.mem_append, Hair.Pat.vars,
      hfields (hok.1 _ (adtIds_fields hsort hcons)) hok.2 hps]
  | leafAdt hsort _ hps =>
    rw [Pattern.vars, List.mem_append, Hair.Pat.vars,
      hfields (hok.1 _ (adtIds_fields (i := 0) hsort rfl)) hok.2 hps]
  | leafTuple hps =>
    rw [Pattern.vars, List.mem_append, Hair.Pat.vars, hfields (hok.1 _ rfl) hok.2 hps]
  | constant => simp [Pattern.vars, Hair.Pat.vars]
  | deref hp =>
    rw [hp.2 hok v, Hair.Pat.vars]

/-! ## Expressions -/

theorem mem_finishBlock_freeVars {acc : List St.Expr} {last : St.Expr} {v : Variable} :
    v ∈ (finishBlock acc last).freeVars ↔ v ∈ Expr.listFreeVars acc ∨ v ∈ last.freeVars := by
  cases acc with
  | nil => simp [finishBlock, Expr.listFreeVars]
  | cons e acc =>
    show v ∈ (St.Expr.block (e :: acc) last).freeVars ↔ _
    rw [Expr.freeVars, List.mem_append]

theorem listFreeVars_append {v : Variable} {es es' : List St.Expr} :
    v ∈ Expr.listFreeVars (es ++ es') ↔ v ∈ Expr.listFreeVars es ∨ v ∈ Expr.listFreeVars es' := by
  simp [Expr.mem_listFreeVars, or_and_right, exists_or]

theorem widenShiftArg_freeVars {ty1 ty2 : Ty} {arg2 t : St.Expr}
    (h : widenShiftArg ty1 ty2 arg2 = .ok t) : t.freeVars = arg2.freeVars := by
  unfold widenShiftArg at h
  split_ifs at h with heq
  · obtain rfl := Except.ok.inj h
    rfl
  · repeat' split at h
    all_goals cases h
    all_goals rfl

theorem LetVar.vars {p : Hair.Pat} {h : HirId} (hlet : LetVar p h) : p.vars = [h] := by
  induction hlet with
  | binding => rfl
  | ascribeUserType _ ih => rw [Hair.Pat.vars, ih]

theorem exprRefs_stripScopes : ∀ e : Hair.Expr, exprRefs (stripScopes e) = exprRefs e
  | .scope _ value => by
    rw [stripScopes, exprRefs]
    exact exprRefs_stripScopes value
  | .literal _ _ | .other _ _ | .varRef _ _ | .unary _ _ _ | .field _ _ _ | .use _ _
  | .neverToAny _ _ | .deref _ _ | .borrow _ _ _ | .binary _ _ _ _ | .logicalOp _ _ _ _
  | .tuple _ _ | .call _ _ _ | .adt _ _ _ _ _ _ | .block _ _ _ _ | .matchE _ _ _ => rfl

/-- Without an `else` there is nothing that its block refers to. -/
theorem looksLikeIf_noElse {scrutinee : Hair.Expr} {armTy armTy' : Ty} {konst : Const}
    {guard guard' : Option Hair.Expr} {thenn elze : Hair.Expr}
    (h : looksLikeIf scrutinee
      [.mk (.constant armTy konst) guard thenn, .mk (.wild armTy') guard' elze] =
        .ok (some false)) : exprRefs elze = [] := by
  rw [← exprRefs_stripScopes]
  simp only [looksLikeIf] at h
  by_cases hbool : scrutinee.ty.isBool
  swap
  · simp [hbool] at h
  rw [if_pos hbool] at h
  split at h
  · cases h
  · split at h
    · rename_i stmts expr hstrip
      have hempty : (stmts.isEmpty && expr.isNone) = true := by simpa using h
      rw [Bool.and_eq_true, List.isEmpty_iff, Option.isNone_iff_eq_none] at hempty
      obtain ⟨rfl, rfl⟩ := hempty
      rw [hstrip, exprRefs, stmtRefs, optRefs]
    · cases h
  · cases h

section Free

variable {R : Hair.Expr → St.Expr → Prop} {v : Variable}

/--
What the translation of an expression is about: its free variables are those of the bindings that
the expression refers to.
-/
def FreeFor (ctx : BodyCtxt) (v : Variable) (e : Hair.Expr) (t : St.Expr) : Prop :=
  v ∈ t.freeVars ↔ VarOf ctx (exprRefs e) v

theorem mem_listFreeVars_of_forall₂ {es : List Hair.Expr} {ts : List St.Expr}
    (h : List.Forall₂ R es ts) (hR : ∀ e ∈ es, ∀ t, R e t → FreeFor ctx v e t) :
    v ∈ Expr.listFreeVars ts ↔ VarOf ctx (listRefs es) v := by
  induction h with
  | nil => simp [Expr.listFreeVars, listRefs]
  | @cons e t es ts het _ ih =>
    have hhead : v ∈ t.freeVars ↔ VarOf ctx (exprRefs e) v := hR e List.mem_cons_self t het
    rw [Expr.listFreeVars, listRefs, List.mem_append, varOf_append, hhead,
      ih fun e' he' => hR e' (List.mem_cons_of_mem _ he')]

theorem OptExtracts.mem_freeVars {o : Option Hair.Expr} {ot : Option St.Expr}
    (h : OptExtracts R o ot) (hR : ∀ e ∈ o, ∀ t, R e t → FreeFor ctx v e t) :
    v ∈ Expr.optFreeVars ot ↔ VarOf ctx (optRefs o) v := by
  cases h with
  | none => simp [Expr.optFreeVars, optRefs]
  | some ht => exact hR _ rfl _ ht

/-- What the statements so far refer to stays free; what a `let` binds does not. -/
theorem StmtsExtract.mem_freeVars (hown : OwnVars ctx) {stmts : List Hair.Stmt}
    {acc : List St.Expr} {last r : St.Expr} {tail : List HirId}
    (h : StmtsExtract ctx.vars.get? R stmts acc last r)
    (hR : ∀ e ∈ stmtExprs stmts, ∀ t, R e t → FreeFor ctx v e t)
    (hlast : v ∈ last.freeVars ↔ VarOf ctx tail v) :
    v ∈ r.freeVars ↔ v ∈ Expr.listFreeVars acc ∨ VarOf ctx (stmtRefs stmts tail) v := by
  induction h with
  | finish => rw [mem_finishBlock_freeVars, stmtRefs, hlast]
  | @expr e t stmts acc last r het _ ih =>
    have hhead : v ∈ t.freeVars ↔ VarOf ctx (exprRefs e) v := hR e List.mem_cons_self t het
    rw [ih (fun e' he' => hR e' (List.mem_cons_of_mem _ he')) hlast, listFreeVars_append, stmtRefs,
      varOf_append, or_assoc, ← hhead]
    simp [Expr.listFreeVars]
  | @letS p var w init t stmts acc last r hvar hw hinit _ ih =>
    have hhead : v ∈ t.freeVars ↔ VarOf ctx (exprRefs init) v := hR init List.mem_cons_self t hinit
    have hbound : VarOf ctx p.vars v ↔ v = w := by
      rw [hvar.vars, varOf_singleton, hw]
      simp [eq_comm]
    have htail := ih (fun e' he' => hR e' (List.mem_cons_of_mem _ he')) hlast
    rw [mem_finishBlock_freeVars, stmtRefs, varOf_append, varOf_filter_notMem hown, hbound, optRefs,
      ← hhead, Expr.freeVars, List.mem_append, List.mem_filter, htail]
    simp [Expr.listFreeVars]

/-- The variables of the pattern of an arm are bound in its guard and in its body. -/
theorem armExtracts_mem_freeVars (hown : OwnVars ctx) {arms : List Hair.Arm}
    {cases' : List MatchCase}
    (h : List.Forall₂ (ArmExtracts (fun p q => PatExtracts tcx ids ctx p none q) R) arms cases')
    (hok : ExprOk.arms tcx arms)
    (hR : ∀ e t, ExprOk tcx e → R e t → FreeFor ctx v e t) :
    v ∈ MatchCase.listFreeVars cases' ↔ VarOf ctx (armRefs true arms) v := by
  induction h with
  | nil => simp [MatchCase.listFreeVars, armRefs]
  | @cons arm c arms cases' harm _ ih =>
    cases harm with
    | @mk pattern guard body p g b hp hg hb =>
      obtain ⟨hokPat, hokGuard, hokBody, hokRest⟩ := hok
      have hpat : v ∈ p.vars ↔ VarOf ctx pattern.vars v := by
        simpa [binderVars] using hp.mem_vars hokPat v
      have hguard : v ∈ Expr.optFreeVars g ↔ VarOf ctx (optRefs guard) v := by
        refine hg.mem_freeVars fun e he t => hR e t ?_
        obtain rfl : guard = some e := he
        exact hokGuard
      have hbody : v ∈ b.freeVars ↔ VarOf ctx (exprRefs body) v := hR body b hokBody hb
      rw [MatchCase.listFreeVars, armRefs, List.mem_append, varOf_append, ih hokRest,
        MatchCase.freeVars, List.mem_filter, varOf_filter_notMem hown, List.mem_append,
        varOf_append,
        if_pos rfl, hguard, hbody, ← hpat]
      simp

end Free

/-- The ids carry the paths of what they name. -/
def PathIds (tcx : Tcx) (ids : Ids) : Prop :=
  ∀ did id, ids did = some id →
    id.symbolPath = (symbolNameAndPath (symbolPathFromDefId tcx did)).2

/-- The free variables of a translation are those of the bindings that the expression refers to. -/
theorem ExprExtracts.mem_freeVars (hown : OwnVars ctx) (hpaths : PathIds tcx ids) {e : Hair.Expr}
    {t : St.Expr} (h : ExprExtracts tcx ids ctx e t) :
    ExprOk tcx e → ∀ v : Variable, FreeFor ctx v e t := by
  refine ExprExtracts.induct (P := fun e t => ExprOk tcx e → ∀ v : Variable, FreeFor ctx v e t)
    (fun e t hrule hok v => ?_) e t h
  have hlist : ∀ {es : List Hair.Expr} {ts : List St.Expr}, (∀ e ∈ es, ExprOk tcx e) →
      List.Forall₂ (fun e t => ExprExtracts tcx ids ctx e t ∧
        (ExprOk tcx e → ∀ v : Variable, FreeFor ctx v e t)) es ts →
      (v ∈ Expr.listFreeVars ts ↔ VarOf ctx (listRefs es) v) := fun hoks hts =>
    mem_listFreeVars_of_forall₂ hts fun e he _ ht => ht.2 (hoks e he) v
  unfold FreeFor
  cases hrule with
  | literal => simp [Expr.freeVars, exprRefs]
  | bvNot ha | boolNot ha | neg ha | tupleField ha | adtField ha =>
    rw [Expr.freeVars, exprRefs]
    exact ha.2 hok v
  | eq ha hb | bvOp ha hb =>
    rw [Expr.freeVars, exprRefs, List.mem_append, varOf_append]
    exact or_congr (ha.2 hok.1 v) (hb.2 hok.2 v)
  | ne ha hb =>
    rw [Expr.freeVars, Expr.freeVars, exprRefs, List.mem_append, varOf_append]
    exact or_congr (ha.2 hok.1 v) (hb.2 hok.2 v)
  | shift ha hb _ _ _ hwiden =>
    rw [Expr.freeVars, exprRefs, List.mem_append, varOf_append, widenShiftArg_freeVars hwiden]
    exact or_congr (ha.2 hok.1 v) (hb.2 hok.2 v)
  | and ha hb | or ha hb =>
    rw [Expr.freeVars, exprRefs, Expr.listFreeVars, Expr.listFreeVars, Expr.listFreeVars,
      List.append_nil, List.mem_append, varOf_append]
    exact or_congr (ha.2 hok.1 v) (hb.2 hok.2 v)
  | unit => simp [Expr.freeVars, exprRefs, listRefs]
  | tuple _ hts =>
    rw [Expr.freeVars, exprRefs]
    exact hlist (ExprOk.of_list hok) hts
  | varRef hv => simp [Expr.freeVars, exprRefs, hv, eq_comm]
  | panic _ ha =>
    have harg := ha.2 hok.2.1 v
    unfold FreeFor at harg
    simp [Expr.freeVars, Expr.listFreeVars, exprRefs, listRefs, harg]
  | setCreation _ hts =>
    rw [Expr.freeVars, exprRefs]
    exact hlist (ExprOk.of_list hok.2) hts
  | @setOp ty did substs item operator set arg args a b ts hitem hoperator ha hb _ =>
    have htwo : (set :: arg :: args).length = 2 :=
      (hok.1 did substs rfl).1 item hitem (by simp [hoperator])
    obtain rfl : args = [] := List.eq_nil_of_length_eq_zero (by simpa using htwo)
    rw [Expr.freeVars, exprRefs, listRefs, listRefs, listRefs, List.append_nil, List.mem_append,
      varOf_append]
    exact or_congr (ha.2 hok.2.1 v) (hb.2 hok.2.2.1 v)
  | @boxNew ty did substs arg args a fdId _ hid hbox ha =>
    have hone : (arg :: args).length = 1 :=
      (hok.1 did substs rfl).2 (by rw [← hpaths did fdId hid, hbox])
    obtain rfl : args = [] := List.eq_nil_of_length_eq_zero (by simpa using hone)
    rw [exprRefs, listRefs, listRefs, List.append_nil]
    exact ha.2 hok.2.1 v
  | call _ _ _ _ hts =>
    rw [Expr.freeVars, exprRefs]
    exact hlist (ExprOk.of_list hok.2) hts
  | @adt ty did variantIndex substs fields sort constructor argTps ts _ _ _ hts =>
    have hoks : ∀ e ∈ (sortByIndex fields).map Prod.snd, ExprOk tcx e := by
      intro e he
      obtain ⟨f, hf, rfl⟩ := List.mem_map.mp he
      exact ExprOk.of_fields hok f (mem_sortByIndex.mp hf)
    rw [Expr.freeVars, exprRefs, hlist hoks hts, varOf_listRefs, varOf_fieldRefs]
    constructor
    · rintro ⟨e, he, hv⟩
      obtain ⟨f, hf, rfl⟩ := List.mem_map.mp he
      exact ⟨f, mem_sortByIndex.mp hf, hv⟩
    · rintro ⟨f, hf, hv⟩
      exact ⟨f.2, List.mem_map_of_mem (mem_sortByIndex.mpr hf), hv⟩
  | @block ty stmts expr last r hlast hstmts =>
    have hfinal : v ∈ (last.getD .unitLiteral).freeVars ↔ VarOf ctx (optRefs expr) v := by
      cases hlast with
      | none => simp [Expr.freeVars, optRefs]
      | some ht => exact ht.2 hok.2 v
    rw [hstmts.mem_freeVars hown (fun e he _ ht => ht.2 (ExprOk.of_stmts hok.1 e he) v) hfinal,
      exprRefs]
    simp [Expr.listFreeVars]
  | ifElse hif ha ht he =>
    obtain ⟨hokScrutinee, ⟨-, -, hokThen, -, -, hokElse, -⟩⟩ := hok
    have hcond := ha.2 hokScrutinee v
    have hthen := ht.2 hokThen v
    have helse := he.2 hokElse v
    unfold FreeFor at hcond hthen helse
    rw [Expr.freeVars, exprRefs, guardsMet, hif]
    simp [armRefs, Hair.Pat.vars, hcond, hthen, helse]
  | ifOnly hif ha ht =>
    obtain ⟨hokScrutinee, ⟨-, -, hokThen, -⟩⟩ := hok
    have hcond := ha.2 hokScrutinee v
    have hthen := ht.2 hokThen v
    unfold FreeFor at hcond hthen
    rw [Expr.freeVars, exprRefs, guardsMet, hif]
    simp [armRefs, Hair.Pat.vars, hcond, hthen, looksLikeIf_noElse hif, Expr.freeVars]
  | matchE hif ha harms =>
    rw [Expr.freeVars, exprRefs, guardsMet, hif, List.mem_append, varOf_append]
    exact or_congr (ha.2 hok.1 v)
      (armExtracts_mem_freeVars hown harms hok.2 fun e t hoke ht => ht.2 hoke v)
  | scope ha | use ha | neverToAny ha | deref ha | borrow ha =>
    rw [exprRefs]
    exact ha.2 hok v

end Stainless
