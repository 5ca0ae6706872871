import RustStainless.Data.Placeholders
import RustStainless.Lib.Ensures
import RustStainless.Extraction.Image
import RustStainless.Extraction.Krate

/-!
# Types and ADTs without placeholders

Where a type cannot be extracted, an error is reported and `Untyped` is put in its place. So what a
run returns and stores is proper as long as it reports no error, and the runs of this module are
watched for that.
-/

namespace Stainless

open Rustc St Lib Extraction

/-! ## The invariant -/

/-- A function without placeholders, or the stub of a definition of another crate. -/
def FunctionClosed (ids : Ids) (fd : FunDef) : Prop :=
  fd.SignatureProper ∧
    (fd.fullBody.Proper ∨ (fd.IsStub ∧ ∃ d : DefId, d.isLocal = false ∧ ids d = some fd.id))

/-- What was stored so far has no placeholder that it should not have. -/
structure StoredClosed (ids : Ids) (s : Extraction) : Prop where
  adts : ∀ e ∈ s.adts, e.2.Proper
  functions : ∀ e ∈ s.functions, FunctionClosed ids e.2

/-- A run is watched as far as it reported no error and all its ids are among `ids`. -/
def closedWatch (ids : Ids) : Watch Extraction where
  grows := Grows
  refl := Grows.refl
  trans := Grows.trans
  good := fun s => s.NoErrors ∧ ∀ d id, s.didId d = some id → ids d = some id
  good_of_grows := fun hg h => ⟨hg.noErrors h.1, fun d id hd => h.2 d id (hg.did d id hd)⟩
  inv := StoredClosed ids

/-- Knowing `H`, what `x` returns has the property `P` if nothing is reported. -/
abbrev Yields {α : Type} (ids : Ids) (H : Prop) (x : Xtor α) (P : α → Prop) : Prop :=
  Run.Ensures (closedWatch ids) H x P

variable {tcx : Tcx} {ids : Ids} {H : Prop}

/-! ## The primitives -/

/-- A run that stores nothing, whatever else it does. -/
theorem yields_of_quiet {α : Type} {x : Xtor α}
    (h : ∀ s a s', x s = .ok (a, s') → Grows s s' ∧ s'.adts = s.adts ∧ s'.functions = s.functions) :
    Yields ids H x fun _ => True := by
  intro s a s' hx
  obtain ⟨hg, ha, hf⟩ := h s a s' hx
  refine ⟨hg, fun _ _ hi => ⟨⟨?_, ?_⟩, trivial⟩⟩
  · rw [ha]
    exact hi.adts
  · rw [hf]
    exact hi.functions

theorem yields_of_warns {α : Type} {x : Xtor α} (h : ∀ s a s', x s = .ok (a, s') → WarnsOnly s s') :
    Yields ids H x fun _ => True := by
  refine yields_of_quiet fun s a s' hx => ?_
  have hw := h s a s' hx
  have hg := hw.grows
  obtain ⟨ms, -, rfl⟩ := hw
  exact ⟨hg, rfl, rfl⟩

theorem spanErr_yields (msg : String) : Yields ids H (spanErr msg) fun _ => False := by
  intro s u s' h
  obtain rfl := report_ok.mp h
  refine ⟨grows_report _, fun hgood _ _ => absurd (hgood.1 (.error msg) (by simp)) ?_⟩
  simp [Diag.isError]

theorem unsupported_yields (msg : String) : Yields ids H (unsupported msg) fun _ => False :=
  spanErr_yields _

/-- Behind an error, anything may be returned. -/
theorem unsupported_bail {α : Type} {P : α → Prop} (msg : String) (a : α) :
    Yields ids H (do
      unsupported msg
      pure a) P :=
  .bail (unsupported_yields msg) fun _ => .pure fun h => h.elim

theorem freshId_yields (name : String) : Yields ids H (freshId name) fun _ => True := by
  refine yields_of_quiet fun s id s' h => ?_
  obtain ⟨-, rfl⟩ := freshIdWithPath_ok.mp h
  exact ⟨grows_bump _, rfl, rfl⟩

theorem registerDef_yields (d : DefId) : Yields ids H (registerDef tcx d) fun _ => True := by
  refine yields_of_quiet fun s id s' h => ?_
  obtain ⟨hd, -, rfl⟩ := registerDef_ok.mp h
  exact ⟨grows_withDef hd, rfl, rfl⟩

theorem getIdFromDef_yields (d : DefId) : Yields ids H (getIdFromDef d) fun _ => True := by
  refine yields_of_quiet fun s id s' h => ?_
  obtain ⟨-, rfl⟩ := Prod.mk.inj (Except.ok.inj (getIdFromDef_eq.symm.trans h))
  exact ⟨.refl s, rfl, rfl⟩

theorem getOrRegisterDef_yields (d : DefId) :
    Yields ids H (getOrRegisterDef tcx d) fun _ => True := by
  refine (getIdFromDef_yields d).bind fun id => ?_
  cases id with
  | some id => exact .pure fun _ => trivial
  | none => exact registerDef_yields d

theorem registerHir_yields (h : HirId) (name : String) :
    Yields ids H (registerHir tcx h name) fun _ => True := by
  refine yields_of_quiet fun s id s' hr => ?_
  obtain ⟨hh, -, rfl⟩ := registerHir_ok.mp hr
  exact ⟨grows_withHir hh, rfl, rfl⟩

theorem addAdt_yields {id : SymbolIdentifier} {sort : ADTSort} (hsort : H → sort.Proper) :
    Yields ids H (addAdt id sort) fun _ => True := by
  intro s u s' h
  obtain ⟨-, rfl⟩ := addAdt_ok.mp h
  refine ⟨grows_addAdt _ _, fun _ hH hi => ⟨⟨fun e he => ?_, hi.functions⟩, trivial⟩⟩
  rcases List.mem_append.mp he with he | he
  · exact hi.adts e he
  · rw [List.mem_singleton.mp he]
    exact hsort hH

theorem addFunction_yields {id : SymbolIdentifier} {fd : FunDef}
    (hfd : H → FunctionClosed ids fd) : Yields ids H (addFunction id fd) fun _ => True := by
  intro s u s' h
  obtain ⟨-, rfl⟩ := addFunction_ok.mp h
  refine ⟨grows_addFunction _ _, fun _ hH hi => ⟨⟨hi.adts, fun e he => ?_⟩, trivial⟩⟩
  rcases List.mem_append.mp he with he | he
  · exact hi.functions e he
  · rw [List.mem_singleton.mp he]
    exact hfd hH

theorem extractFnRef_yields (d : DefId) :
    Yields ids H (extractFnRef tcx d) fun id => ids d = some id := by
  intro s id s' h
  rcases extractFnRef_ok.mp h with ⟨hd, rfl⟩ | ⟨hd, -, rfl, rfl⟩
  · exact ⟨.refl _, fun hgood _ hi => ⟨hi, hgood.2 d id hd⟩⟩
  · refine ⟨(grows_addFunctionRef d).trans (grows_withDef hd), fun hgood _ hi => ?_⟩
    refine ⟨⟨hi.adts, hi.functions⟩, hgood.2 d _ ?_⟩
    show (s.withDef tcx d).didId d = _
    rw [withDef_didId tcx hd, if_pos rfl]

theorem liftPanic_yields {α : Type} {P : α → Prop} {x : Except Panic α}
    (h : H → ∀ a, x = .ok a → P a) : Yields ids H (liftPanic x) P := by
  cases x with
  | error e => exact .panic e
  | ok a => exact .pure fun hH => h hH a rfl

/-! ## Types and generics -/

/-- The type parameters stand for proper types. -/
def TparamsProper (indexToTparam : Assoc Nat TyParam) : Prop :=
  ∀ e ∈ indexToTparam, e.2.toTpe.Proper

theorem TparamsProper.insert {m : Assoc Nat TyParam} (h : TparamsProper m) (index : Nat)
    {tparam : TyParam} (ht : tparam.toTpe.Proper) : TparamsProper (m.insert index tparam) := by
  intro e he
  rcases Assoc.mem_of_mem_insert he with rfl | he
  · exact ht
  · exact h e he

section

variable {adtId : DefId → Xtor SymbolIdentifier} (txtcx : TyExtractionCtxt)

mutual

theorem extractTyWith_yields (hadt : ∀ d, Yields ids True (adtId d) fun _ => True)
    (hctx : H → TparamsProper txtcx.indexToTparam) :
    ∀ ty : Ty, Yields ids H (extractTyWith tcx adtId txtcx ty) Tpe.Proper
  | .bool => by
    rw [extractTyWith]
    exact .pure fun _ => trivial
  | .int t | .uint t => by
    rw [extractTyWith]
    split
    · exact .pure fun _ => trivial
    · exact unsupported_bail _ _
  | .tuple tys => by
    rw [extractTyWith]
    refine (extractTysWith_yields hadt hctx tys).bind fun tpes => ?_
    split
    · exact .pure fun _ => trivial
    · exact unsupported_bail _ _
    · exact .pure fun h => h.2
  | .adt did substs => by
    rw [extractTyWith]
    split
    · exact .pure fun _ => trivial
    · split
      -- a box is erased, a set is a type of its own
      · exact extractTyAt0_yields hadt hctx substs
      · split
        · exact (extractTyAt0_yields hadt hctx substs).bind fun _ => .pure fun h => h.2
        · refine (hadt did).of_true.bind fun _ => ?_
          exact ((extractTysWith_yields hadt hctx substs).given And.left).bind fun _ =>
            .pure fun h => h.2
  | .ref ty .not => by
    rw [extractTyWith]
    exact extractTyWith_yields hadt hctx ty
  | .param index => by
    rw [extractTyWith]
    split
    · next tparam hp => exact .pure fun h => hctx h _ (Assoc.mem_of_get? hp)
    · exact .panic _
  | .ref _ .mut | .char | .str | .never | .fnDef _ _ | .closure _ _ | .other _ => by
    rw [extractTyWith]
    exact unsupported_bail _ _

theorem extractTysWith_yields (hadt : ∀ d, Yields ids True (adtId d) fun _ => True)
    (hctx : H → TparamsProper txtcx.indexToTparam) :
    ∀ tys : List Ty, Yields ids H (extractTysWith tcx adtId txtcx tys) Tpe.ProperAll
  | [] => by
    rw [extractTysWith]
    exact .pure fun _ => trivial
  | ty :: tys => by
    rw [extractTysWith]
    refine (extractTyWith_yields hadt hctx ty).bind fun _ => ?_
    refine ((extractTysWith_yields hadt hctx tys).given And.left).bind fun _ => ?_
    exact .pure fun h => ⟨h.1.2, h.2⟩

theorem extractTyAt0_yields (hadt : ∀ d, Yields ids True (adtId d) fun _ => True)
    (hctx : H → TparamsProper txtcx.indexToTparam) :
    ∀ tys : List Ty, Yields ids H (extractTyAt0 tcx adtId txtcx tys) Tpe.Proper
  | [] => by
    rw [extractTyAt0]
    exact .panic _
  | ty :: _ => by
    rw [extractTyAt0]
    exact extractTyWith_yields hadt hctx ty

end

end

/-- The scan of the bounds only warns. -/
theorem scanPredicates_yields (ps : List Predicate) (bounds : FunBounds) :
    Yields ids H (scanPredicates tcx ps bounds) fun _ => True :=
  yields_of_warns fun _ _ _ h => (scanPredicates_ok ps h).warns

theorem extractTparams_yields (bounds : FunBounds) : ∀ (params : List GenericParamDef)
    {indexToTparam : Assoc Nat TyParam} {H : Prop}, (H → TparamsProper indexToTparam) →
    Yields ids H (extractTparams tcx bounds params indexToTparam) TparamsProper
  | [], _, _, h => .pure h
  | param :: rest, indexToTparam, H, h => by
    rw [extractTparams]
    split
    · split
      · exact extractTparams_yields bounds rest h
      · refine (getOrRegisterDef_yields param.defId).bind fun id => ?_
        exact extractTparams_yields bounds rest fun hH => (h hH.1).insert _ trivial
    all_goals
      exact .bail (unsupported_yields _) fun _ => extractTparams_yields bounds rest fun h => h.elim

section

variable {adtId : DefId → Xtor SymbolIdentifier}
  (hadt : ∀ d, Yields ids True (adtId d) fun _ => True)

include hadt

theorem replaceHofParams_yields : ∀ (params : Assoc Nat (List Ty)) (returns : Assoc Nat Ty)
    {txtcx : TyExtractionCtxt} {H : Prop}, (H → TparamsProper txtcx.indexToTparam) →
    Yields ids H (replaceHofParams tcx adtId params returns txtcx)
      fun txtcx => TparamsProper txtcx.indexToTparam
  | [], _, _, _, h => .pure h
  | (index, paramTys) :: rest, returns, txtcx, H, h => by
    rw [replaceHofParams]
    refine (extractTysWith_yields txtcx hadt h paramTys).bind fun paramTps => ?_
    split
    · exact .panic _
    · next returnTy _ =>
      refine (extractTyWith_yields txtcx hadt (fun h' => h h'.1) returnTy).bind fun returnTpe => ?_
      split
      · exact .panic _
      · exact replaceHofParams_yields rest _ fun h' => (h h'.1.1).insert _ ⟨h'.1.2, h'.2⟩

theorem extractGenericsWith_yields (d : DefId) :
    Yields ids H (extractGenericsWith tcx adtId d) fun r => TparamsProper r.2.indexToTparam := by
  have hnil : TparamsProper [] := by simp [TparamsProper]
  unfold extractGenericsWith
  split
  · split
    · exact .pure fun _ => hnil
    · exact .panic _
  · refine (scanPredicates_yields _ _).bind fun bounds => ?_
    refine (extractTparams_yields bounds _ fun _ => hnil).bind fun indexToTparam => ?_
    refine (replaceHofParams_yields hadt _ _ fun h => h.2).bind fun txtcx => ?_
    exact .pure fun h => h.2

/-! ## ADTs -/

theorem extractFields_yields (txtcx : TyExtractionCtxt)
    (hctx : H → TparamsProper txtcx.indexToTparam) : ∀ (fields : List FieldDef)
    (flagsBySymbol : Assoc String Flags),
    Yields ids H (extractFields tcx adtId txtcx fields flagsBySymbol)
      fun r => ∀ field ∈ r.1, field.Proper
  | [], _ => .pure fun _ => by simp
  | field :: rest, flagsBySymbol => by
    rw [extractFields]
    refine (getOrRegisterDef_yields field.did).bind fun fieldId => ?_
    refine (extractTyWith_yields txtcx hadt (fun h => hctx h.1) field.ty).bind fun fieldTy => ?_
    refine ((extractFields_yields txtcx hctx rest _).given fun h => h.1.1).bind fun r => ?_
    refine .pure fun h => ?_
    simp only [List.forall_mem_cons]
    exact ⟨h.1.2, h.2⟩

theorem extractConstructors_yields (txtcx : TyExtractionCtxt)
    (hctx : H → TparamsProper txtcx.indexToTparam) (sortId : SymbolIdentifier) :
    ∀ (variants : List VariantDef) (flagsBySymbol : Assoc String Flags),
    Yields ids H (extractConstructors tcx adtId txtcx sortId variants flagsBySymbol)
      fun r => ∀ c ∈ r.1, c.Proper
  | [], _ => .pure fun _ => by simp
  | variant :: rest, flagsBySymbol => by
    rw [extractConstructors]
    refine (getOrRegisterDef_yields variant.defId).bind fun consId => ?_
    refine (extractFields_yields hadt txtcx (fun h => hctx h.1) variant.fields _).bind fun r => ?_
    refine ((extractConstructors_yields txtcx hctx sortId rest _).given fun h => h.1.1).bind
      fun r' => ?_
    refine .pure fun h => ?_
    simp only [List.forall_mem_cons]
    exact ⟨h.1.2, h.2⟩

theorem extractSort_yields (sortId : SymbolIdentifier) (d : DefId) (adtDef : AdtDef) :
    Yields ids H (extractSort tcx adtId sortId d adtDef) ADTSort.Proper := by
  unfold extractSort
  refine (yields_of_warns fun _ _ _ h => extractAdtFlags_warns h).bind fun flags => ?_
  refine (extractGenericsWith_yields hadt d).bind fun r => ?_
  refine (extractConstructors_yields hadt _ (fun h => h.2) sortId _ _).bind fun r' => ?_
  refine (yields_of_warns fun _ _ _ h => reportUnusedAdtFlags_warns h).bind fun _ => ?_
  exact .pure fun h => h.1.2

end

theorem getSort_yields (d : DefId) : Yields ids H (getSort d) (OptProper ADTSort.Proper) := by
  intro s sort s' h
  obtain ⟨t, s₁, h1, h2⟩ := Run.bind_ok.mp h
  obtain ⟨rfl, rfl⟩ := Run.get_ok.mp h1
  obtain ⟨rfl, rfl⟩ := Run.pure_ok.mp h2
  refine ⟨.refl _, fun _ _ hi => ⟨hi, fun sort hsort => ?_⟩⟩
  obtain ⟨id, -, hsort⟩ := Option.bind_eq_some_iff.mp hsort
  exact hi.adts _ (Assoc.mem_of_get? hsort)

theorem extractAdtIdWith_yields {adt : DefId → Xtor ADTSort}
    (h : ∀ d, Yields ids True (adt d) ADTSort.Proper) (d : DefId) :
    Yields ids True (extractAdtIdWith adt d) fun _ => True := by
  refine (getIdFromDef_yields d).bind fun id => ?_
  cases id with
  | some id => exact .pure fun _ => trivial
  | none => exact (h d).of_true.bind fun _ => .pure fun _ => trivial

theorem extractAdtWith_yields : ∀ (depth : Nat) (d : DefId),
    Yields ids True (extractAdtWith tcx depth d) ADTSort.Proper
  | 0, _ => .panic _
  | depth + 1, d => by
    rw [extractAdtWith]
    refine (getSort_yields d).bind fun sort => ?_
    cases sort with
    | some sort => exact .pure fun h => optProper_some.mp h.2
    | none =>
      refine (registerDef_yields d).bind fun sortId => ?_
      split
      · exact .panic _
      · exact extractSort_yields (extractAdtIdWith_yields (extractAdtWith_yields depth)) _ _ _

theorem extractAdt_yields (d : DefId) : Yields ids H (extractAdt tcx d) ADTSort.Proper :=
  (extractAdtWith_yields _ d).of_true

theorem extractAdtId_yields (d : DefId) : Yields ids True (extractAdtId tcx d) fun _ => True :=
  extractAdtIdWith_yields (extractAdtWith_yields _) d

theorem extractLocalAdts_yields : ∀ ds : List DefId,
    Yields ids True (extractLocalAdts tcx ds) fun _ => True
  | [] => .pure fun _ => trivial
  | d :: rest => by
    rw [extractLocalAdts]
    refine (extractAdt_yields d).bind fun sort => ?_
    refine (addAdt_yields fun h => h.2).bind fun _ => ?_
    exact (extractLocalAdts_yields rest).of_true

end Stainless
