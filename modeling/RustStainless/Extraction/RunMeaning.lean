import RustStainless.Extraction.ClosedProgram
import RustStainless.Extraction.LayerMeaning

/-!
# What functions return

The functions of an extracted crate return the images of what the functions of the crate return,
with the same fuel. Each layer of a body keeps the meaning, and a call goes on with the body of the
function that was extracted for it.
-/

namespace Stainless

open Rustc St Lib Extraction

variable {tcx : Tcx}

/-! ## Trees in order -/

section Trees

variable {ids : Ids} {ctx : BodyCtxt} {P : Program} {c : UseCtxt}

/-- An expression and its translation, where every node is in order. -/
inductive Related (tcx : Tcx) (ids : Ids) (ctx : BodyCtxt) (P : Program) :
    Hair.Expr → St.Expr → Prop
  | intro {e t} : ExprRule tcx ids ctx (Related tcx ids ctx P) e t → NodeOk tcx ids P e →
      Related tcx ids ctx P e t

/-- The program has the constructors of the ADT with their fields. -/
def HasAdt (tcx : Tcx) (ids : Ids) (P : Program) (did : DefId) : Prop :=
  ∀ sort, adtIds tcx ids did = some sort → ∀ c ∈ sort,
    P.fields c.id.globalId = some (c.fields.map (·.globalId))

/-- The program has all ADTs of which fields are used. -/
def FieldsKnown (tcx : Tcx) (ids : Ids) (P : Program) (us : List BodyUse) : Prop :=
  ∀ did name, .field did name ∈ us → HasAdt tcx ids P did

theorem FieldsKnown.of_subset {us us' : List BodyUse} (h : FieldsKnown tcx ids P us)
    (hsub : ∀ u ∈ us', u ∈ us) : FieldsKnown tcx ids P us' :=
  fun did name hu => h did name (hsub _ hu)

theorem PureOk.of_stmts : ∀ {stmts : List Hair.Stmt}, PureOk.stmts tcx stmts →
    ∀ e ∈ stmtExprs stmts, PureOk tcx e
  | .expr e' :: rest, h, e, he => by
    rcases List.mem_cons.mp he with rfl | he
    · exact h.1
    · exact PureOk.of_stmts h.2 e he
  | .letS _ none :: rest, h, e, he => PureOk.of_stmts h.2 e he
  | .letS _ (some init) :: rest, h, e, he => by
    rcases List.mem_cons.mp he with rfl | he
    · exact h.1
    · exact PureOk.of_stmts h.2 e he

theorem stmtUses_of_mem : ∀ {stmts : List Hair.Stmt} {e : Hair.Expr}, e ∈ stmtExprs stmts →
    ∀ u ∈ exprUses tcx c e, u ∈ stmtUses tcx c stmts
  | .expr e' :: rest, e, he, u, hu => by
    rcases List.mem_cons.mp he with rfl | he
    · exact List.mem_append_left _ hu
    · exact List.mem_append_right _ (stmtUses_of_mem he u hu)
  | .letS _ none :: rest, e, he, u, hu => by
    have he : e ∈ stmtExprs rest := he
    exact List.mem_append_right _ (stmtUses_of_mem he u hu)
  | .letS pattern (some init) :: rest, e, he, u, hu => by
    rcases List.mem_cons.mp he with rfl | he
    · exact List.mem_append_left _ (List.mem_append_right _ hu)
    · exact List.mem_append_right _ (stmtUses_of_mem he u hu)

theorem PureOk.of_arms : ∀ {arms : List Hair.Arm}, PureOk.arms tcx arms →
    ∀ arm ∈ arms, PurePat tcx arm.pattern ∧ PureOk.opt tcx arm.guard ∧ PureOk tcx arm.body
  | .mk pattern guard body :: rest, h, arm, harm => by
    obtain ⟨hpat, hguard, hbody, hrest⟩ := h
    rcases List.mem_cons.mp harm with rfl | harm
    · exact ⟨hpat, hguard, hbody⟩
    · exact PureOk.of_arms hrest arm harm

theorem armUses_of_mem : ∀ {arms : List Hair.Arm} {arm : Hair.Arm}, arm ∈ arms →
    ∀ u ∈ optUses tcx c arm.guard ++ exprUses tcx c arm.body, u ∈ armUses tcx c true arms
  | .mk pattern guard body :: rest, arm, harm, u, hu => by
    rcases List.mem_cons.mp harm with rfl | harm
    · refine List.mem_append_left _ ?_
      rw [if_pos rfl, List.append_assoc]
      exact List.mem_append_right _ hu
    · exact List.mem_append_right _ (armUses_of_mem harm u hu)

/-- What is extracted is in order if it is pure, and if the program has the ADTs of its fields. -/
theorem ExprExtracts.related {e : Hair.Expr} {t : St.Expr} (h : ExprExtracts tcx ids ctx e t) :
    PureOk tcx e → FieldsKnown tcx ids P (exprUses tcx c e) → Related tcx ids ctx P e t := by
  refine ExprExtracts.induct (P := fun e t => PureOk tcx e →
    FieldsKnown tcx ids P (exprUses tcx c e) → Related tcx ids ctx P e t)
    (fun e t hrule hok hknown => ?_) e t h
  have hsub : ∀ {e' : Hair.Expr} {t' : St.Expr}, PureOk tcx e' →
      (∀ u ∈ exprUses tcx c e', u ∈ exprUses tcx c e) →
      (ExprExtracts tcx ids ctx e' t' ∧ (PureOk tcx e' →
        FieldsKnown tcx ids P (exprUses tcx c e') → Related tcx ids ctx P e' t')) →
      Related tcx ids ctx P e' t' :=
    fun hok' hmem h => h.2 hok' (hknown.of_subset hmem)
  have hlist : ∀ {es : List Hair.Expr} {ts : List St.Expr}, (∀ e' ∈ es, PureOk tcx e') →
      (∀ e' ∈ es, ∀ u ∈ exprUses tcx c e', u ∈ exprUses tcx c e) →
      List.Forall₂ (fun e' t' => ExprExtracts tcx ids ctx e' t' ∧ (PureOk tcx e' →
        FieldsKnown tcx ids P (exprUses tcx c e') → Related tcx ids ctx P e' t')) es ts →
      List.Forall₂ (Related tcx ids ctx P) es ts := by
    intro es ts hoks hmem hts
    have hboth : ∀ e' ∈ es, PureOk tcx e' ∧ ∀ u ∈ exprUses tcx c e', u ∈ exprUses tcx c e :=
      fun e' he' => ⟨hoks e' he', hmem e' he'⟩
    exact ((List.forall₂_and_left _ _).mpr ⟨hboth, hts⟩).imp fun e' t' h =>
      hsub h.1.1 h.1.2 h.2
  cases hrule with
  | literal hlit => exact .intro (.literal hlit) trivial
  | unit => exact .intro .unit trivial
  | varRef hv => exact .intro (.varRef hv) trivial
  | bvNot ha hty => exact .intro (.bvNot (hsub hok (fun _ h => h) ha) hty) trivial
  | boolNot ha hty => exact .intro (.boolNot (hsub hok (fun _ h => h) ha) hty) trivial
  | neg ha hty => exact .intro (.neg (hsub hok (fun _ h => h) ha) hty) trivial
  | eq ha hb hty =>
    exact .intro (.eq (hsub hok.1 (fun _ => List.mem_append_left _) ha)
      (hsub hok.2 (fun _ => List.mem_append_right _) hb) hty) trivial
  | ne ha hb hty =>
    exact .intro (.ne (hsub hok.1 (fun _ => List.mem_append_left _) ha)
      (hsub hok.2 (fun _ => List.mem_append_right _) hb) hty) trivial
  | bvOp ha hb hty hty' hop =>
    exact .intro (.bvOp (hsub hok.1 (fun _ => List.mem_append_left _) ha)
      (hsub hok.2 (fun _ => List.mem_append_right _) hb) hty hty' hop) trivial
  | shift ha hb hty hty' hop hwiden =>
    exact .intro (.shift (hsub hok.1 (fun _ => List.mem_append_left _) ha)
      (hsub hok.2 (fun _ => List.mem_append_right _) hb) hty hty' hop hwiden) trivial
  | and ha hb hty hty' =>
    exact .intro (.and (hsub hok.1 (fun _ => List.mem_append_left _) ha)
      (hsub hok.2 (fun _ => List.mem_append_right _) hb) hty hty') trivial
  | or ha hb hty hty' =>
    exact .intro (.or (hsub hok.1 (fun _ => List.mem_append_left _) ha)
      (hsub hok.2 (fun _ => List.mem_append_right _) hb) hty hty') trivial
  | tuple hlen hts =>
    refine .intro (.tuple hlen (hlist (fun e' he' => PureOk.of_list hok he')
      (fun e' he' u hu => ?_) hts)) trivial
    exact mem_listUses.mpr ⟨e', he', hu⟩
  | tupleField ha hty =>
    refine .intro (.tupleField (hsub hok (fun _ => List.mem_append_right _) ha) hty) ?_
    intro did substs hadt
    rw [hty] at hadt
    cases hadt
  | @adtField ty lhs name a did substs constructor fieldId ha hty hsort hfield =>
    refine .intro (.adtField (hsub hok (fun _ => List.mem_append_right _) ha) hty hsort hfield) ?_
    intro did' substs' hadt
    have huse : .field did' name ∈ selectionUses lhs.ty name := by
      rw [hadt]
      exact List.mem_singleton_self _
    exact hknown did' name (List.mem_append_left _ huse)
  | @panic ty did substs arg a hitem ha =>
    refine .intro (.panic hitem (hsub (PureOk.of_list hok List.mem_cons_self) ?_ ha)) trivial
    exact fun u hu => List.mem_append_right _ (mem_listUses.mpr ⟨arg, List.mem_cons_self, hu⟩)
  | setCreation hitem hts htpe =>
    refine .intro (.setCreation hitem (hlist (fun e' he' => PureOk.of_list hok he')
      (fun e' he' u hu => ?_) hts) htpe) trivial
    exact List.mem_append_right _ (mem_listUses.mpr ⟨e', he', hu⟩)
  | @setOp ty did substs item operator set arg args a b ts hitem hop ha hb hts =>
    have hmem : ∀ e' ∈ set :: arg :: args, ∀ u ∈ exprUses tcx c e',
        u ∈ exprUses tcx c (.call ty (.fnDef did substs) (set :: arg :: args)) :=
      fun e' he' u hu => List.mem_append_right _ (mem_listUses.mpr ⟨e', he', hu⟩)
    refine .intro (.setOp hitem hop (hsub hok.1 (hmem _ List.mem_cons_self) ha)
      (hsub hok.2.1 (hmem _ (by simp)) hb) (hlist (fun e' he' => PureOk.of_list hok.2.2 he')
        (fun e' he' => hmem e' (by simp [he'])) hts)) trivial
  | @boxNew ty did substs arg args a fdId hplain hid hbox ha =>
    refine .intro (.boxNew hplain hid hbox (hsub hok.1 ?_ ha)) trivial
    exact fun u hu => List.mem_append_right _ (mem_listUses.mpr ⟨arg, List.mem_cons_self, hu⟩)
  | call hplain hid hbox htps hts =>
    refine .intro (.call hplain hid hbox htps (hlist (fun e' he' => PureOk.of_list hok he')
      (fun e' he' u hu => ?_) hts)) trivial
    exact List.mem_append_right _ (mem_listUses.mpr ⟨e', he', hu⟩)
  | @adt ty did variantIndex substs fields sort constructor argTps ts hsort hcons htps hts =>
    refine .intro (.adt hsort hcons htps (hlist (fun e' he' => ?_) (fun e' he' u hu => ?_) hts))
      trivial
    · obtain ⟨f, hf, rfl⟩ := List.mem_map.mp he'
      exact PureOk.of_fields hok (mem_sortByIndex.mp hf)
    · obtain ⟨f, hf, rfl⟩ := List.mem_map.mp he'
      exact List.mem_append_right _ (mem_fieldUses.mpr ⟨f, mem_sortByIndex.mp hf, hu⟩)
  | @block ty stmts expr last r hlast hstmts =>
    refine .intro (.block (hlast.imp fun e' he' t' ht' => ?_)
      (hstmts.imp fun e' he' t' ht' => ?_)) trivial
    · obtain rfl : expr = some e' := he'
      exact hsub hok.2 (fun _ => List.mem_append_right _) ht'
    · exact hsub (PureOk.of_stmts hok.1 e' he')
        (fun u hu => List.mem_append_left _ (stmtUses_of_mem he' u hu)) ht'
  | @ifElse ty scrutinee armTy armTy' konst guard guard' thenn elze cond t e hif ha ht he =>
    have hskipped : guardsMet scrutinee
        [.mk (.constant armTy konst) guard thenn, .mk (.wild armTy') guard' elze] = false := by
      rw [guardsMet, hif]
    obtain ⟨hguards, hokScrutinee, hokArms⟩ := id hok
    obtain ⟨-, -, hokThen, -, -, hokElse, -⟩ := id hokArms
    refine .intro (.ifElse hif (hsub hokScrutinee (fun _ => List.mem_append_left _) ha)
      (hsub hokThen (fun u hu => List.mem_append_right _ ?_) ht)
      (hsub hokElse (fun u hu => List.mem_append_right _ ?_) he))
      ⟨hguards, fun arm harm => (PureOk.of_arms hokArms arm harm).1⟩
    all_goals
      rw [hskipped]
      simp [armUses, patUses, hu]
  | @ifOnly ty scrutinee armTy armTy' konst guard guard' thenn elze cond t hif ha ht =>
    have hskipped : guardsMet scrutinee
        [.mk (.constant armTy konst) guard thenn, .mk (.wild armTy') guard' elze] = false := by
      rw [guardsMet, hif]
    obtain ⟨hguards, hokScrutinee, hokArms⟩ := id hok
    obtain ⟨-, -, hokThen, -⟩ := id hokArms
    refine .intro (.ifOnly hif (hsub hokScrutinee (fun _ => List.mem_append_left _) ha)
      (hsub hokThen (fun u hu => List.mem_append_right _ ?_) ht))
      ⟨hguards, fun arm harm => (PureOk.of_arms hokArms arm harm).1⟩
    rw [hskipped]
    simp [armUses, patUses, hu]
  | @matchE ty scrutinee arms a cases' hif ha harms =>
    have hmet : guardsMet scrutinee arms = true := by rw [guardsMet, hif]
    obtain ⟨hguards, hokScrutinee, hokArms⟩ := id hok
    have hoks := PureOk.of_arms hokArms
    have hmem : ∀ arm ∈ arms, ∀ u ∈ optUses tcx c arm.guard ++ exprUses tcx c arm.body,
        u ∈ exprUses tcx c (.matchE ty scrutinee arms) := by
      intro arm harm u hu
      rw [exprUses, hmet]
      exact List.mem_append_right _ (armUses_of_mem harm u hu)
    refine .intro (.matchE hif (hsub hokScrutinee (fun _ => List.mem_append_left _) ha) ?_)
      ⟨hguards, fun arm harm => (hoks arm harm).1⟩
    have hall : ∀ arm ∈ arms, (PureOk.opt tcx arm.guard ∧ PureOk tcx arm.body) ∧
        ∀ u ∈ optUses tcx c arm.guard ++ exprUses tcx c arm.body,
          u ∈ exprUses tcx c (.matchE ty scrutinee arms) :=
      fun arm harm => ⟨(hoks arm harm).2, hmem arm harm⟩
    refine ((List.forall₂_and_left _ _).mpr ⟨hall, harms⟩).imp fun arm m h => ?_
    obtain ⟨⟨⟨hokGuard, hokBody⟩, huses⟩, harm⟩ := h
    refine harm.imp (fun e' he' t' ht' => ?_) fun t' ht' => ?_
    · have hguard : arm.guard = some e' := he'
      rw [hguard] at hokGuard huses
      exact hsub hokGuard (fun u hu => huses u (List.mem_append_left _ hu)) ht'
    · exact hsub hokBody (fun u hu => huses u (List.mem_append_right _ hu)) ht'
  | scope ha => exact .intro (.scope (hsub hok (fun _ h => h) ha)) trivial
  | use ha => exact .intro (.use (hsub hok (fun _ h => h) ha)) trivial
  | neverToAny ha => exact .intro (.neverToAny (hsub hok (fun _ h => h) ha)) trivial
  | deref ha => exact .intro (.deref (hsub hok (fun _ h => h) ha)) trivial
  | borrow ha => exact .intro (.borrow (hsub hok (fun _ h => h) ha)) trivial

end Trees

end Stainless
