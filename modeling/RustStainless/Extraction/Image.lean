import RustStainless.Lib.Readback
import RustStainless.Extraction.AdtImage
import RustStainless.Extraction.Expr

/-!
# What a body is extracted to

The traversal of `Extraction/Expr.lean`, answered by the ids of a state instead of by the
extraction. Where the extraction of an expression returns without an error, this image of the
expression under the ids of the final state is its result. Everything that is proved about extracted
trees is proved about images.
-/

namespace Stainless

open Rustc St Lib Extraction

/-! ## Types that are supported -/

section Supported

variable (tcx : Tcx)

mutual

/-- Nothing in the type is reported when it is extracted. -/
def tySupported : Ty → Bool
  | .bool => true
  | .int t => t.bitWidth.isSome
  | .uint t => t.bitWidth.isSome
  | .tuple tys => tysSupported tys && tys.length != 1
  | .adt did substs =>
    if tcx.isBigint did then true
    else if tcx.isBox did then tySupportedAt0 substs
    else if tcx.stdItems.defToItemOpt did = some .setType then tySupportedAt0 substs
    else tysSupported substs
  | .ref ty .not => tySupported ty
  | .param _ => true
  | .ref _ .mut | .char | .str | .never | .fnDef _ _ | .closure _ _ | .other _ => false

def tysSupported : List Ty → Bool
  | [] => true
  | ty :: tys => tySupported ty && tysSupported tys

def tySupportedAt0 : List Ty → Bool
  | [] => false
  | ty :: _ => tySupported ty

end

end Supported

section

variable {tcx : Tcx}

theorem spanErr_not_fine {msg : String} {s s' : Extraction} {u : Unit}
    (h : spanErr msg s = .ok (u, s')) : ¬ s'.NoErrors := by
  rw [spanErr, report_ok] at h
  intro hn
  have := hn (.error msg) (by simp [h])
  simp [Diag.isError] at this

theorem unsupported_not_fine {msg : String} {s s' : Extraction} {u : Unit}
    (h : unsupported msg s = .ok (u, s')) : ¬ s'.NoErrors := spanErr_not_fine h

theorem extractTysWith_length {adtId : DefId → Xtor SymbolIdentifier} {txtcx : TyExtractionCtxt} :
    ∀ (tys : List Ty) {s s' : Extraction} {ts : List Tpe},
    extractTysWith tcx adtId txtcx tys s = .ok (ts, s') → ts.length = tys.length := by
  intro tys
  induction tys with
  | nil =>
    intro s s' ts h
    rw [← (Run.pure_ok.mp h).1]
    rfl
  | cons ty tys ih =>
    intro s s' ts h
    rw [extractTysWith] at h
    obtain ⟨t, s₁, h1, h2⟩ := Run.bind_ok.mp h
    obtain ⟨us, s₂, h3, h4⟩ := Run.bind_ok.mp h2
    rw [← (Run.pure_ok.mp h4).1, List.length_cons, List.length_cons, ih h3]

variable {adtId : DefId → Xtor SymbolIdentifier} (txtcx : TyExtractionCtxt)

mutual

theorem extractTyWith_supported (hadt : ∀ d, Run.MovesBy (adtRel tcx) {d} (adtId d)) :
    ∀ (ty : Ty) {s s' : Extraction} {t : Tpe}, extractTyWith tcx adtId txtcx ty s = .ok (t, s') →
    s'.NoErrors → tySupported tcx ty = true
  | .bool, _, _, _, _, _ | .param _, _, _, _, _, _ => rfl
  | .int w, s, s', t, h, hn | .uint w, s, s', t, h, hn => by
    rw [extractTyWith] at h
    cases hw : w.bitWidth with
    | some size => simp [tySupported, hw]
    | none =>
      rw [hw] at h
      obtain ⟨_, _, h1, h2⟩ := Run.bind_ok.mp h
      rw [← (Run.pure_ok.mp h2).2] at hn
      exact absurd hn (unsupported_not_fine h1)
  | .tuple tys, s, s', t, h, hn => by
    rw [extractTyWith] at h
    obtain ⟨tpes, s₁, h1, h2⟩ := Run.bind_ok.mp h
    have hlen := extractTysWith_length tys h1
    match tpes, hlen, h2 with
    | [], hlen, h2 =>
      rw [← (Run.pure_ok.mp h2).2] at hn
      simp [tySupported, extractTysWith_supported hadt tys h1 hn, ← hlen]
    | [_], hlen, h2 =>
      obtain ⟨_, _, h3, h4⟩ := Run.bind_ok.mp h2
      rw [← (Run.pure_ok.mp h4).2] at hn
      exact absurd hn (unsupported_not_fine h3)
    | _ :: _ :: _, hlen, h2 =>
      rw [← (Run.pure_ok.mp h2).2] at hn
      simp [tySupported, extractTysWith_supported hadt tys h1 hn, ← hlen]
  | .adt did substs, s, s', t, h, hn => by
    rw [extractTyWith] at h
    rw [tySupported]
    split
    · rfl
    · next hb =>
      rw [if_neg hb] at h
      split
      · next hx =>
        rw [if_pos hx] at h
        exact extractTyAt0_supported hadt substs h hn
      · next hx =>
        rw [if_neg hx] at h
        split
        · next hs =>
          rw [if_pos hs] at h
          obtain ⟨_, s₁, h1, h2⟩ := Run.bind_ok.mp h
          rw [← (Run.pure_ok.mp h2).2] at hn
          exact extractTyAt0_supported hadt substs h1 hn
        · next hs =>
          rw [if_neg hs] at h
          obtain ⟨_, s₁, -, h2⟩ := Run.bind_ok.mp h
          obtain ⟨_, s₂, h3, h4⟩ := Run.bind_ok.mp h2
          rw [← (Run.pure_ok.mp h4).2] at hn
          exact extractTysWith_supported hadt substs h3 hn
  | .ref ty .not, s, s', t, h, hn => by
    rw [extractTyWith] at h
    rw [tySupported]
    exact extractTyWith_supported hadt ty h hn
  | .ref _ .mut, s, s', t, h, hn | .char, s, s', t, h, hn | .str, s, s', t, h, hn
  | .never, s, s', t, h, hn | .fnDef _ _, s, s', t, h, hn | .closure _ _, s, s', t, h, hn
  | .other _, s, s', t, h, hn => by
    simp only [extractTyWith] at h
    obtain ⟨_, _, h1, h2⟩ := Run.bind_ok.mp h
    rw [← (Run.pure_ok.mp h2).2] at hn
    exact absurd hn (unsupported_not_fine h1)

theorem extractTysWith_supported (hadt : ∀ d, Run.MovesBy (adtRel tcx) {d} (adtId d)) :
    ∀ (tys : List Ty) {s s' : Extraction} {ts : List Tpe},
    extractTysWith tcx adtId txtcx tys s = .ok (ts, s') → s'.NoErrors →
    tysSupported tcx tys = true
  | [], _, _, _, _, _ => rfl
  | ty :: tys, s, s', ts, h, hn => by
    rw [extractTysWith] at h
    obtain ⟨t, s₁, h1, h2⟩ := Run.bind_ok.mp h
    obtain ⟨us, s₂, h3, h4⟩ := Run.bind_ok.mp h2
    rw [← (Run.pure_ok.mp h4).2] at hn
    have hg := (extractTysWith_movesBy txtcx hadt tys s₁ us s₂ h3).grows
    rw [tysSupported, extractTyWith_supported hadt ty h1 (hg.noErrors hn),
      extractTysWith_supported hadt tys h3 hn]
    rfl

theorem extractTyAt0_supported (hadt : ∀ d, Run.MovesBy (adtRel tcx) {d} (adtId d)) :
    ∀ (tys : List Ty) {s s' : Extraction} {t : Tpe},
    extractTyAt0 tcx adtId txtcx tys s = .ok (t, s') → s'.NoErrors →
    tySupportedAt0 tcx tys = true
  | [], _, _, _, h, _ => by simp [extractTyAt0] at h
  | ty :: _, _, _, _, h, hn => by
    rw [extractTyAt0] at h
    rw [tySupportedAt0]
    exact extractTyWith_supported hadt ty h hn

end

end

/-! ## Answers from the ids -/

/-- The ids of the definitions, as a state shows them. -/
abbrev Ids := DefId → Option SymbolIdentifier

section ImageOps

variable (tcx : Tcx) (ids : Ids)

/-- The ids of some fields. -/
def fieldsIds : List FieldDef → Option (List SymbolIdentifier)
  | [] => some []
  | f :: fs => do
    let id ← ids f.did
    let rest ← fieldsIds fs
    pure (id :: rest)

/-- The ids of some constructors. -/
def variantsIds : List VariantDef → Option (List ConstructorIds)
  | [] => some []
  | v :: vs => do
    let id ← ids v.defId
    let fields ← fieldsIds ids v.fields
    let rest ← variantsIds vs
    pure ({ id := id, fields := fields } :: rest)

/-- What the traversal reads of the sort of an ADT. -/
def adtIds (d : DefId) : Option (List ConstructorIds) := do
  let a ← tcx.adtDef d
  variantsIds ids a.variants

/-- The image of a type that is supported. -/
def suppImage (tps : Nat → Option TyParam) (ty : Ty) : Option Tpe :=
  if tySupported tcx ty then tyImage tcx ids tps ty else none

def suppImages (tps : Nat → Option TyParam) (tys : List Ty) : Option (List Tpe) :=
  if tysSupported tcx tys then tysImage tcx ids tps tys else none

/-- The answers that the ids of a state give to a traversal. An error is no answer. -/
def imageOps (ctx : BodyCtxt) : BodyOps Option where
  unsupported := fun _ => none
  panic := fun _ => none
  extractAdt := adtIds tcx ids
  extractFnRef := ids
  extractTy := suppImage tcx ids ctx.txtcx.indexToTparam.get?
  extractTys := suppImages tcx ids ctx.txtcx.indexToTparam.get?
  fetchVar := ctx.vars.get?

/-- The image of an expression. -/
def exprImage (ctx : BodyCtxt) (e : Hair.Expr) : Option St.Expr :=
  extractExprWith tcx (imageOps tcx ids ctx) e

/-- The image of a pattern. -/
def patternImage (ctx : BodyCtxt) (p : Hair.Pat) (binder : Option ValDef) : Option Pattern :=
  extractPattern (imageOps tcx ids ctx) p binder

end ImageOps

/-! ## The states of a body extraction -/

/-- A definition that is referred to as a function. -/
def IsFnLike (k : DefKind) : Prop := k = .fn ∨ k = .ctor

/--
What holds whenever a body is extracted: ids stay apart, stored sorts are those of their ADTs, and
the functions that have an id are those that were recorded as referred to.
-/
structure BodyInv (tcx : Tcx) (s : Extraction) : Prop where
  ids : IdsOk tcx s
  sorts : ∀ k sort, s.adts.get? k = some sort →
    sort.id.globalId = k ∧ ∃ d, SortImage tcx s.didId d sort
  refs : ∀ d, IsFnLike (tcx.defKind d) → s.didId d ≠ none → d ∈ s.functionRefs
  known : ∀ d ∈ s.functionRefs, s.didId d ≠ none

/-- What the extraction of a body does to the state. -/
structure BodyMoves (tcx : Tcx) (s s' : Extraction) : Prop where
  grows : Grows s s'
  inv : BodyInv tcx s → BodyInv tcx s'
  adts : s'.adts = s.adts
  functions : s'.functions = s.functions

section

variable {tcx : Tcx}

theorem BodyMoves.refl (s : Extraction) : BodyMoves tcx s s :=
  ⟨.refl s, id, rfl, rfl⟩

theorem BodyMoves.trans {s s' s'' : Extraction} (h : BodyMoves tcx s s')
    (h' : BodyMoves tcx s' s'') : BodyMoves tcx s s'' where
  grows := h.grows.trans h'.grows
  inv := fun hi => h'.inv (h.inv hi)
  adts := h'.adts.trans h.adts
  functions := h'.functions.trans h.functions

/-- Extracting types and ADTs keeps to what a body extraction may do. -/
theorem AdtMoves.bodyMoves {w : Set DefId} {s s' : Extraction} (h : AdtMoves tcx w s s') :
    BodyMoves tcx s s' where
  grows := h.grows
  inv := by
    intro hi
    refine ⟨h.ids hi.ids, ?_, ?_, ?_⟩
    · intro k sort hsort
      rw [h.adts] at hsort
      obtain ⟨hk, d, himg⟩ := hi.sorts k sort hsort
      exact ⟨hk, d, himg.mono h.grows.did⟩
    · intro d hk hd
      rw [h.functionRefs]
      by_cases hs : s.didId d = none
      · rcases h.kinds d hs hd with hk' | hk'
        · simp [hk', IsFnLike] at hk
        · rcases hk' with hk' | hk' | hk' <;> simp [hk', IsFnLike] at hk
      · exact hi.refs d hk hs
    · intro d hd
      rw [h.functionRefs] at hd
      exact h.grows.didId_ne_none (hi.known d hd)
  adts := h.adts
  functions := h.functions

theorem bodyMoves_report (m : Diag) (s : Extraction) :
    BodyMoves tcx s { s with diags := s.diags ++ [m] } := (adtMoves_report m s).bodyMoves

theorem unsupported_bodyMoves {msg : String} {u : Unit} {s s' : Extraction}
    (h : unsupported msg s = .ok (u, s')) : BodyMoves tcx s s' := by
  rw [report_ok.mp h]
  exact bodyMoves_report _ s

/-- The stored sort of an ADT is its sort. -/
theorem BodyInv.stored {s : Extraction} (hi : BodyInv tcx s) {d : DefId} {sort : ADTSort}
    (h : ((s.didId d).bind fun id => s.adts.get? id.globalId) = some sort) :
    SortImage tcx s.didId d sort := by
  obtain ⟨id, hid, hsort⟩ := Option.bind_eq_some_iff.mp h
  obtain ⟨hk, e, himg⟩ := hi.sorts _ _ hsort
  have : e = d := hi.ids.did_inj e d _ _ himg.id hid hk
  exact this ▸ himg

/-- Bodies are read back through the ids of the definitions. -/
def bodyReadback (tcx : Tcx) : Readback Extraction Ids where
  inv := BodyInv tcx
  move := BodyMoves tcx
  fine := Extraction.NoErrors
  sees := fun s ids => ∀ d id, s.didId d = some id → ids d = some id
  refl := BodyMoves.refl
  trans := BodyMoves.trans
  inv_of_move := fun h hi => h.inv hi
  fine_of_move := fun h hf => h.grows.noErrors hf
  sees_of_move := fun h hs d id hd => hs d id (h.grows.did d id hd)

/-! ## The answers agree -/

/-- The sort of an ADT shows its ids. -/
theorem SortImage.adtIds {ids : DefId → Option SymbolIdentifier} {d : DefId} {sort : ADTSort}
    (h : SortImage tcx ids d sort) : adtIds tcx ids d = some (sortIds sort) := by
  obtain ⟨a, txtcx, ha, -, -, hcons⟩ := h.shape
  have hfields : ∀ {fs : List FieldDef} {vs : List ValDef},
      List.Forall₂ (FieldImage tcx ids txtcx.indexToTparam.get?) fs vs →
      fieldsIds ids fs = some (vs.map fun v => v.v.id) := by
    intro fs vs hf
    induction hf with
    | nil => rfl
    | cons hfv _ ih => simp [fieldsIds, hfv.1, ih]
  have hvariants : ∀ {vs : List VariantDef} {cs : List ADTConstructor},
      List.Forall₂ (ConstructorImage tcx ids txtcx.indexToTparam.get? sort.id) vs cs →
      variantsIds ids vs =
        some (cs.map fun c => { id := c.id, fields := c.fields.map fun f => f.v.id }) := by
    intro vs cs hc
    induction hc with
    | nil => rfl
    | cons hvc _ ih => simp [variantsIds, hvc.id, hfields hvc.fields, ih]
  simp [Stainless.adtIds, ha, hvariants hcons, sortIds]

theorem extractAdt_readsBack (hok : TcxOk tcx) (d : DefId) :
    Run.ReadsBack (bodyReadback tcx) (extractAdt tcx d >>= fun sort => pure (sortIds sort))
      fun ids => adtIds tcx ids d := by
  intro s a s' hi h
  obtain ⟨sort, s₁, h1, h2⟩ := Run.bind_ok.mp h
  obtain ⟨rfl, rfl⟩ := Run.pure_ok.mp h2
  cases hstored : (s.didId d).bind fun id => s.adts.get? id.globalId with
  | some stored =>
    have himg := BodyInv.stored hi hstored
    have h1' : extractAdt tcx d s = .ok (stored, s) := by
      unfold extractAdt adtDepth extractAdtWith
      rw [Run.bind_eq getSort_eq, hstored]
      rfl
    rw [h1'] at h1
    obtain ⟨rfl, rfl⟩ := Prod.mk.inj (Except.ok.inj h1)
    exact ⟨.refl s, fun _ ids hs => (himg.mono hs).adtIds⟩
  | none =>
    have hex := extractAdt_fresh hok hstored h1
    exact ⟨hex.moves.bodyMoves, fun _ ids hs => (hex.image.mono hs).adtIds⟩

/-- Recording a reference to a function. -/
theorem extractFnRef_ok {d : DefId} {id : SymbolIdentifier} {s s' : Extraction} :
    extractFnRef tcx d s = .ok (id, s') ↔
      (s.didId d = some id ∧ s' = s) ∨
      (s.didId d = none ∧ d ∉ s.functionRefs ∧ id = s.defIdent tcx d ∧
        s' = { s.withDef tcx d with functionRefs := s.functionRefs ++ [d] }) := by
  unfold extractFnRef
  rw [Run.bind_eq getIdFromDef_eq]
  cases hd : s.didId d with
  | some i => simp [eq_comm]
  | none =>
    constructor
    · intro h
      obtain ⟨_, s₁, h1, h2⟩ := Run.bind_ok.mp h
      obtain ⟨hnot, rfl⟩ := addFunctionRef_ok.mp h1
      obtain ⟨-, rfl, rfl⟩ := registerDef_ok.mp h2
      exact .inr ⟨rfl, hnot, rfl, rfl⟩
    · rintro (⟨h, -⟩ | ⟨-, hnot, rfl, rfl⟩)
      · simp at h
      · simp only
        rw [Run.bind_eq (addFunctionRef_ok (u := ()) |>.mpr ⟨hnot, rfl⟩)]
        exact registerDef_eq hd

theorem extractFnRef_readsBack (d : DefId) :
    Run.ReadsBack (bodyReadback tcx) (extractFnRef tcx d) fun ids => ids d := by
  intro s id s' hi h
  rcases extractFnRef_ok.mp h with ⟨hd, rfl⟩ | ⟨hd, hnot, rfl, rfl⟩
  · exact ⟨.refl s', fun _ ids hs => hs d id hd⟩
  · have hg : Grows s { s.withDef tcx d with functionRefs := s.functionRefs ++ [d] } := by
      have : Grows s (s.withDef tcx d) := grows_withDef hd
      exact ⟨this.count, this.did, this.hid, this.adts, fun e he => List.mem_append_left _ he,
        this.functions, this.diags⟩
    have hnew : ∀ e, ({ s.withDef tcx d with functionRefs := s.functionRefs ++ [d] } :
        Extraction).didId e = if d = e then some (s.defIdent tcx d) else s.didId e :=
      withDef_didId tcx hd
    refine ⟨⟨hg, fun hi => ⟨?_, ?_, ?_, ?_⟩, rfl, rfl⟩, fun _ ids hs => ?_⟩
    · exact (hi.ids.withDef hd).of_mapping rfl
    · intro k sort hsort
      obtain ⟨hk, e, himg⟩ := hi.sorts k sort hsort
      exact ⟨hk, e, himg.mono hg.did⟩
    · intro e hk he
      rw [hnew] at he
      split at he
      · next hde => simp [hde]
      · exact List.mem_append_left _ (hi.refs e hk he)
    · intro e he
      rcases List.mem_append.mp he with he | he
      · exact hg.didId_ne_none (hi.known e he)
      · rw [List.mem_singleton.mp he, hnew, if_pos rfl]
        simp
    · exact hs d _ (by rw [hnew, if_pos rfl])

variable (hok : TcxOk tcx) (ctx : BodyCtxt)

include hok

theorem extractTy_readsBack (ty : Ty) :
    Run.ReadsBack (bodyReadback tcx) (extractTy tcx ctx.txtcx ty)
      fun ids => suppImage tcx ids ctx.txtcx.indexToTparam.get? ty := by
  intro s t s' _ h
  have hspec := extractAdtId_spec hok
  refine ⟨(extractTyWith_movesBy _ hspec.moves ty s t s' h).bodyMoves, fun hn ids hs => ?_⟩
  simp only [suppImage, extractTyWith_supported _ hspec.moves ty h hn, if_true]
  exact tyImage_mono hs (fun _ _ hp => hp) ty (extractTyWith_image _ hspec ty h)

theorem extractTys_readsBack (tys : List Ty) :
    Run.ReadsBack (bodyReadback tcx) (extractTys tcx ctx.txtcx tys)
      fun ids => suppImages tcx ids ctx.txtcx.indexToTparam.get? tys := by
  intro s ts s' _ h
  have hspec := extractAdtId_spec hok
  refine ⟨(extractTysWith_movesBy _ hspec.moves tys s ts s' h).bodyMoves, fun hn ids hs => ?_⟩
  simp only [suppImages, extractTysWith_supported _ hspec.moves tys h hn, if_true]
  exact tysImage_mono hs (fun _ _ hp => hp) tys (extractTysWith_image _ hspec tys h)

omit hok in
theorem fetchVar_readsBack (h : HirId) :
    Run.ReadsBack (bodyReadback tcx) (fetchVar ctx h) fun _ => ctx.vars.get? h := by
  unfold fetchVar
  cases hv : ctx.vars.get? h with
  | some v => exact .pure v
  | none => exact .panic _ _

omit hok in
theorem unsupported_readsBack (msg : String) (g : Ids → Option Unit) :
    Run.ReadsBack (bodyReadback tcx) (unsupported msg) g := by
  intro s _ s' _ h
  have hmoves : AdtMoves tcx ∅ s s' := unsupported_movesBy msg s () s' h
  exact ⟨hmoves.bodyMoves, fun hn => absurd hn (unsupported_not_fine h)⟩

end

end Stainless
