import RustStainless.Extraction.Orders
import RustStainless.Extraction.AdtImage

/-!
# Generics in two iteration orders

The `Fn`-bounded type parameters come in the order of a hash map. When their bounds are calm, any
two of them may be swapped, so any order leads to the same type parameters.
-/

namespace Stainless

open Rustc St Lib Extraction

variable {tcx : Tcx} {ids : KnownIds}

/-! ## One `Fn`-bounded parameter -/

section Hof

variable (tcx) (adtId : DefId → Xtor SymbolIdentifier)

/-- The context in which a type parameter is replaced. -/
def TyExtractionCtxt.replace (txtcx : TyExtractionCtxt) (index : Nat) (tpe : Tpe) :
    TyExtractionCtxt :=
  { txtcx with indexToTparam := txtcx.indexToTparam.insert index (.replaced tpe) }

/-- The function type for a `Fn`-bounded parameter, with the return type of its bound. -/
def hofType (txtcx : TyExtractionCtxt) (p : Nat × List Ty) (returnTy : Option Ty) : Xtor Tpe := do
  let paramTps ← extractTysWith tcx adtId txtcx p.2
  match returnTy with
  | none => Run.panic .missingFunReturn
  | some returnTy => do
    let returnTpe ← extractTyWith tcx adtId txtcx returnTy
    if txtcx.indexToTparam.contains p.1 then Run.panic .replacedTparam
    else pure (.functionType paramTps returnTpe)

theorem replaceHofParams_cons (p : Nat × List Ty) (rest : Assoc Nat (List Ty))
    (returns : Assoc Nat Ty) (txtcx : TyExtractionCtxt) :
    replaceHofParams tcx adtId (p :: rest) returns txtcx =
      hofType tcx adtId txtcx p (returns.get? p.1) >>= fun tpe =>
        replaceHofParams tcx adtId rest (returns.remove p.1) (txtcx.replace p.1 tpe) := by
  obtain ⟨index, paramTys⟩ := p
  rw [replaceHofParams, hofType, bind_assoc]
  congr 1
  funext paramTps
  cases returns.get? index with
  | none => rfl
  | some returnTy =>
    simp only [bind_assoc]
    congr 1
    funext returnTpe
    split
    · rfl
    · simp [TyExtractionCtxt.replace]

end Hof

/-! ## Contexts in another order -/

section Contexts

variable {txtcx txtcx' txtcx'' : TyExtractionCtxt}

theorem CtxAlike.refl (h : txtcx.indexToTparam.keys.Nodup) : CtxAlike txtcx txtcx :=
  ⟨rfl, .refl _, h⟩

theorem CtxAlike.trans (h : CtxAlike txtcx txtcx') (h' : CtxAlike txtcx' txtcx'') :
    CtxAlike txtcx txtcx'' :=
  ⟨h'.defId.trans h.defId, h.perm.trans h'.perm, h.nodup⟩

theorem CtxAlike.replace (h : CtxAlike txtcx txtcx') (index : Nat) (tpe : Tpe) :
    CtxAlike (txtcx.replace index tpe) (txtcx'.replace index tpe) where
  defId := h.defId
  perm := Assoc.insert_perm h.perm _ _
  nodup := Assoc.nodup_keys_insert h.nodup _ _

theorem CtxAlike.swap (h : CtxAlike txtcx txtcx') {i j : Nat} (hij : i ≠ j) (tpe tpe' : Tpe) :
    CtxAlike ((txtcx.replace i tpe).replace j tpe') ((txtcx'.replace j tpe').replace i tpe) where
  defId := h.defId
  perm := by
    refine (Assoc.insert_comm_perm _ hij _ _).trans ?_
    exact Assoc.insert_perm (Assoc.insert_perm h.perm _ _) _ _
  nodup := Assoc.nodup_keys_insert (Assoc.nodup_keys_insert h.nodup _ _) _ _

end Contexts

section Follows

theorem tysParams_append (tys tys' : List Ty) :
    tysParams tcx (tys ++ tys') = tysParams tcx tys ++ tysParams tcx tys' := by
  induction tys with
  | nil => rfl
  | cons ty tys ih => simp [tysParams, ih]

theorem tysAdts_append (tys tys' : List Ty) :
    tysAdts tcx (tys ++ tys') = tysAdts tcx tys ++ tysAdts tcx tys' := by
  induction tys with
  | nil => rfl
  | cons ty tys ih => simp [tysAdts, ih]

variable {adtId adtId' : DefId → Xtor SymbolIdentifier} {txtcx txtcx' : TyExtractionCtxt}

theorem hofType_follows (hadt : ∀ d, FollowsIn tcx ids (adtId d) (adtId' d) Eq)
    (hctx : CtxAlike txtcx txtcx') (p : Nat × List Ty) (returnTy : Option Ty) :
    FollowsIn tcx ids (hofType tcx adtId txtcx p returnTy) (hofType tcx adtId' txtcx' p returnTy)
      Eq := by
  unfold hofType
  refine (extractTysWith_follows hadt hctx p.2).bind_eq fun paramTps => ?_
  cases returnTy with
  | none => exact .panic _
  | some returnTy =>
    refine (extractTyWith_follows hadt hctx returnTy).bind_eq fun returnTpe => ?_
    rw [← Assoc.contains_perm hctx.perm]
    split
    · exact .panic _
    · exact .pure rfl

/-- The same parameters in the same order. -/
theorem replaceHofParams_follows (hadt : ∀ d, FollowsIn tcx ids (adtId d) (adtId' d) Eq) :
    ∀ (ps : Assoc Nat (List Ty)) (returns : Assoc Nat Ty) {txtcx txtcx' : TyExtractionCtxt},
    CtxAlike txtcx txtcx' → FollowsIn tcx ids (replaceHofParams tcx adtId ps returns txtcx)
      (replaceHofParams tcx adtId' ps returns txtcx') CtxAlike
  | [], _, _, _, hctx => .pure hctx
  | p :: rest, returns, txtcx, txtcx', hctx => by
    rw [replaceHofParams_cons, replaceHofParams_cons]
    refine (hofType_follows hadt hctx p _).bind_eq fun tpe => ?_
    exact replaceHofParams_follows hadt rest _ (hctx.replace p.1 tpe)

/-- A function type depends on what its bound mentions. -/
theorem hofType_congr {p : Nat × List Ty} {returnTy : Option Ty}
    (hparams : ∀ i ∈ tysParams tcx (p.2 ++ returnTy.toList),
      txtcx.indexToTparam.get? i = txtcx'.indexToTparam.get? i)
    (hindex : txtcx.indexToTparam.contains p.1 = txtcx'.indexToTparam.contains p.1) :
    hofType tcx adtId txtcx p returnTy = hofType tcx adtId txtcx' p returnTy := by
  rw [tysParams_append] at hparams
  have htys : extractTysWith tcx adtId txtcx p.2 = extractTysWith tcx adtId txtcx' p.2 :=
    extractTysWith_congr p.2 (fun _ _ => rfl) fun i hi => hparams i (List.mem_append_left _ hi)
  cases returnTy with
  | none => simp only [hofType, htys]
  | some returnTy =>
    have hty : extractTyWith tcx adtId txtcx returnTy = extractTyWith tcx adtId txtcx' returnTy :=
      extractTyWith_congr returnTy (fun _ _ => rfl) fun i hi =>
        hparams i (List.mem_append_right _ (by simpa [tysParams] using hi))
    simp only [hofType, htys, hty, hindex]

theorem hofType_steady {ids : KnownIds} (hid : ∀ d, ids d ≠ none → Steady ids (adtId d))
    {p : Nat × List Ty} {returnTy : Option Ty}
    (hadts : ∀ d ∈ tysAdts tcx (p.2 ++ returnTy.toList), ids d ≠ none) :
    Steady ids (hofType tcx adtId txtcx p returnTy) := by
  simp only [tysAdts_append, List.mem_append] at hadts
  refine .bind (extractTysWith_steady hid p.2 fun d hd => hadts d (.inl hd)) fun paramTps => ?_
  cases returnTy with
  | none => exact .panic _
  | some returnTy =>
    have hret : ∀ d ∈ tyAdts tcx returnTy, ids d ≠ none := fun d hd =>
      hadts d (.inr (by simpa [tysAdts] using hd))
    refine .bind (extractTyWith_steady hid returnTy hret) fun _ => ?_
    split
    · exact .panic _
    · exact .pure _

end Follows

/-! ## Swapping -/

section Swap

variable {α β γ : Type}

theorem Alike.diags {s t : Extraction} (h : Alike ids s t) (ds ds' : List Diag) :
    Alike ids { s with diags := ds } { t with diags := ds' } :=
  ⟨h.mapping, h.adts, h.functionRefs, h.functions, h.known⟩

/-- A steady computation may be put behind any other. -/
theorem Steady.swap {x : Xtor α} {y y' : Xtor β} {f g : α → β → Xtor γ} {Q : γ → γ → Prop}
    (hx : Steady ids x) (hxx : FollowsIn tcx ids x x Eq) (hy : FollowsIn tcx ids y y' Eq)
    (hf : ∀ a b, FollowsIn tcx ids (f a b) (g a b) Q) :
    FollowsIn tcx ids (x >>= fun a => y >>= fun b => f a b)
      (y' >>= fun b => x >>= fun a => g a b) Q := by
  intro s c s'' h
  obtain ⟨a, s₁, h1, h⟩ := Run.bind_ok.mp h
  obtain ⟨b, s₂, h2, h3⟩ := Run.bind_ok.mp h
  obtain ⟨hgrow₁, -⟩ := hxx s a s₁ h1
  obtain ⟨hgrow₂, hrun₂⟩ := hy s₁ b s₂ h2
  obtain ⟨hgrow₃, hrun₃⟩ := hf a b s₂ c s'' h3
  refine ⟨hgrow₁.trans (hgrow₂.trans hgrow₃), fun hgood t ht => ?_⟩
  rcases hx with ⟨a', ms, hx⟩ | ⟨e, hx⟩
  · obtain ⟨rfl, rfl⟩ := Prod.mk.inj (Except.ok.inj ((hx s ht.known).symm.trans h1))
    have hgood₂ := (orderPairing tcx ids).good_of_grows hgrow₃ hgood
    obtain ⟨_, t₁, hy', ht₁, rfl⟩ := hrun₂ hgood₂ t (ht.diags _ t.diags)
    obtain ⟨d, t₂, hg, ht₂, hQ⟩ := hrun₃ hgood _ (ht₁.diags s₂.diags (t₁.diags ++ ms))
    exact ⟨d, t₂, (Run.bind_eq hy').trans ((Run.bind_eq (hx t₁ ht₁.knows)).trans hg), ht₂, hQ⟩
  · rw [hx s ht.known] at h1
    cases h1

/-- A steady computation may be put before any other. -/
theorem Steady.swap' {x : Xtor α} {y y' : Xtor β} {f g : α → β → Xtor γ} {Q : γ → γ → Prop}
    (hx : Steady ids x) (hxx : FollowsIn tcx ids x x Eq) (hy : FollowsIn tcx ids y y' Eq)
    (hf : ∀ a b, FollowsIn tcx ids (f a b) (g a b) Q) :
    FollowsIn tcx ids (y >>= fun b => x >>= fun a => f a b)
      (x >>= fun a => y' >>= fun b => g a b) Q := by
  intro s c s'' h
  obtain ⟨b, s₁, h1, h⟩ := Run.bind_ok.mp h
  obtain ⟨a, s₂, h2, h3⟩ := Run.bind_ok.mp h
  obtain ⟨hgrow₁, hrun₁⟩ := hy s b s₁ h1
  obtain ⟨hgrow₂, -⟩ := hxx s₁ a s₂ h2
  obtain ⟨hgrow₃, hrun₃⟩ := hf a b s₂ c s'' h3
  refine ⟨hgrow₁.trans (hgrow₂.trans hgrow₃), fun hgood t ht => ?_⟩
  have hknown₁ : Knows ids s₁ := ht.known.grows hgrow₁
  rcases hx with ⟨a', ms, hx⟩ | ⟨e, hx⟩
  · obtain ⟨rfl, rfl⟩ := Prod.mk.inj (Except.ok.inj ((hx s₁ hknown₁).symm.trans h2))
    have hgood₁ := (orderPairing tcx ids).good_of_grows (hgrow₂.trans hgrow₃) hgood
    obtain ⟨_, t₁, hy', ht₁, rfl⟩ := hrun₁ hgood₁ _ (ht.diags s.diags (t.diags ++ ms))
    obtain ⟨d, t₂, hg, ht₂, hQ⟩ := hrun₃ hgood _ (ht₁.diags _ t₁.diags)
    exact ⟨d, t₂, (Run.bind_eq (hx t ht.knows)).trans ((Run.bind_eq hy').trans hg), ht₂, hQ⟩
  · rw [hx s₁ hknown₁] at h2
    cases h2

/-- Runs follow each other in a chain. -/
theorem FollowsIn.trans {x y z : Xtor α} {Q Q' : α → α → Prop}
    (hxy : FollowsIn tcx ids x y Q) (hyz : FollowsIn tcx ids y z Q') :
    FollowsIn tcx ids x z fun a c => ∃ b, Q a b ∧ Q' b c := by
  intro s a s' hx
  obtain ⟨hgrow, hrun⟩ := hxy s a s' hx
  refine ⟨hgrow, fun hgood t ht => ?_⟩
  obtain ⟨b, u, hy, hu, hQ⟩ := hrun hgood s ⟨rfl, rfl, rfl, rfl, ht.known⟩
  have hgood' : EndsCalm tcx u :=
    ⟨fun d a hd ha => hgood.met d a (by rwa [← hu.didId]) ha, hu.functionRefs ▸ hgood.generics,
      hu.functionRefs ▸ hgood.external⟩
  obtain ⟨c, t', hz, ht', hQ'⟩ := (hyz s b u hy).2 hgood' t ht
  refine ⟨c, t', hz, ?_, b, hQ, hQ'⟩
  exact ⟨ht'.mapping.trans hu.mapping, ht'.adts.trans hu.adts,
    ht'.functionRefs.trans hu.functionRefs, ht'.functions.trans hu.functions, hu.known⟩

end Swap

/-! ## All `Fn`-bounded parameters -/

/-- Parameters that may be replaced in any order. `known` holds the indices of all of them. -/
structure HofFree (tcx : Tcx) (ids : KnownIds) (known : List Nat) (returnTys : Nat → Option Ty)
    (ps : Assoc Nat (List Ty)) : Prop where
  indices : ∀ p ∈ ps, p.1 ∈ known
  nodup : ps.keys.Nodup
  apart : ∀ p ∈ ps, ∀ i ∈ tysParams tcx (p.2 ++ (returnTys p.1).toList), i ∉ known
  adts : ps.Pairwise fun p q =>
    (∀ d ∈ tysAdts tcx (p.2 ++ (returnTys p.1).toList), ids d ≠ none) ∨
      ∀ d ∈ tysAdts tcx (q.2 ++ (returnTys q.1).toList), ids d ≠ none

section Perm

variable {known : List Nat} {returnTys : Nat → Option Ty}

theorem HofFree.tail {p : Nat × List Ty} {ps : Assoc Nat (List Ty)}
    (h : HofFree tcx ids known returnTys (p :: ps)) : HofFree tcx ids known returnTys ps where
  indices := fun q hq => h.indices q (List.mem_cons_of_mem _ hq)
  nodup := (List.nodup_cons.mp h.nodup).2
  apart := fun q hq => h.apart q (List.mem_cons_of_mem _ hq)
  adts := (List.pairwise_cons.mp h.adts).2

theorem HofFree.perm {ps ps' : Assoc Nat (List Ty)} (h : HofFree tcx ids known returnTys ps)
    (hp : ps.Perm ps') : HofFree tcx ids known returnTys ps' where
  indices := fun q hq => h.indices q (hp.mem_iff.mpr hq)
  nodup := ((hp.map Prod.fst).nodup_iff).mp h.nodup
  apart := fun q hq => h.apart q (hp.mem_iff.mpr hq)
  adts := (hp.pairwise_iff fun h => h.symm).mp h.adts

/-- The return types that are left over for the other parameters. -/
theorem HofFree.returns_tail {p : Nat × List Ty} {ps : Assoc Nat (List Ty)}
    {returns : Assoc Nat Ty} (h : HofFree tcx ids known returnTys (p :: ps))
    (hret : ∀ q ∈ p :: ps, returns.get? q.1 = returnTys q.1) :
    ∀ q ∈ ps, (returns.remove p.1).get? q.1 = returnTys q.1 := by
  intro q hq
  have hne : q.1 ≠ p.1 := by
    intro heq
    exact (List.nodup_cons.mp h.nodup).1 (heq ▸ List.mem_map_of_mem hq)
  rw [Assoc.get?_remove_of_ne hne, hret q (List.mem_cons_of_mem _ hq)]

variable {adtId adtId' : DefId → Xtor SymbolIdentifier}

/-- A parameter of another kind may be replaced before. -/
theorem HofFree.hofType_replace {p q : Nat × List Ty} {ps : Assoc Nat (List Ty)}
    (h : HofFree tcx ids known returnTys (q :: p :: ps)) (txtcx : TyExtractionCtxt) (tpe : Tpe) :
    hofType tcx adtId (txtcx.replace q.1 tpe) p (returnTys p.1) =
      hofType tcx adtId txtcx p (returnTys p.1) := by
  have hne : q.1 ≠ p.1 := by
    intro heq
    exact (List.nodup_cons.mp h.nodup).1 (heq ▸ List.mem_cons_self)
  have hq : q.1 ∈ known := h.indices q List.mem_cons_self
  refine hofType_congr (fun i hi => ?_) (Assoc.contains_insert_of_ne hne _)
  have hi' : i ∉ known := h.apart p (by simp) i hi
  have hqi : q.1 ≠ i := fun heq => hi' (heq ▸ hq)
  rw [TyExtractionCtxt.replace, Assoc.get?_insert, if_neg hqi]

/-- Two parameters next to each other may be replaced in either order. -/
theorem HofFree.swap (hid : ∀ d, ids d ≠ none → Steady ids (adtId d))
    (hself : ∀ d, FollowsIn tcx ids (adtId d) (adtId d) Eq)
    {p q : Nat × List Ty} {ps : Assoc Nat (List Ty)}
    (h : HofFree tcx ids known returnTys (q :: p :: ps)) {returns : Assoc Nat Ty}
    (hret : ∀ r ∈ q :: p :: ps, returns.get? r.1 = returnTys r.1)
    {txtcx txtcx' : TyExtractionCtxt} (hctx : CtxAlike txtcx txtcx') :
    FollowsIn tcx ids (replaceHofParams tcx adtId (q :: p :: ps) returns txtcx)
      (replaceHofParams tcx adtId (p :: q :: ps) returns txtcx') CtxAlike := by
  have h' : HofFree tcx ids known returnTys (p :: q :: ps) := h.perm (.swap p q ps)
  have hret' : ∀ r ∈ p :: q :: ps, returns.get? r.1 = returnTys r.1 := fun r hr =>
    hret r ((List.Perm.swap p q ps).mem_iff.mpr hr)
  have hne : q.1 ≠ p.1 := by
    intro heq
    exact (List.nodup_cons.mp h.nodup).1 (heq ▸ List.mem_cons_self)
  have hq := hret q (by simp)
  have hp := hret p (by simp)
  have hp₁ := h.returns_tail hret p (by simp)
  have hq₁ := h'.returns_tail hret' q (by simp)
  have hunfold : ∀ c, replaceHofParams tcx adtId (q :: p :: ps) returns c =
      hofType tcx adtId c q (returnTys q.1) >>= fun tq =>
        hofType tcx adtId c p (returnTys p.1) >>= fun tp =>
          replaceHofParams tcx adtId ps ((returns.remove q.1).remove p.1)
            ((c.replace q.1 tq).replace p.1 tp) := by
    intro c
    simp only [replaceHofParams_cons, hq, hp₁, h.hofType_replace]
  have hunfold' : ∀ c, replaceHofParams tcx adtId (p :: q :: ps) returns c =
      hofType tcx adtId c p (returnTys p.1) >>= fun tp =>
        hofType tcx adtId c q (returnTys q.1) >>= fun tq =>
          replaceHofParams tcx adtId ps ((returns.remove q.1).remove p.1)
            ((c.replace p.1 tp).replace q.1 tq) := by
    intro c
    simp only [replaceHofParams_cons, hp, hq₁, h'.hofType_replace, Assoc.remove_comm]
  have hrest : ∀ tq tp, FollowsIn tcx ids
      (replaceHofParams tcx adtId ps ((returns.remove q.1).remove p.1)
        ((txtcx.replace q.1 tq).replace p.1 tp))
      (replaceHofParams tcx adtId ps ((returns.remove q.1).remove p.1)
        ((txtcx'.replace p.1 tp).replace q.1 tq)) CtxAlike := fun tq tp =>
    replaceHofParams_follows hself ps _ (hctx.swap hne tq tp)
  rw [hunfold, hunfold']
  rcases (List.pairwise_cons.mp h.adts).1 p (by simp) with hno | hno
  · have hx : hofType tcx adtId txtcx' q (returnTys q.1) =
        hofType tcx adtId txtcx q (returnTys q.1) :=
      hofType_congr (fun i _ => (hctx.get? i).symm) (Assoc.contains_perm hctx.perm _).symm
    rw [hx]
    exact Steady.swap (hofType_steady hid hno) (hofType_follows hself (.refl hctx.nodup) q _)
      (hofType_follows hself hctx p _) hrest
  · have hx : hofType tcx adtId txtcx' p (returnTys p.1) =
        hofType tcx adtId txtcx p (returnTys p.1) :=
      hofType_congr (fun i _ => (hctx.get? i).symm) (Assoc.contains_perm hctx.perm _).symm
    rw [hx]
    exact Steady.swap' (hofType_steady hid hno) (hofType_follows hself (.refl hctx.nodup) p _)
      (hofType_follows hself hctx q _) fun tp tq => hrest tq tp

/-- The induction is on how the one order is turned into the other. -/
theorem replaceHofParams_perm (hid : ∀ d, ids d ≠ none → Steady ids (adtId d))
    (hself : ∀ d, FollowsIn tcx ids (adtId d) (adtId d) Eq)
    {ps ps' : Assoc Nat (List Ty)} (hperm : ps.Perm ps') :
    HofFree tcx ids known returnTys ps → ∀ {returns : Assoc Nat Ty},
    (∀ p ∈ ps, returns.get? p.1 = returnTys p.1) → ∀ {txtcx txtcx' : TyExtractionCtxt},
    CtxAlike txtcx txtcx' → FollowsIn tcx ids (replaceHofParams tcx adtId ps returns txtcx)
      (replaceHofParams tcx adtId ps' returns txtcx') CtxAlike := by
  induction hperm with
  | nil => exact fun _ _ _ _ _ hctx => .pure hctx
  | cons p _ ih =>
    intro h returns hret txtcx txtcx' hctx
    rw [replaceHofParams_cons, replaceHofParams_cons]
    refine (hofType_follows hself hctx p _).bind_eq fun tpe => ?_
    exact ih h.tail (h.returns_tail hret) (hctx.replace p.1 tpe)
  | swap p q ps => exact fun h _ hret _ _ hctx => h.swap hid hself hret hctx
  | trans hp₁ _ ih₁ ih₂ =>
    intro h returns hret txtcx txtcx' hctx
    have hmid := ih₁ h hret (.refl hctx.nodup)
    have hlast := ih₂ (h.perm hp₁) (fun p hp => hret p (hp₁.mem_iff.mpr hp)) hctx
    refine (hmid.trans hlast).mono fun c c'' hc => ?_
    obtain ⟨c', h1, h2⟩ := hc
    exact h1.trans h2

end Perm

/-! ## The generics of a definition -/

section Generics

theorem scanPredicates_steady {ids : KnownIds} : ∀ (ps : List Predicate) (bounds : FunBounds),
    Steady ids (scanPredicates tcx ps bounds) := by
  intro ps bounds
  fun_induction scanPredicates tcx ps bounds
  all_goals first | assumption | exact .pure _ | exact .panic _ | skip
  all_goals exact .bind (report_steady _) fun _ => by assumption

theorem extractTparams_follows (bounds : FunBounds) :
    ∀ (params : List GenericParamDef) (m : Assoc Nat TyParam),
    FollowsIn tcx ids (extractTparams tcx bounds params m) (extractTparams tcx bounds params m) Eq
  | [], m => .pure rfl
  | param :: rest, m => by
    rw [extractTparams]
    cases param.kind with
    | type =>
      dsimp only
      split
      · exact extractTparams_follows bounds rest m
      · exact (getOrRegisterDef_follows _).bind_eq fun _ => extractTparams_follows bounds rest _
    | lifetime | const =>
      exact (unsupported_follows _).bind_eq fun _ => extractTparams_follows bounds rest m

/-- What a scan of the bounds of a definition finds. -/
structure BoundsOf (tcx : Tcx) (d : DefId) (bounds : FunBounds) : Prop where
  params : bounds.params = funParamsOf tcx (tcx.predicatesOf d)
  returns : bounds.returns = funReturnsOf tcx (tcx.predicatesOf d)
  nodup : bounds.params.keys.Nodup

theorem scanPredicates_bounds {d : DefId} {bounds : FunBounds} {s s' : Extraction}
    (h : scanPredicates tcx (tcx.predicatesOf d) { params := [], returns := [] } s =
      .ok (bounds, s')) : BoundsOf tcx d bounds := by
  have hscan := scanPredicates_ok _ h
  exact ⟨by simpa using hscan.params, by simpa using hscan.returns,
    hscan.params_nodup (by simp [Assoc.keys])⟩

/-- The definitions among the type parameters of a context. -/
def extractedDefs (m : Assoc Nat TyParam) : List TypeParameterDef :=
  m.values.filterMap TyParam.toDef

theorem extractedDefs_perm {m n : Assoc Nat TyParam} (h : m.Perm n) :
    (extractedDefs m).Perm (extractedDefs n) := (h.map Prod.snd).filterMap _

theorem extractedDefs_cons (e : Nat × TyParam) (m : Assoc Nat TyParam) :
    extractedDefs (e :: m) = e.2.toDef.toList ++ extractedDefs m := by
  unfold extractedDefs Assoc.values
  rw [List.map_cons, List.filterMap_cons]
  cases e.2.toDef <;> rfl

theorem extractedDefs_map_replaced (i : Nat) (tpe : Tpe) (m : Assoc Nat TyParam) :
    (extractedDefs (m.map fun e => if e.1 = i then (i, .replaced tpe) else e)).length ≤
      (extractedDefs m).length := by
  induction m with
  | nil => exact Nat.le_refl _
  | cons e m ih =>
    rw [List.map_cons, extractedDefs_cons, extractedDefs_cons, List.length_append,
      List.length_append]
    refine Nat.add_le_add ?_ ih
    by_cases he : e.1 = i
    · rw [if_pos he]
      exact Nat.zero_le _
    · rw [if_neg he]

/-- A function type is no definition. -/
theorem extractedDefs_replaced (i : Nat) (tpe : Tpe) (m : Assoc Nat TyParam) :
    (extractedDefs (m.insert i (.replaced tpe))).length ≤ (extractedDefs m).length := by
  unfold Assoc.insert
  split
  · exact extractedDefs_map_replaced i tpe m
  · unfold extractedDefs Assoc.values
    rw [List.map_append, List.filterMap_append, List.length_append]
    exact Nat.le_refl _

/-- At most as many type parameters are stored as there are plain ones. -/
theorem extractTparams_length {bounds : FunBounds} {d : DefId}
    (hbounds : bounds.params = funParamsOf tcx (tcx.predicatesOf d)) :
    ∀ (params : List GenericParamDef) {m m' : Assoc Nat TyParam} {s s' : Extraction},
    extractTparams tcx bounds params m s = .ok (m', s') → m'.length ≤ m.length +
      (params.filter fun p => p.kind = .type && !isFunParam tcx d p.index).length := by
  intro params
  induction params with
  | nil =>
    intro m m' s s' h
    obtain ⟨rfl, -⟩ := Run.pure_ok.mp h
    exact Nat.le_refl _
  | cons p params ih =>
    intro m m' s s' h
    have hfun : isFunParam tcx d p.index = bounds.params.contains p.index := by
      rw [hbounds]
      rfl
    rw [extractTparams] at h
    rw [List.filter_cons, hfun]
    cases hk : p.kind with
    | type =>
      simp only [hk] at h
      split at h
      · next hc =>
        simpa [hc] using ih h
      · next hc =>
        obtain ⟨id, s₁, -, h⟩ := Run.bind_ok.mp h
        have hle := ih h
        have hins := Assoc.length_insert_le m p.index (.extracted { id := id, flags := [] })
        simp only [hc, decide_true, Bool.not_false, Bool.and_self, if_true, List.length_cons]
        omega
    | lifetime | const =>
      simp only [hk] at h
      obtain ⟨_, s₁, -, h⟩ := Run.bind_ok.mp h
      simpa using ih h

theorem extractTparams_nodup {bounds : FunBounds} : ∀ (params : List GenericParamDef)
    {m m' : Assoc Nat TyParam} {s s' : Extraction},
    extractTparams tcx bounds params m s = .ok (m', s') → m.keys.Nodup → m'.keys.Nodup := by
  intro params
  induction params with
  | nil =>
    intro m m' s s' h hm
    obtain ⟨rfl, -⟩ := Run.pure_ok.mp h
    exact hm
  | cons p params ih =>
    intro m m' s s' h hm
    rw [extractTparams] at h
    cases hk : p.kind with
    | type =>
      simp only [hk] at h
      split at h
      · exact ih h hm
      · obtain ⟨id, s₁, -, h⟩ := Run.bind_ok.mp h
        exact ih h (Assoc.nodup_keys_insert hm _ _)
    | lifetime | const =>
      simp only [hk] at h
      obtain ⟨_, s₁, -, h⟩ := Run.bind_ok.mp h
      exact ih h hm

/-- What the context holds before the `Fn`-bounded parameters are replaced. -/
structure PlainTparams (tcx : Tcx) (d : DefId) (m : Assoc Nat TyParam) : Prop where
  nodup : m.keys.Nodup
  length : m.length ≤ (plainParamsOf tcx d).length

theorem extractTparams_plain {d : DefId} {bounds : FunBounds} (hbounds : BoundsOf tcx d bounds)
    {m : Assoc Nat TyParam} {s s' : Extraction}
    (h : extractTparams tcx bounds (allGenericParamsOf tcx d) [] s = .ok (m, s')) :
    PlainTparams tcx d m where
  nodup := extractTparams_nodup _ h (by simp [Assoc.keys])
  length := by simpa [plainParamsOf] using extractTparams_length hbounds.params _ h

theorem replaceHofParams_defs {adtId : DefId → Xtor SymbolIdentifier} :
    ∀ (ps : Assoc Nat (List Ty)) {returns : Assoc Nat Ty} {txtcx txtcx' : TyExtractionCtxt}
    {s s' : Extraction}, replaceHofParams tcx adtId ps returns txtcx s = .ok (txtcx', s') →
    txtcx'.defId = txtcx.defId ∧
      (extractedDefs txtcx'.indexToTparam).length ≤ (extractedDefs txtcx.indexToTparam).length := by
  intro ps
  induction ps with
  | nil =>
    intro returns txtcx txtcx' s s' h
    obtain ⟨rfl, -⟩ := Run.pure_ok.mp h
    exact ⟨rfl, Nat.le_refl _⟩
  | cons p ps ih =>
    intro returns txtcx txtcx' s s' h
    rw [replaceHofParams_cons] at h
    obtain ⟨tpe, s₁, -, h⟩ := Run.bind_ok.mp h
    obtain ⟨hdef, hlen⟩ := ih h
    exact ⟨hdef, hlen.trans (extractedDefs_replaced _ _ _)⟩

theorem tparamDefs_perm (o : IterOrder HashSite) {txtcx txtcx' : TyExtractionCtxt}
    (h : CtxAlike txtcx txtcx') (hlen : (extractedDefs txtcx.indexToTparam).length ≤ 1) :
    tparamDefs tcx txtcx = tparamDefs (tcx.withOrder o) txtcx' := by
  have hperm : (tparamDefs tcx txtcx).Perm (extractedDefs txtcx.indexToTparam) :=
    (tcx.iterOrder.perm _ _).filterMap _
  have hperm' : (tparamDefs (tcx.withOrder o) txtcx').Perm (extractedDefs txtcx.indexToTparam) :=
    ((o.perm _ _).filterMap _).trans (extractedDefs_perm h.perm).symm
  match hl : extractedDefs txtcx.indexToTparam, hlen with
  | [], _ =>
    rw [hl] at hperm hperm'
    rw [hperm.eq_nil, hperm'.eq_nil]
  | [tp], _ =>
    rw [hl] at hperm hperm'
    rw [List.perm_singleton.mp hperm, List.perm_singleton.mp hperm']

variable {adtId adtId' : DefId → Xtor SymbolIdentifier}

theorem hofFree_of_apart {ids : KnownIds} {d : DefId}
    (hnodup : (funParamsOf tcx (tcx.predicatesOf d)).keys.Nodup)
    (hapart : ∀ p ∈ funParamsOf tcx (tcx.predicatesOf d), ∀ i ∈ tysParams tcx (boundTys tcx d p),
      isFunParam tcx d i = false)
    (hadts : (funParamsOf tcx (tcx.predicatesOf d)).Pairwise fun p q =>
      (∀ a ∈ tysAdts tcx (boundTys tcx d p), ids a ≠ none) ∨
        ∀ a ∈ tysAdts tcx (boundTys tcx d q), ids a ≠ none) :
    HofFree tcx ids (funParamsOf tcx (tcx.predicatesOf d)).keys
      (funReturnsOf tcx (tcx.predicatesOf d)).get? (funParamsOf tcx (tcx.predicatesOf d)) where
  indices := fun p hp => List.mem_map_of_mem hp
  nodup := hnodup
  apart := by
    intro p hp i hi hmem
    have hfun : isFunParam tcx d i = true := Assoc.get?_isSome_iff.mpr hmem
    rw [hapart p hp i hi] at hfun
    cases hfun
  adts := hadts

/-- The contexts of the two runs, and their type parameters if there is at most one. -/
structure GenericsAlike (tcx : Tcx) (d : DefId) (a b : List TypeParameterDef × TyExtractionCtxt) :
    Prop where
  ctx : CtxAlike a.2 b.2
  defId : a.2.defId = d
  tparams : (plainParamsOf tcx d).length ≤ 1 → a.1 = b.1

theorem replaceHofParams_withOrder (o : IterOrder HashSite) : ∀ (ps : Assoc Nat (List Ty))
    (returns : Assoc Nat Ty) (txtcx : TyExtractionCtxt),
    replaceHofParams (tcx.withOrder o) adtId ps returns txtcx =
      replaceHofParams tcx adtId ps returns txtcx
  | [], _, _ => rfl
  | p :: ps, returns, txtcx => by
    simp only [replaceHofParams_cons, hofType, extractTysWith_withOrder, extractTyWith_withOrder,
      replaceHofParams_withOrder o ps]

section

variable {known : DefId → Prop} {d : DefId} (o : IterOrder HashSite)
  (hknown : ∀ a, known a → ids a ≠ none) (hcalm : BoundsCalm tcx known d)
  (hid : ∀ d, ids d ≠ none → Steady ids (adtId d))
  (hself : ∀ d, FollowsIn tcx ids (adtId d) (adtId d) Eq)
  (hadt : ∀ d, FollowsIn tcx ids (adtId d) (adtId' d) Eq)

include hknown hcalm hid hself hadt

theorem replaceHofParams_calm {txtcx : TyExtractionCtxt}
    (hnodup : (funParamsOf tcx (tcx.predicatesOf d)).keys.Nodup) (hctx : CtxAlike txtcx txtcx) :
    FollowsIn tcx ids
      (replaceHofParams tcx adtId (tcx.iterOrder.iter (.tparamToFunParams d)
        (funParamsOf tcx (tcx.predicatesOf d))) (funReturnsOf tcx (tcx.predicatesOf d)) txtcx)
      (replaceHofParams tcx adtId' (o.iter (.tparamToFunParams d)
        (funParamsOf tcx (tcx.predicatesOf d))) (funReturnsOf tcx (tcx.predicatesOf d)) txtcx)
      CtxAlike := by
  rcases hcalm with hlen | ⟨hapart, hadts⟩
  · rw [tcx.iterOrder.iter_of_length_le_one hlen, o.iter_of_length_le_one hlen]
    exact replaceHofParams_follows hadt _ _ hctx
  · have hfree : HofFree tcx ids _ _ (funParamsOf tcx (tcx.predicatesOf d)) :=
      hofFree_of_apart hnodup hapart (hadts.imp fun h =>
        h.imp (fun h a ha => hknown a (h a ha)) fun h a ha => hknown a (h a ha))
    have hperm := tcx.iterOrder.perm (.tparamToFunParams d) (funParamsOf tcx (tcx.predicatesOf d))
    have hperm' := o.perm (.tparamToFunParams d) (funParamsOf tcx (tcx.predicatesOf d))
    have hfirst := replaceHofParams_perm hid hself (hperm.trans hperm'.symm)
      (hfree.perm hperm.symm) (fun _ _ => rfl) hctx
    refine (hfirst.trans (replaceHofParams_follows hadt _ _ hctx)).mono fun c c'' hc => ?_
    obtain ⟨c', h1, h2⟩ := hc
    exact h1.trans h2

theorem extractGenericsWith_follows : FollowsIn tcx ids (extractGenericsWith tcx adtId d)
    (extractGenericsWith (tcx.withOrder o) adtId' d) (GenericsAlike tcx d) := by
  unfold extractGenericsWith
  rw [isClosure_withOrder, predicatesOf_withOrder, allGenericParamsOf_withOrder,
    scanPredicates_withOrder, extractTparams_withOrder]
  split
  · split
    · exact .pure ⟨.refl (by simp [Assoc.keys]), rfl, fun _ => rfl⟩
    · exact .panic _
  · have hscan : FollowsIn tcx ids (scanPredicates tcx (tcx.predicatesOf d) ⟨[], []⟩)
        (scanPredicates tcx (tcx.predicatesOf d) ⟨[], []⟩) Eq := (scanPredicates_steady _ _).follows
    refine hscan.bind_post (fun s bounds s' h => scanPredicates_bounds h) fun bounds hbounds => ?_
    refine (extractTparams_follows bounds _ _).bind_post
      (fun s m s' h => extractTparams_plain hbounds h) fun m hm => ?_
    rw [hbounds.params, hbounds.returns, replaceHofParams_withOrder, iterOrder_withOrder]
    have hctx : CtxAlike ⟨d, m⟩ ⟨d, m⟩ := .refl hm.nodup
    refine ((replaceHofParams_calm o hknown hcalm hid hself hadt (hbounds.params ▸ hbounds.nodup)
      hctx).ensured fun s c s' h => replaceHofParams_defs _ h).bind (fun _ => .pure Grows.refl _)
      fun c c' hc => .pure ?_
    obtain ⟨halike, hdef, hlen⟩ := hc
    refine ⟨halike, hdef, fun hplain => tparamDefs_perm o halike ?_⟩
    have hm' : (extractedDefs m).length ≤ m.length :=
      (List.length_filterMap_le _ _).trans (List.length_map _).le
    exact (hlen.trans hm').trans (hm.length.trans hplain)

end

end Generics

end Stainless
