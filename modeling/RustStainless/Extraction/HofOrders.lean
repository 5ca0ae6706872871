import RustStainless.Lib.Requests
import RustStainless.Extraction.AdtReturns
import RustStainless.Extraction.Alike
import RustStainless.Extraction.OrderedGenerics

/-!
# The order of the `Fn`-bounded type parameters

`extract_generics` replaces the `Fn`-bounded type parameters in the order of a hash map. The bounds
are extracted in a context that is still being filled, and the ADTs that they mention get their ids
on the way. So the order is free exactly if no bound mentions another such parameter and the ADTs
come first in the same order in all bounds, as far as each goes.
-/

namespace Stainless

open Rustc St Lib Extraction

variable {tcx : Tcx}

/-! ## Diagnostics are not looked at -/

/-- The states differ in their diagnostics only. -/
def OnlyDiags (s t : Extraction) : Prop := t = { s with diags := t.diags }

theorem OnlyDiags.refl (s : Extraction) : OnlyDiags s s := rfl

theorem OnlyDiags.symm {s t : Extraction} (h : OnlyDiags s t) : OnlyDiags t s := by
  rw [OnlyDiags, h]

theorem OnlyDiags.trans {s t u : Extraction} (h : OnlyDiags s t) (h' : OnlyDiags t u) :
    OnlyDiags s u := by
  rw [OnlyDiags, h', h]

theorem OnlyDiags.didId {s t : Extraction} (h : OnlyDiags s t) : t.didId = s.didId := by
  rw [h]
  rfl

theorem onlyDiags_report (m : Diag) (s : Extraction) :
    OnlyDiags s { s with diags := s.diags ++ [m] } := rfl

/-- What `x` does, `y` does from states with other diagnostics. -/
def BlindTo {α : Type} (x y : Xtor α) : Prop :=
  ∀ s t a s', OnlyDiags s t → x s = .ok (a, s') → ∃ t', y t = .ok (a, t') ∧ OnlyDiags s' t'

theorem BlindTo.pure {α : Type} (a : α) : BlindTo (pure a : Xtor α) (pure a) := by
  intro s t b s' hst h
  obtain ⟨rfl, rfl⟩ := Run.pure_ok.mp h
  exact ⟨t, rfl, hst⟩

theorem BlindTo.bind {α β : Type} {x y : Xtor α} {f g : α → Xtor β} (hx : BlindTo x y)
    (hf : ∀ a, BlindTo (f a) (g a)) : BlindTo (x >>= f) (y >>= g) := by
  intro s t b s'' hst h
  obtain ⟨a, s', h1, h2⟩ := Run.bind_ok.mp h
  obtain ⟨t', hy, ht'⟩ := hx s t a s' hst h1
  obtain ⟨t'', hg, ht''⟩ := hf a s' t' b s'' ht' h2
  exact ⟨t'', (Run.bind_eq hy).trans hg, ht''⟩

def blindRel : MonadRel (Run Panic Extraction) (Run Panic Extraction) where
  rel := BlindTo
  pure := BlindTo.pure
  bind := BlindTo.bind

theorem BlindTo.panic {α : Type} (e : Panic) : BlindTo (Run.panic e : Xtor α) (Run.panic e) := by
  intro s t a s' _ h
  simp at h

theorem report_blind (m : Diag) : BlindTo (report m) (report m) := by
  intro s t u s' hst h
  obtain rfl := report_ok.mp h
  exact ⟨_, report_ok.mpr rfl, (onlyDiags_report m s).symm.trans (hst.trans (onlyDiags_report m t))⟩

theorem getIdFromDef_blind (d : DefId) : BlindTo (getIdFromDef d) (getIdFromDef d) := by
  intro s t id s' hst h
  cases getIdFromDef_eq.symm.trans h
  exact ⟨t, by rw [getIdFromDef_eq, hst.didId], hst⟩

theorem getSort_blind (d : DefId) : BlindTo (getSort d) (getSort d) := by
  intro s t sort s' hst h
  cases getSort_eq.symm.trans h
  exact ⟨t, by rw [getSort_eq, hst]; rfl, hst⟩

theorem registerDef_blind (d : DefId) : BlindTo (registerDef tcx d) (registerDef tcx d) := by
  intro s t id s' hst h
  obtain ⟨hd, rfl, rfl⟩ := registerDef_ok.mp h
  refine ⟨t.withDef tcx d, ?_, ?_⟩
  · rw [registerDef_eq (by rw [hst.didId, hd]), hst]
    rfl
  · rw [OnlyDiags, hst]
    rfl

theorem keepsRel_blind : KeepsRel tcx blindRel where
  report := report_blind
  getOrRegisterDef := fun d => .bind (getIdFromDef_blind d) fun id => by
    cases id with
    | some id => exact .pure id
    | none => exact registerDef_blind d
  panic := fun e _ => .panic e

theorem extractAdtIdWith_blind {adt : DefId → Xtor ADTSort} (hadt : ∀ d, BlindTo (adt d) (adt d))
    (d : DefId) : BlindTo (extractAdtIdWith adt d) (extractAdtIdWith adt d) := by
  refine .bind (getIdFromDef_blind d) fun id => ?_
  cases id with
  | some id => exact .pure id
  | none => exact .bind (hadt d) fun sort => .pure sort.id

theorem extractAdtWith_blind : ∀ (depth : Nat) (d : DefId),
    BlindTo (extractAdtWith tcx depth d) (extractAdtWith tcx depth d)
  | 0, _ => .panic _
  | depth + 1, d => by
    rw [extractAdtWith]
    refine .bind (getSort_blind d) fun sort => ?_
    cases sort with
    | some sort => exact .pure sort
    | none =>
      refine .bind (registerDef_blind d) fun id => ?_
      cases tcx.adtDef d with
      | none => exact .panic _
      | some a =>
        exact extractSort_rel keepsRel_blind
          (extractAdtIdWith_blind (extractAdtWith_blind depth)) id d a

theorem extractAdtId_blind (d : DefId) : BlindTo (extractAdtId tcx d) (extractAdtId tcx d) :=
  extractAdtIdWith_blind (extractAdtWith_blind _) d

/-! ## Asking for the ids of ADTs -/

/-- The id of an ADT is there once it was asked for. -/
def adtMemo (hok : TcxOk tcx) : Memo Panic Extraction DefId where
  ask := fun d => do
    let _ ← extractAdtId tcx d
    pure ⟨⟩
  known := fun s d => s.didId d ≠ none
  ask_known := by
    intro s d hd
    obtain ⟨id, hid⟩ := Option.ne_none_iff_exists'.mp hd
    unfold extractAdtId extractAdtIdWith
    rw [bind_assoc, Run.bind_eq getIdFromDef_eq, hid]
    rfl
  ask_knows := by
    intro s d s' h
    obtain ⟨id, s₁, h1, h⟩ := Run.bind_ok.mp h
    obtain ⟨-, rfl⟩ := Run.pure_ok.mp h
    simp [(extractAdtId_spec hok).image d s id s₁ h1]
  known_ask := by
    intro s d e s' hd h
    obtain ⟨id, s₁, h1, h⟩ := Run.bind_ok.mp h
    obtain ⟨-, rfl⟩ := Run.pure_ok.mp h
    exact ((extractAdtId_byOps e).grows s id s₁ h1).didId_ne_none hd

theorem askAll_blind (hok : TcxOk tcx) (ds : List DefId) :
    BlindTo ((adtMemo hok).askAll ds) ((adtMemo hok).askAll ds) := by
  induction ds with
  | nil => exact .pure _
  | cons d ds ih => exact .bind (.bind (extractAdtId_blind d) fun _ => .pure _) fun _ => ih

/-- Every run of `x` leads where asking for the ADTs leads, apart from diagnostics. -/
def Asks {α : Type} (hok : TcxOk tcx) (x : Xtor α) (ds : List DefId) : Prop :=
  ∀ s a s', x s = .ok (a, s') → ∃ t, (adtMemo hok).askAll ds s = .ok (⟨⟩, t) ∧ OnlyDiags s' t

section

variable {α β : Type} {hok : TcxOk tcx}

theorem Asks.pure (a : α) : Asks hok (pure a : Xtor α) [] := by
  intro s b s' h
  obtain ⟨-, rfl⟩ := Run.pure_ok.mp h
  exact ⟨s, rfl, .refl s⟩

theorem Asks.panic (e : Panic) (ds : List DefId) : Asks hok (Run.panic e : Xtor α) ds := by
  intro s a s' h
  simp at h

theorem Asks.bind {x : Xtor α} {f : α → Xtor β} {ds ds' : List DefId} (hx : Asks hok x ds)
    (hf : ∀ a, Asks hok (f a) ds') : Asks hok (x >>= f) (ds ++ ds') := by
  intro s b s'' h
  obtain ⟨a, s', h1, h2⟩ := Run.bind_ok.mp h
  obtain ⟨t, hask, ht⟩ := hx s a s' h1
  obtain ⟨u, hask', hu⟩ := hf a s' b s'' h2
  obtain ⟨v, hask'', hv⟩ := askAll_blind hok ds' s' t _ u ht hask'
  exact ⟨v, by rw [Memo.askAll_append, Run.bind_eq hask, hask''], hu.trans hv⟩

theorem Asks.map {x : Xtor α} {ds : List DefId} (hx : Asks hok x ds) (f : α → Xtor β)
    (hf : ∀ a, Asks hok (f a) []) : Asks hok (x >>= f) ds := by
  have h := hx.bind hf
  rwa [List.append_nil] at h

theorem unsupported_asks (msg : String) : Asks hok (unsupported msg) [] := by
  intro s a s' h
  obtain rfl := report_ok.mp h
  exact ⟨s, rfl, (onlyDiags_report _ s).symm⟩

theorem extractAdtId_asks (d : DefId) : Asks hok (extractAdtId tcx d) [d] := by
  intro s id s' h
  refine ⟨s', ?_, .refl s'⟩
  show ((extractAdtId tcx d >>= fun _ => Pure.pure PUnit.unit) >>= fun _ =>
    (Pure.pure PUnit.unit : Xtor PUnit)) s = _
  rw [bind_assoc, Run.bind_eq h]
  rfl

/-! ## Types and bounds ask for the ADTs that they mention -/

section Types

variable (txtcx : TyExtractionCtxt)

mutual

theorem extractTyWith_asks (hok : TcxOk tcx) : ∀ ty : Ty,
    Asks hok (extractTyWith tcx (extractAdtId tcx) txtcx ty) (tyAdts tcx ty)
  | .bool => by
    rw [extractTyWith, tyAdts]
    exact .pure _
  | .int t | .uint t => by
    rw [extractTyWith, tyAdts]
    cases t.bitWidth with
    | some size => exact .pure _
    | none => exact (unsupported_asks _).map _ fun _ => .pure _
  | .tuple tys => by
    rw [extractTyWith, tyAdts]
    refine (extractTysWith_asks hok tys).map _ fun tpes => ?_
    match tpes with
    | [] => exact .pure _
    | [_] => exact (unsupported_asks _).map _ fun _ => .pure _
    | _ :: _ :: _ => exact .pure _
  | .adt did substs => by
    rw [extractTyWith, tyAdts]
    by_cases hb : tcx.isBigint did = true
    · rw [if_pos hb, if_pos hb]
      exact .pure _
    · rw [if_neg hb, if_neg hb]
      by_cases hx : tcx.isBox did = true
      · rw [if_pos hx, if_pos hx]
        exact extractTyAt0_asks hok substs
      · rw [if_neg hx, if_neg hx]
        by_cases hs : tcx.stdItems.defToItemOpt did = some .setType
        · rw [if_pos hs, if_pos hs]
          exact (extractTyAt0_asks hok substs).map _ fun _ => .pure _
        · rw [if_neg hs, if_neg hs]
          exact (extractAdtId_asks did).bind fun _ =>
            (extractTysWith_asks hok substs).map _ fun _ => .pure _
  | .ref ty .not => by
    rw [extractTyWith, tyAdts]
    exact extractTyWith_asks hok ty
  | .param index => by
    rw [extractTyWith, tyAdts]
    cases txtcx.indexToTparam.get? index with
    | some p => exact .pure _
    | none => exact .panic _ _
  | .ref _ .mut | .char | .str | .never | .fnDef _ _ | .closure _ _ | .other _ => by
    rw [extractTyWith, tyAdts]
    exact (unsupported_asks _).map _ fun _ => .pure _

theorem extractTysWith_asks (hok : TcxOk tcx) : ∀ tys : List Ty,
    Asks hok (extractTysWith tcx (extractAdtId tcx) txtcx tys) (tysAdts tcx tys)
  | [] => by
    rw [extractTysWith, tysAdts]
    exact .pure _
  | ty :: tys => by
    rw [extractTysWith, tysAdts]
    exact (extractTyWith_asks hok ty).bind fun _ =>
      (extractTysWith_asks hok tys).map _ fun _ => .pure _

theorem extractTyAt0_asks (hok : TcxOk tcx) : ∀ tys : List Ty,
    Asks hok (extractTyAt0 tcx (extractAdtId tcx) txtcx tys) (tyAdtsAt0 tcx tys)
  | [] => by
    rw [extractTyAt0]
    exact .panic _ _
  | ty :: _ => by
    rw [extractTyAt0, tyAdtsAt0]
    exact extractTyWith_asks hok ty

end

end Types

/-- The ADTs that the bound of a parameter mentions, in the order in which it asks for them. -/
def boundAdts (tcx : Tcx) (returns : Assoc Nat Ty) (p : Nat × List Ty) : List DefId :=
  tysAdts tcx (p.2 ++ (returns.get? p.1).toList)

theorem boundAdts_remove {returns : Assoc Nat Ty} {i : Nat} {p : Nat × List Ty} (h : p.1 ≠ i) :
    boundAdts tcx (returns.remove i) p = boundAdts tcx returns p := by
  rw [boundAdts, boundAdts, Assoc.get?_remove_of_ne h]

theorem replaceHofParams_asks : ∀ (ps : Assoc Nat (List Ty)) (returns : Assoc Nat Ty)
    (txtcx : TyExtractionCtxt), ps.keys.Nodup →
    Asks hok (replaceHofParams tcx (extractAdtId tcx) ps returns txtcx)
      (ps.flatMap (boundAdts tcx returns))
  | [], _, txtcx, _ => .pure txtcx
  | (index, paramTys) :: rest, returns, txtcx, hnd => by
    obtain ⟨hi, hnd⟩ := List.nodup_cons.mp hnd
    have hrest : rest.flatMap (boundAdts tcx returns)
        = rest.flatMap (boundAdts tcx (returns.remove index)) := by
      refine List.flatMap_congr fun p hp => ?_
      have hne : p.1 ≠ index := by
        rintro rfl
        exact hi (List.mem_map.mpr ⟨p, hp, rfl⟩)
      exact (boundAdts_remove hne).symm
    rw [replaceHofParams, List.flatMap_cons, boundAdts, tysAdts_append, List.append_assoc, hrest]
    refine (extractTysWith_asks txtcx hok paramTys).bind fun paramTps => ?_
    cases returns.get? index with
    | none => exact .panic _ _
    | some returnTy =>
      simp only [Option.toList_some, tysAdts, List.append_nil]
      refine (extractTyWith_asks txtcx hok returnTy).bind fun returnTpe => ?_
      split
      · exact .panic _ _
      · exact replaceHofParams_asks rest _ _ hnd

end

/-! ## Images that show the ids of ADTs -/

section

variable (tcx)

mutual

/-- The extraction meets no one-tuple in the type. What is in a one-tuple is lost. -/
def OneTupleFree : Ty → Prop
  | .tuple tys => tys.length ≠ 1 ∧ OneTupleFrees tys
  | .adt did substs =>
    if tcx.isBigint did then True
    else if tcx.isBox did then OneTupleFreeAt0 substs
    else if tcx.stdItems.defToItemOpt did = some .setType then OneTupleFreeAt0 substs
    else OneTupleFrees substs
  | .ref ty .not => OneTupleFree ty
  | .ref _ .mut | .bool | .int _ | .uint _ | .param _ | .char | .str | .never | .fnDef _ _
  | .closure _ _ | .other _ => True

def OneTupleFrees : List Ty → Prop
  | [] => True
  | ty :: tys => OneTupleFree ty ∧ OneTupleFrees tys

def OneTupleFreeAt0 : List Ty → Prop
  | [] => True
  | ty :: _ => OneTupleFree ty

end

end

theorem oneTupleFrees_append (tys tys' : List Ty) :
    OneTupleFrees tcx (tys ++ tys') ↔ OneTupleFrees tcx tys ∧ OneTupleFrees tcx tys' := by
  induction tys with
  | nil => simp [OneTupleFrees]
  | cons ty tys ih => simp [OneTupleFrees, ih, and_assoc]

section

variable {ids ids' : DefId → Option SymbolIdentifier} {tps tps' : Nat → Option TyParam}

theorem tysImage_length {tys : List Ty} {ts : List Tpe} (h : tysImage tcx ids tps tys = some ts) :
    ts.length = tys.length := by
  induction tys generalizing ts with
  | nil =>
    cases h
    rfl
  | cons ty tys ih =>
    rw [tysImage] at h
    split at h
    · next t ts' _ hts =>
      cases h
      simp [ih hts]
    · cases h

/-- The images of tuples are equal only if those of their components are. -/
theorem tupleImage_inj {tys : List Ty} (hone : tys.length ≠ 1) {t : Tpe}
    (h : tyImage tcx ids tps (.tuple tys) = some t)
    (h' : tyImage tcx ids' tps' (.tuple tys) = some t) :
    ∃ ts, tysImage tcx ids tps tys = some ts ∧ tysImage tcx ids' tps' tys = some ts := by
  rw [tyImage] at h h'
  cases hx : tysImage tcx ids tps tys with
  | none => simp [hx] at h
  | some ts =>
    cases hy : tysImage tcx ids' tps' tys with
    | none => simp [hy] at h'
    | some us =>
      have hts := tysImage_length hx
      have hus := tysImage_length hy
      rw [hx] at h
      rw [hy] at h'
      match ts, us, hts, hus with
      | [], [], _, _ => exact ⟨[], rfl, rfl⟩
      | [], _ :: _, hts, hus | _ :: _, [], hts, hus => simp [← hts] at hus
      | [_], _ :: _, hts, _ => exact absurd hts.symm hone
      | _ :: _ :: _, [_], _, hus => exact absurd hus.symm hone
      | x :: y :: zs, x' :: y' :: zs', _, _ =>
        cases h
        cases h'
        exact ⟨_, rfl, rfl⟩

mutual

/-- An image shows the ids of the ADTs that the type mentions. -/
theorem tyImage_ids : ∀ (ty : Ty) {t : Tpe}, OneTupleFree tcx ty →
    tyImage tcx ids tps ty = some t → tyImage tcx ids' tps' ty = some t →
    ∀ d ∈ tyAdts tcx ty, ids d = ids' d
  | .bool, _, _, _, _ | .int _, _, _, _, _ | .uint _, _, _, _, _ | .ref _ .mut, _, _, _, _
  | .char, _, _, _, _ | .str, _, _, _, _ | .never, _, _, _, _ | .fnDef _ _, _, _, _, _
  | .closure _ _, _, _, _, _ | .other _, _, _, _, _ | .param _, _, _, _, _ => by simp [tyAdts]
  | .tuple tys, t, hone, h, h' => by
    rw [OneTupleFree] at hone
    rw [tyAdts]
    obtain ⟨ts, hts, hts'⟩ := tupleImage_inj hone.1 h h'
    exact tysImage_ids tys hone.2 hts hts'
  | .adt did substs, t, hone, h, h' => by
    rw [OneTupleFree] at hone
    rw [tyAdts]
    simp only [tyImage] at h h'
    split
    · simp
    · next hb =>
      rw [if_neg hb] at hone h h'
      split
      · next hx =>
        rw [if_pos hx] at hone h h'
        exact tyImageAt0_ids substs hone h h'
      · next hx =>
        rw [if_neg hx] at hone h h'
        split
        · next hs =>
          rw [if_pos hs] at hone h h'
          obtain ⟨u, hu, rfl⟩ := Option.map_eq_some_iff.mp h
          obtain ⟨u', hu', heq⟩ := Option.map_eq_some_iff.mp h'
          cases heq
          exact tyImageAt0_ids substs hone hu hu'
        · next hs =>
          rw [if_neg hs] at hone h h'
          split at h
          · next id tps₁ hid htps =>
            split at h'
            · next id' tps₂ hid' htps' =>
              cases h
              cases h'
              intro d hd
              rcases List.mem_cons.mp hd with rfl | hd
              · rw [hid, hid']
              · exact tysImage_ids substs hone htps htps' d hd
            · cases h'
          · cases h
  | .ref ty .not, t, hone, h, h' => by
    rw [OneTupleFree] at hone
    rw [tyAdts]
    simp only [tyImage] at h h'
    exact tyImage_ids ty hone h h'

theorem tysImage_ids : ∀ (tys : List Ty) {ts : List Tpe}, OneTupleFrees tcx tys →
    tysImage tcx ids tps tys = some ts → tysImage tcx ids' tps' tys = some ts →
    ∀ d ∈ tysAdts tcx tys, ids d = ids' d
  | [], _, _, _, _ => by simp [tysAdts]
  | ty :: tys, ts, hone, h, h' => by
    rw [OneTupleFrees] at hone
    rw [tysImage] at h h'
    split at h
    · next t ts₁ ht hts =>
      split at h'
      · next t' ts₂ ht' hts' =>
        cases h
        cases h'
        intro d hd
        rw [tysAdts, List.mem_append] at hd
        rcases hd with hd | hd
        · exact tyImage_ids ty hone.1 ht ht' d hd
        · exact tysImage_ids tys hone.2 hts hts' d hd
      · cases h'
    · cases h

theorem tyImageAt0_ids : ∀ (tys : List Ty) {t : Tpe}, OneTupleFreeAt0 tcx tys →
    tyImageAt0 tcx ids tps tys = some t → tyImageAt0 tcx ids' tps' tys = some t →
    ∀ d ∈ tyAdtsAt0 tcx tys, ids d = ids' d
  | [], _, _, h, _ => by simp [tyImageAt0] at h
  | ty :: _, t, hone, h, h' => by
    rw [OneTupleFreeAt0] at hone
    simp only [tyImageAt0] at h h'
    rw [tyAdtsAt0]
    exact tyImage_ids ty hone h h'

end

end

/-! ## The generics of a definition in some order -/

/-- `extract_generics`, where its own hash maps are iterated in the order `o`. -/
def extractGenericsIn (tcx : Tcx) (o : IterOrder HashSite) (d : DefId) :
    Xtor (List TypeParameterDef × TyExtractionCtxt) :=
  extractGenericsWith (tcx.withOrder o) (extractAdtId tcx) d

/-- What is done before the `Fn`-bounded parameters are replaced. -/
def prepareGenerics (tcx : Tcx) (d : DefId) : Xtor (FunBounds × Assoc Nat TyParam) := do
  let bounds ← scanPredicates tcx (tcx.predicatesOf d) { params := [], returns := [] }
  let m ← extractTparams tcx bounds (allGenericParamsOf tcx d) []
  pure (bounds, m)

/-- The parameters in the order in which they are replaced. -/
def hofsIn (tcx : Tcx) (o : IterOrder HashSite) (d : DefId) : Assoc Nat (List Ty) :=
  o.iter (.tparamToFunParams d) (funParamsOf tcx (tcx.predicatesOf d))

/-- The state and the map before the `Fn`-bounded parameters are replaced. -/
structure Prepared (tcx : Tcx) (d : DefId) (bounds : FunBounds) (m : Assoc Nat TyParam)
    (s s' : Extraction) : Prop where
  params : bounds.params = funParamsOf tcx (tcx.predicatesOf d)
  returns : bounds.returns = funReturnsOf tcx (tcx.predicatesOf d)
  params_nodup : (funParamsOf tcx (tcx.predicatesOf d)).keys.Nodup
  returns_nodup : (funReturnsOf tcx (tcx.predicatesOf d)).keys.Nodup
  keys : m.keys = (plainParamsOf tcx d).map (·.index)
  moves : AdtMoves tcx ∅ s s'

section

variable {d : DefId} {o : IterOrder HashSite} {s s' : Extraction}

theorem prepareGenerics_ok (hok : TcxOk tcx) (hcl : tcx.isClosure d = false) {bounds : FunBounds}
    {m : Assoc Nat TyParam}
    (h : prepareGenerics tcx d s = .ok ((bounds, m), s')) : Prepared tcx d bounds m s s' := by
  obtain ⟨b, s₁, h1, h⟩ := Run.bind_ok.mp h
  obtain ⟨m', s₂, h2, h⟩ := Run.bind_ok.mp h
  obtain ⟨heq, rfl⟩ := Run.pure_ok.mp h
  cases heq
  have hscan := scanPredicates_ok _ h1
  have hparams : bounds.params = funParamsOf tcx (tcx.predicatesOf d) := by simpa using hscan.params
  have hreturns : bounds.returns = funReturnsOf tcx (tcx.predicatesOf d) := by
    simpa using hscan.returns
  obtain ⟨hmoves, plain, hm, hplain⟩ := extractTparams_ok _ (hok.tparam_kind d hcl)
    (by simpa [Assoc.keys] using hok.tparam_index d) h2
  rw [List.nil_append] at hm
  subst hm
  rw [plainParams_eq hparams] at hplain
  refine ⟨hparams, hreturns, ?_, ?_, tparamImages_keys hplain, ?_⟩
  · rw [← hparams]
    exact hscan.params_nodup (by simp [Assoc.keys])
  · rw [← hreturns]
    exact hscan.returns_nodup (by simp [Assoc.keys])
  · simpa using hscan.warns.adtMoves.trans hmoves

theorem prepareGenerics_returns (hparams : (funParamsOf tcx (tcx.predicatesOf d)).keys.Nodup)
    (hreturns : (funReturnsOf tcx (tcx.predicatesOf d)).keys.Nodup) (s : Extraction) :
    ∃ bounds m s', prepareGenerics tcx d s = .ok ((bounds, m), s') := by
  have htrue : Stable fun _ => True := fun _ _ _ h => h
  obtain ⟨bounds, s₁, h1, -, -⟩ := scanPredicates_returns tcx htrue (tcx.predicatesOf d)
    (b := { params := [], returns := [] }) hparams hreturns s trivial
  obtain ⟨m, s₂, h2, -, -⟩ := extractTparams_returns tcx htrue bounds (allGenericParamsOf tcx d) []
    s₁ trivial
  exact ⟨bounds, m, s₂, by rw [prepareGenerics, Run.bind_eq h1, Run.bind_eq h2]; rfl⟩

theorem extractGenericsIn_eq (hcl : tcx.isClosure d = false) :
    extractGenericsIn tcx o d = prepareGenerics tcx d >>= fun r =>
      replaceHofParams tcx (extractAdtId tcx) (o.iter (.tparamToFunParams d) r.1.params)
        r.1.returns { defId := d, indexToTparam := r.2 } >>= fun txtcx =>
          pure (tparamDefs (tcx.withOrder o) txtcx, txtcx) := by
  unfold extractGenericsIn extractGenericsWith prepareGenerics
  rw [isClosure_withOrder, predicatesOf_withOrder, allGenericParamsOf_withOrder,
    scanPredicates_withOrder, extractTparams_withOrder, if_neg (by simp [hcl])]
  simp only [bind_assoc, pure_bind, replaceHofParams_withOrder, iterOrder_withOrder]

/-- A run goes through the preparation, which does not depend on the order. -/
theorem extractGenericsIn_ok (hok : TcxOk tcx) (hcl : tcx.isClosure d = false)
    {tparams : List TypeParameterDef} {txtcx : TyExtractionCtxt}
    (h : extractGenericsIn tcx o d s = .ok ((tparams, txtcx), s')) :
    ∃ bounds m s₁, prepareGenerics tcx d s = .ok ((bounds, m), s₁) ∧
      Replaced tcx (hofsIn tcx o d) (funReturnsOf tcx (tcx.predicatesOf d))
        { defId := d, indexToTparam := m } txtcx s₁ s' ∧
      ∃ t, (adtMemo hok).askAll ((hofsIn tcx o d).flatMap
        (boundAdts tcx (funReturnsOf tcx (tcx.predicatesOf d)))) s₁ = .ok (⟨⟩, t) ∧
        OnlyDiags s' t := by
  rw [extractGenericsIn_eq hcl] at h
  obtain ⟨⟨bounds, m⟩, s₁, h1, h⟩ := Run.bind_ok.mp h
  obtain ⟨txtcx', s₂, h2, h⟩ := Run.bind_ok.mp h
  obtain ⟨heq, rfl⟩ := Run.pure_ok.mp h
  cases heq
  have hprep := prepareGenerics_ok hok hcl h1
  have hnd : (hofsIn tcx o d).keys.Nodup :=
    (((o.perm _ _).map Prod.fst).nodup_iff).mpr hprep.params_nodup
  have hm : m.keys.Nodup := by
    rw [hprep.keys]
    exact (hok.tparam_index d).sublist (List.filter_sublist.map _)
  rw [hprep.params, hprep.returns] at h2
  exact ⟨bounds, m, s₁, h1, replaceHofParams_ok (extractAdtId_spec hok) _ hnd hm h2,
    replaceHofParams_asks _ _ _ hnd _ _ _ h2⟩

end

/-! ## Orders in which every lookup succeeds -/

/-- The type parameters that the bound of a parameter looks up. -/
def boundParams (tcx : Tcx) (returns : Assoc Nat Ty) (p : Nat × List Ty) : List Nat :=
  tysParams tcx (p.2 ++ (returns.get? p.1).toList)

theorem mem_boundParams {returns : Assoc Nat Ty} {p : Nat × List Ty} {i : Nat} :
    i ∈ boundParams tcx returns p ↔ i ∈ tysParams tcx p.2 ∨
      ∃ ty, returns.get? p.1 = some ty ∧ i ∈ tyParams tcx ty := by
  rw [boundParams, tysParams_append, List.mem_append]
  cases returns.get? p.1 <;> simp [tysParams]

/-- Any order will do if the bounds look up only what is known from the start. -/
theorem hofOrderOk_of_known : ∀ {ps : Assoc Nat (List Ty)} {known : List Nat}
    {returns : Assoc Nat Ty}, ps.keys.Nodup → (∀ p ∈ ps, p.1 ∉ known) →
    (∀ p ∈ ps, returns.get? p.1 ≠ none) →
    (∀ p ∈ ps, ∀ i ∈ boundParams tcx returns p, i ∈ known) → HofOrderOk tcx known ps returns
  | [], _, _, _, _, _, _ => trivial
  | (index, paramTys) :: ps, known, returns, hnd, hnew, hret, hknown => by
    obtain ⟨hi, hnd⟩ := List.nodup_cons.mp hnd
    have hne : ∀ p ∈ ps, p.1 ≠ index := by
      rintro p hp rfl
      exact hi (List.mem_map.mpr ⟨p, hp, rfl⟩)
    have hget : ∀ p ∈ ps, (returns.remove index).get? p.1 = returns.get? p.1 :=
      fun p hp => Assoc.get?_remove_of_ne (hne p hp)
    obtain ⟨ty, hty⟩ := Option.ne_none_iff_exists'.mp (hret (index, paramTys) List.mem_cons_self)
    have hbound := hknown (index, paramTys) List.mem_cons_self
    refine ⟨fun i hi => hbound i (mem_boundParams.mpr (.inl hi)),
      ⟨ty, hty, fun i hi => hbound i (mem_boundParams.mpr (.inr ⟨ty, hty, hi⟩))⟩,
      hnew _ List.mem_cons_self, hofOrderOk_of_known hnd ?_ ?_ ?_⟩
    · intro p hp hmem
      rcases List.mem_cons.mp hmem with h | h
      · exact hne p hp h
      · exact hnew p (List.mem_cons_of_mem _ hp) h
    · intro p hp
      rw [hget p hp]
      exact hret p (List.mem_cons_of_mem _ hp)
    · intro p hp i hi
      rw [boundParams, hget p hp] at hi
      exact List.mem_cons_of_mem _ (hknown p (List.mem_cons_of_mem _ hp) i hi)

/-- A parameter has a return type, and its bound looks up what is known by then. -/
theorem hofOrderOk_at {p : Nat × List Ty} {l' : Assoc Nat (List Ty)} :
    ∀ {l : Assoc Nat (List Ty)} {known : List Nat} {returns : Assoc Nat Ty},
    p.1 ∉ l.keys → HofOrderOk tcx known (l ++ p :: l') returns →
    returns.get? p.1 ≠ none ∧ ∀ i ∈ boundParams tcx returns p, i ∈ known ∨ i ∈ l.keys
  | [], known, returns, _, h => by
    obtain ⟨hparams, ⟨ty, hty, hret⟩, -, -⟩ := h
    refine ⟨by simp [hty], fun i hi => .inl ?_⟩
    rcases mem_boundParams.mp hi with hi | ⟨ty', hty', hi⟩
    · exact hparams i hi
    · rw [hty] at hty'
      cases hty'
      exact hret i hi
  | (index, paramTys) :: l, known, returns, hp, h => by
    obtain ⟨hne, hp⟩ := not_or.mp (fun h' => hp (List.mem_cons.mpr h'))
    obtain ⟨-, -, -, hrest⟩ := h
    obtain ⟨hget, hbound⟩ := hofOrderOk_at hp hrest
    have heq : (returns.remove index).get? p.1 = returns.get? p.1 := Assoc.get?_remove_of_ne hne
    rw [heq] at hget
    refine ⟨hget, fun i hi => ?_⟩
    rw [boundParams, ← heq] at hi
    rcases hbound i hi with hi | hi
    · rcases List.mem_cons.mp hi with rfl | hi
      · exact .inr List.mem_cons_self
      · exact .inl hi
    · exact .inr (List.mem_cons_of_mem _ hi)

/-- An order and its reverse let a bound look up only what is known from the start. -/
theorem known_of_hofOrderOk {ps : Assoc Nat (List Ty)} {known : List Nat}
    {returns : Assoc Nat Ty} (hnd : ps.keys.Nodup) (h : HofOrderOk tcx known ps returns)
    (h' : HofOrderOk tcx known ps.reverse returns) {p : Nat × List Ty} (hp : p ∈ ps) :
    returns.get? p.1 ≠ none ∧ ∀ i ∈ boundParams tcx returns p, i ∈ known := by
  obtain ⟨l, l', rfl⟩ := List.append_of_mem hp
  rw [Assoc.keys, List.map_append, List.map_cons] at hnd
  obtain ⟨-, hnd', hdisj⟩ := List.nodup_append.mp hnd
  have hpl : p.1 ∉ Assoc.keys l := fun hmem => hdisj _ hmem _ List.mem_cons_self rfl
  have hpl' : p.1 ∉ Assoc.keys l'.reverse := by
    rw [Assoc.keys, List.map_reverse, List.mem_reverse]
    exact (List.nodup_cons.mp hnd').1
  rw [List.reverse_append, List.reverse_cons, List.append_assoc, List.singleton_append] at h'
  obtain ⟨hret, hbound⟩ := hofOrderOk_at hpl h
  obtain ⟨-, hbound'⟩ := hofOrderOk_at hpl' h'
  refine ⟨hret, fun i hi => ?_⟩
  rcases hbound i hi with hk | hl
  · exact hk
  · rcases hbound' i hi with hk | hl'
    · exact hk
    · rw [Assoc.keys, List.map_reverse, List.mem_reverse] at hl'
      exact absurd rfl (hdisj i hl i (List.mem_cons_of_mem _ hl'))

end Stainless
