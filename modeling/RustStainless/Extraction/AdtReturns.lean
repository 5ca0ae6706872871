import RustStainless.Extraction.AdtImage

/-!
# The extraction of ADTs returns

Extracting an ADT that has no id yet cannot panic when the generics of every ADT it reaches are in
order: each nested extraction is of an ADT that had no id before, so there are never more of them
than ADTs without an id.
-/

namespace Stainless

open Rustc St Lib Extraction

variable {tcx : Tcx}

/-! ## Conditions that growing states keep -/

/-- A condition that holds on once it holds. -/
def Stable (pre : Extraction → Prop) : Prop := ∀ s s', Grows s s' → pre s → pre s'

section

variable {pre : Extraction → Prop}

theorem report_returns (hpre : Stable pre) (m : Diag) :
    Run.Returns pre (report m) fun _ => True :=
  fun _ hs => ⟨(), _, report_ok.mpr rfl, hpre _ _ (grows_report m) hs, trivial⟩

theorem unsupported_returns (hpre : Stable pre) (msg : String) :
    Run.Returns pre (unsupported msg) fun _ => True := report_returns hpre _

theorem getOrRegisterDef_returns (hpre : Stable pre) (d : DefId) :
    Run.Returns pre (getOrRegisterDef tcx d) fun _ => True := by
  intro s hs
  cases hd : s.didId d with
  | some id => exact ⟨id, s, getOrRegisterDef_of_some hd, hs, trivial⟩
  | none =>
    exact ⟨_, _, getOrRegisterDef_of_none hd, hpre _ _ (grows_withDef hd) hs, trivial⟩

/-! ## Types -/

section

variable {adtId : DefId → Xtor SymbolIdentifier} {txtcx : TyExtractionCtxt}

mutual

theorem extractTyWith_returns (hpre : Stable pre) :
    ∀ ty : Ty, (∀ d ∈ tyAdts tcx ty, Run.Returns pre (adtId d) fun _ => True) →
    (∀ i ∈ tyParams tcx ty, txtcx.indexToTparam.get? i ≠ none) → TyApplied tcx ty →
    Run.Returns pre (extractTyWith tcx adtId txtcx ty) fun _ => True
  | .bool, _, _, _ => .pure trivial
  | .int t, _, _, _ | .uint t, _, _, _ => by
    rw [extractTyWith]
    cases t.bitWidth with
    | some size => exact .pure trivial
    | none => exact .bind (unsupported_returns hpre _) fun _ _ => .pure trivial
  | .tuple tys, hadt, hps, happ => by
    rw [extractTyWith]
    rw [tyAdts] at hadt
    rw [tyParams] at hps
    rw [TyApplied] at happ
    refine .bind (extractTysWith_returns hpre tys hadt hps happ) fun tpes _ => ?_
    match tpes with
    | [] => exact .pure trivial
    | [_] => exact .bind (unsupported_returns hpre _) fun _ _ => .pure trivial
    | _ :: _ :: _ => exact .pure trivial
  | .adt did substs, hadt, hps, happ => by
    rw [extractTyWith]
    rw [tyAdts] at hadt
    rw [tyParams] at hps
    rw [TyApplied] at happ
    by_cases hb : tcx.isBigint did = true
    · rw [if_pos hb]
      exact .pure trivial
    · rw [if_neg hb] at hadt hps happ ⊢
      by_cases hx : tcx.isBox did = true
      · rw [if_pos hx] at hadt hps happ ⊢
        exact extractTyAt0_returns hpre substs hadt hps happ
      · rw [if_neg hx] at hadt hps happ ⊢
        by_cases hs : tcx.stdItems.defToItemOpt did = some .setType
        · rw [if_pos hs] at hadt hps happ ⊢
          exact .bind (extractTyAt0_returns hpre substs hadt hps happ) fun _ _ => .pure trivial
        · rw [if_neg hs] at hadt hps happ ⊢
          refine .bind (hadt did List.mem_cons_self) fun _ _ => ?_
          exact .bind (extractTysWith_returns hpre substs
            (fun d hd => hadt d (List.mem_cons_of_mem _ hd)) hps happ) fun _ _ => .pure trivial
  | .ref ty .not, hadt, hps, happ => by
    rw [extractTyWith]
    rw [tyAdts] at hadt
    rw [tyParams] at hps
    rw [TyApplied] at happ
    exact extractTyWith_returns hpre ty hadt hps happ
  | .param i, _, hps, _ => by
    rw [extractTyWith]
    cases hp : txtcx.indexToTparam.get? i with
    | none => exact absurd hp (hps i (by simp [tyParams]))
    | some p => exact .pure trivial
  | .ref _ .mut, _, _, _ | .char, _, _, _ | .str, _, _, _ | .never, _, _, _ | .fnDef _ _, _, _, _
  | .closure _ _, _, _, _ | .other _, _, _, _ => by
    simp only [extractTyWith]
    exact .bind (unsupported_returns hpre _) fun _ _ => .pure trivial

theorem extractTysWith_returns (hpre : Stable pre) :
    ∀ tys : List Ty, (∀ d ∈ tysAdts tcx tys, Run.Returns pre (adtId d) fun _ => True) →
    (∀ i ∈ tysParams tcx tys, txtcx.indexToTparam.get? i ≠ none) → TysApplied tcx tys →
    Run.Returns pre (extractTysWith tcx adtId txtcx tys) fun _ => True
  | [], _, _, _ => .pure trivial
  | ty :: tys, hadt, hps, happ => by
    rw [extractTysWith]
    simp only [tysAdts, List.mem_append] at hadt
    simp only [tysParams, List.mem_append] at hps
    refine .bind (extractTyWith_returns hpre ty (fun d hd => hadt d (.inl hd))
      (fun i hi => hps i (.inl hi)) happ.1) fun _ _ => ?_
    exact .bind (extractTysWith_returns hpre tys (fun d hd => hadt d (.inr hd))
      (fun i hi => hps i (.inr hi)) happ.2) fun _ _ => .pure trivial

theorem extractTyAt0_returns (hpre : Stable pre) :
    ∀ tys : List Ty, (∀ d ∈ tyAdtsAt0 tcx tys, Run.Returns pre (adtId d) fun _ => True) →
    (∀ i ∈ tyParamsAt0 tcx tys, txtcx.indexToTparam.get? i ≠ none) → TyAppliedAt0 tcx tys →
    Run.Returns pre (extractTyAt0 tcx adtId txtcx tys) fun _ => True
  | [], _, _, happ => happ.elim
  | ty :: _, hadt, hps, happ => by
    rw [extractTyAt0]
    rw [tyAdtsAt0] at hadt
    rw [tyParamsAt0] at hps
    rw [TyAppliedAt0] at happ
    exact extractTyWith_returns hpre ty hadt hps happ

end

end

/-! ## Generics -/

theorem scanPredicates_returns (tcx : Tcx) (hpre : Stable pre) :
    ∀ (ps : List Predicate) {b : FunBounds},
    (b.params ++ funParamsOf tcx ps).keys.Nodup → (b.returns ++ funReturnsOf tcx ps).keys.Nodup →
    Run.Returns pre (scanPredicates tcx ps b) fun _ => True := by
  intro ps
  have hwarn : ∀ msg, Run.Returns pre (spanWarn msg) fun _ => True :=
    fun msg => report_returns hpre _
  induction ps with
  | nil => exact fun _ _ => .pure trivial
  | cons p ps ih =>
    intro b hp hr
    have hnotin : ∀ {V : Type} {m n : Assoc Nat V} {k : Nat} {v : V},
        (m ++ (k, v) :: n).keys.Nodup → m.get? k = none := by
      intro V m n k v hnd
      rw [Assoc.get?_eq_none_iff]
      intro hk
      rw [Assoc.keys, List.map_append] at hnd
      exact (List.nodup_append.mp hnd).2.2 k hk k (by simp) rfl
    cases p with
    | trait did selfTy paramTys =>
      cases selfTy with
      | param index =>
        rw [scanPredicates]
        rw [funParamsOf] at hp
        simp only [funReturnsOf] at hr
        by_cases hi : tcx.shouldSilentlyIgnoreTrait did = true
        · rw [if_pos hi] at hp ⊢
          exact ih hp hr
        · rw [if_neg hi] at hp ⊢
          by_cases hf : tcx.isFnLikeTrait did = true
          · rw [if_pos hf] at hp ⊢
            have hn := hnotin hp
            rw [if_neg (by simp [Assoc.contains, hn]), Assoc.insert_of_get?_none hn]
            refine ih ?_ hr
            rw [List.append_assoc]
            exact hp
          · rw [if_neg hf] at hp ⊢
            exact .bind (hwarn _) fun _ _ => ih hp hr
      | _ =>
        simp only [scanPredicates]
        simp only [funParamsOf] at hp
        simp only [funReturnsOf] at hr
        split
        · exact ih hp hr
        · exact .bind (hwarn _) fun _ _ => ih hp hr
    | projection did selfTy ty =>
      cases selfTy with
      | param index =>
        rw [scanPredicates]
        simp only [funParamsOf] at hp
        rw [funReturnsOf] at hr
        by_cases hf : tcx.isFnLikeTrait did = true
        · rw [if_pos hf] at hr ⊢
          have hn := hnotin hr
          rw [if_neg (by simp [Assoc.contains, hn]), Assoc.insert_of_get?_none hn]
          refine ih hp ?_
          rw [List.append_assoc]
          exact hr
        · rw [if_neg hf] at hr ⊢
          exact .bind (hwarn _) fun _ _ => ih hp hr
      | _ =>
        simp only [scanPredicates]
        simp only [funParamsOf] at hp
        simp only [funReturnsOf] at hr
        exact .bind (hwarn _) fun _ _ => ih hp hr
    | other =>
      simp only [scanPredicates]
      simp only [funParamsOf] at hp
      simp only [funReturnsOf] at hr
      exact .bind (hwarn _) fun _ _ => ih hp hr

theorem extractTparams_returns (tcx : Tcx) (hpre : Stable pre) (bounds : FunBounds) :
    ∀ (ps : List GenericParamDef) (m : Assoc Nat TyParam),
    Run.Returns pre (extractTparams tcx bounds ps m) fun _ => True := by
  intro ps
  induction ps with
  | nil => exact fun _ => .pure trivial
  | cons p ps ih =>
    intro m
    rw [extractTparams]
    cases p.kind with
    | type =>
      simp only
      split
      · exact ih m
      · exact .bind (getOrRegisterDef_returns hpre _) fun _ _ => ih _
    | lifetime | const => exact .bind (unsupported_returns hpre _) fun _ _ => ih m

section

variable {adtId : DefId → Xtor SymbolIdentifier}

theorem replaceHofParams_returns (hpre : Stable pre) :
    ∀ (ps : Assoc Nat (List Ty)) (returns : Assoc Nat Ty) (txtcx : TyExtractionCtxt),
    HofOrderOk tcx txtcx.indexToTparam.keys ps returns →
    (∀ p ∈ ps, TysApplied tcx p.2) → (∀ p ∈ returns, TyApplied tcx p.2) → ps.keys.Nodup →
    (∀ d ∈ boundsAdts tcx ps returns, Run.Returns pre (adtId d) fun _ => True) →
    Run.Returns pre (replaceHofParams tcx adtId ps returns txtcx) fun _ => True := by
  intro ps
  induction ps with
  | nil => exact fun _ _ _ _ _ _ _ => .pure trivial
  | cons p ps ih =>
    rintro returns txtcx ⟨h1, ⟨returnTy, hr, h2⟩, h3, h4⟩ hps hrs hnd hadt
    obtain ⟨index, paramTys⟩ := p
    obtain ⟨hp, hnd⟩ := List.nodup_cons.mp hnd
    rw [boundsAdts_cons hr hp] at hadt
    have hknown : ∀ i, i ∈ txtcx.indexToTparam.keys → txtcx.indexToTparam.get? i ≠ none :=
      fun i hi hn => Assoc.get?_eq_none_iff.mp hn hi
    rw [replaceHofParams]
    refine .bind (extractTysWith_returns hpre paramTys (fun d hd => hadt d (.inl hd))
      (fun i hi => hknown i (h1 i hi)) (hps _ List.mem_cons_self)) fun paramTps _ => ?_
    rw [hr]
    refine .bind (extractTyWith_returns hpre returnTy (fun d hd => hadt d (.inr (.inl hd)))
      (fun i hi => hknown i (h2 i hi)) (hrs _ (Assoc.mem_of_get? hr))) fun returnTpe _ => ?_
    have hnone := Assoc.get?_eq_none_iff.mpr h3
    rw [if_neg (by simp [Assoc.contains, hnone])]
    refine ih _ _ ?_ (fun q hq => hps q (List.mem_cons_of_mem _ hq))
      (fun q hq => hrs q (List.mem_of_mem_filter hq)) hnd (fun d hd => hadt d (.inr (.inr hd)))
    refine hofOrderOk_congr ?_ h4
    intro i
    simp [Assoc.keys_insert_of_none hnone, or_comm]

/-- Every type parameter of a definition is in its context. -/
theorem GenericsImage.covers {ids : DefId → Option SymbolIdentifier} {d : DefId}
    {txtcx : TyExtractionCtxt} (h : GenericsImage tcx ids d txtcx) {p : GenericParamDef}
    (hp : p ∈ allGenericParamsOf tcx d) (hk : p.kind = .type) :
    txtcx.indexToTparam.get? p.index ≠ none := by
  obtain ⟨plain, hofs, hm, hplain, hhofs⟩ := h.entries
  intro hn
  rw [Assoc.get?_eq_none_iff, hm, Assoc.keys, List.map_append, List.mem_append] at hn
  cases hf : isFunParam tcx d p.index with
  | false =>
    have hpl : p ∈ plainParamsOf tcx d := by simp [plainParamsOf, hp, hk, hf]
    obtain ⟨i, hi, rfl⟩ := List.mem_iff_getElem.mp hpl
    have := hplain.get (i := i) hi (hplain.length_eq ▸ hi)
    exact hn (.inl (List.mem_map.mpr ⟨_, List.getElem_mem (hplain.length_eq ▸ hi), this.1⟩))
  | true =>
    obtain ⟨tys, hget⟩ := Option.isSome_iff_exists.mp hf
    have hmem : (p.index, tys) ∈ tcx.iterOrder.iter (.tparamToFunParams d)
        (funParamsOf tcx (tcx.predicatesOf d)) :=
      tcx.iterOrder.mem_iter.mpr (Assoc.mem_of_get? hget)
    obtain ⟨i, hi, hpi⟩ := List.mem_iff_getElem.mp hmem
    have := hhofs.get (i := i) hi (hhofs.length_eq ▸ hi)
    refine hn (.inr (List.mem_map.mpr ⟨_, List.getElem_mem (hhofs.length_eq ▸ hi), ?_⟩))
    have hidx := this.1
    simp only [List.get_eq_getElem, hpi] at hidx
    exact hidx

theorem extractGenericsWith_returns (hok : TcxOk tcx) (hpre : Stable pre)
    (hspec : AdtIdSpec tcx adtId) {d : DefId} (hcl : tcx.isClosure d = false)
    (hgen : GenericsOk tcx d)
    (hadt : ∀ e ∈ genericsAdts tcx d, Run.Returns pre (adtId e) fun _ => True) :
    Run.Returns pre (extractGenericsWith tcx adtId d) fun r =>
      ∀ p ∈ allGenericParamsOf tcx d, p.kind = .type → r.2.indexToTparam.get? p.index ≠ none := by
  have hruns : Run.Returns pre (extractGenericsWith tcx adtId d) fun _ => True := by
    intro s hs
    rw [extractGenericsWith, if_neg (by simp [hcl])]
    obtain ⟨bounds, s₁, h1, hs₁, -⟩ := scanPredicates_returns tcx hpre (tcx.predicatesOf d)
      (b := { params := [], returns := [] }) hgen.params_nodup hgen.returns_nodup s hs
    have hscan := scanPredicates_ok _ h1
    have hparams : bounds.params = funParamsOf tcx (tcx.predicatesOf d) := by
      simpa using hscan.params
    have hreturns : bounds.returns = funReturnsOf tcx (tcx.predicatesOf d) := by
      simpa using hscan.returns
    obtain ⟨m, s₂, h2, hs₂, -⟩ := extractTparams_returns tcx hpre bounds
      (allGenericParamsOf tcx d) [] s₁ hs₁
    have hkeys : m.keys = (plainParamsOf tcx d).map (·.index) := by
      obtain ⟨-, plain, hm, hplain⟩ := extractTparams_ok _ (hok.tparam_kind d hcl)
        (by simpa [Assoc.keys] using hok.tparam_index d) h2
      rw [List.nil_append] at hm
      subst hm
      rw [plainParams_eq hparams] at hplain
      exact tparamImages_keys hplain
    have hperm := tcx.iterOrder.perm (.tparamToFunParams d) bounds.params
    obtain ⟨txtcx, s₃, h3, hs₃, -⟩ := replaceHofParams_returns hpre
      (tcx.iterOrder.iter (.tparamToFunParams d) bounds.params) bounds.returns
      { defId := d, indexToTparam := m }
      (by rw [hkeys, hparams, hreturns]; exact hgen.order)
      (by
        intro p hp
        rw [tcx.iterOrder.mem_iter, hparams] at hp
        exact hok.params_applied d p hp)
      (by rw [hreturns]; exact hok.returns_applied d)
      (by
        refine ((hperm.map Prod.fst).nodup_iff).mpr ?_
        rw [hparams]
        exact hgen.params_nodup)
      (by
        intro e he
        refine hadt e ?_
        simp only [boundsAdts, tcx.iterOrder.mem_iter, hparams, hreturns] at he
        exact he)
      s₂ hs₂
    exact ⟨(tparamDefs tcx txtcx, txtcx), s₃,
      by rw [Run.bind_eq h1, Run.bind_eq h2, Run.bind_eq h3]; rfl, hs₃, trivial⟩
  intro s hs
  obtain ⟨⟨tparams, txtcx⟩, s', h, hs', -⟩ := hruns s hs
  exact ⟨_, s', h, hs', fun p hp hk => (extractGenericsWith_ok hok hspec hcl h).image.covers hp hk⟩

/-! ## Fields and constructors -/

theorem extractFields_returns (hpre : Stable pre) {txtcx : TyExtractionCtxt} :
    ∀ (fs : List FieldDef) {m : Assoc String Flags},
    (∀ f ∈ fs, Run.Returns pre (extractTyWith tcx adtId txtcx f.ty) fun _ => True) →
    Run.Returns pre (extractFields tcx adtId txtcx fs m) fun _ => True := by
  intro fs
  induction fs with
  | nil => exact fun _ => .pure trivial
  | cons f fs ih =>
    intro m h
    rw [extractFields]
    refine .bind (getOrRegisterDef_returns hpre _) fun _ _ => ?_
    refine .bind (h f List.mem_cons_self) fun _ _ => ?_
    exact .bind (ih fun q hq => h q (List.mem_cons_of_mem _ hq)) fun _ _ => .pure trivial

theorem extractConstructors_returns (hpre : Stable pre) {txtcx : TyExtractionCtxt}
    {sortId : SymbolIdentifier} : ∀ (vs : List VariantDef) {m : Assoc String Flags},
    (∀ v ∈ vs, ∀ f ∈ v.fields, Run.Returns pre (extractTyWith tcx adtId txtcx f.ty)
      fun _ => True) →
    Run.Returns pre (extractConstructors tcx adtId txtcx sortId vs m) fun _ => True := by
  intro vs
  induction vs with
  | nil => exact fun _ => .pure trivial
  | cons v vs ih =>
    intro m h
    rw [extractConstructors]
    refine .bind (getOrRegisterDef_returns hpre _) fun _ _ => ?_
    refine .bind (extractFields_returns hpre _ (h v List.mem_cons_self)) fun _ _ => ?_
    exact .bind (ih fun q hq => h q (List.mem_cons_of_mem _ hq)) fun _ _ => .pure trivial

end

/-! ## Flags -/

theorem extractFlagArgs_returns (hpre : Stable pre) {flag : Flag} :
    ∀ (tokens : List Hir.TokenTree) {fs : ItemFlags},
    Run.Returns pre (extractFlagArgs flag tokens fs) fun _ => True := by
  intro tokens
  induction tokens with
  | nil => exact .pure trivial
  | cons t rest ih =>
    intro fs
    match t with
    | .token .comma => exact ih
    | .token (.ident _) => exact ih
    | .token (.litInteger _) => exact ih
    | .token .other | .delimited =>
      exact .bind (report_returns hpre _) fun _ _ => .pure trivial

theorem extractFlagsFrom_returns (hpre : Stable pre) : ∀ (attrs : List Hir.Attribute)
    {fs : ItemFlags}, Run.Returns pre (extractFlagsFrom attrs fs) fun _ => True := by
  intro attrs
  induction attrs with
  | nil => exact .pure trivial
  | cons a rest ih =>
    intro fs
    cases a with
    | docComment => exact ih
    | normal segments args =>
      rw [extractFlagsFrom]
      cases extractFlagOf segments with
      | none => exact ih
      | some name =>
        simp only
        cases flagFromName name with
        | none => exact .bind (report_returns hpre _) fun _ _ => ih
        | some flag =>
          cases args with
          | empty => exact ih
          | delimited tokens => exact .bind (extractFlagArgs_returns hpre _) fun _ _ => ih
          | eq => exact .bind (report_returns hpre _) fun _ _ => ih

theorem extractAdtFlags_returns (tcx : Tcx) (hpre : Stable pre) (d : DefId) :
    Run.Returns pre (extractAdtFlags tcx d) fun _ => True := by
  unfold extractAdtFlags
  split
  · exact extractFlagsFrom_returns hpre _
  · exact .pure trivial

theorem reportUnusedAdtFlags_returns (tcx : Tcx) (hpre : Stable pre) (d : DefId)
    (m : Assoc String Flags) :
    Run.Returns pre (reportUnusedAdtFlags tcx d m) fun _ => True := by
  unfold reportUnusedAdtFlags reportUnusedFlags
  split
  · split
    · exact .pure trivial
    · exact report_returns hpre _
  · exact .pure trivial

end

/-! ## ADTs -/

/-- How many ADTs have no id yet. -/
def pendingAdts (tcx : Tcx) (s : Extraction) : Nat :=
  (tcx.adtDefs.filter fun a => s.didId a.did = none).length

theorem pendingAdts_stable (tcx : Tcx) (n : Nat) : Stable fun s => pendingAdts tcx s ≤ n := by
  intro s s' hg hs
  refine Nat.le_trans (List.Sublist.length_le ?_) hs
  refine List.monotone_filter_right _ fun a ha => ?_
  simp only [decide_eq_true_eq] at ha ⊢
  by_contra hn
  exact hg.didId_ne_none hn ha

theorem pendingAdts_pos {s : Extraction} {a : AdtDef} (ha : a ∈ tcx.adtDefs)
    (hd : s.didId a.did = none) : 0 < pendingAdts tcx s :=
  List.length_pos_of_mem (List.mem_filter.mpr ⟨ha, by simpa using hd⟩)

theorem pendingAdts_withDef {s : Extraction} {a : AdtDef} (ha : a ∈ tcx.adtDefs)
    (hd : s.didId a.did = none) : pendingAdts tcx (s.withDef tcx a.did) < pendingAdts tcx s := by
  have hsub : (tcx.adtDefs.filter fun b => (s.withDef tcx a.did).didId b.did = none).Sublist
      (tcx.adtDefs.filter fun b => s.didId b.did = none) := by
    refine List.monotone_filter_right _ fun b hb => ?_
    simp only [decide_eq_true_eq] at hb ⊢
    by_contra hn
    exact (grows_withDef hd).didId_ne_none hn hb
  refine Nat.lt_of_le_of_ne hsub.length_le fun he => ?_
  have heq := hsub.eq_of_length he
  have hmem : a ∈ tcx.adtDefs.filter fun b => s.didId b.did = none :=
    List.mem_filter.mpr ⟨ha, by simpa using hd⟩
  rw [← heq] at hmem
  have := (List.mem_filter.mp hmem).2
  simp [withDef_didId tcx hd] at this

/-- An ADT all of whose reachable ADTs have generics in order. -/
def ReachesOk (tcx : Tcx) (d : DefId) : Prop := ∀ e, Reaches tcx d e → GenericsOk tcx e

theorem ReachesOk.mentions {d e : DefId} (h : ReachesOk tcx d) (hde : AdtMentions tcx d e) :
    ReachesOk tcx e := fun x hx => h x (.head hde hx)

/-- One level of `extract_adt`, when the level below returns. -/
theorem extractAdtWith_returns (hok : TcxOk tcx) {depth : Nat}
    (ih : ∀ e, (∃ a, tcx.adtDef e = some a) → ReachesOk tcx e →
      Run.Returns (fun s => pendingAdts tcx s ≤ depth)
        (extractAdtIdWith (extractAdtWith tcx depth) e) fun _ => True)
    {d : DefId} {a : AdtDef} (ha : tcx.adtDef d = some a) (hr : ReachesOk tcx d) {s : Extraction}
    (hs : pendingAdts tcx s ≤ depth + 1) (hd : s.didId d = none) :
    ∃ sort s', extractAdtWith tcx (depth + 1) d s = .ok (sort, s') ∧
      pendingAdts tcx s' ≤ depth := by
  have hmem := Tcx.adtDef_mem ha
  have hdid := Tcx.adtDef_did ha
  have hpre := pendingAdts_stable tcx depth
  have hs₁ : pendingAdts tcx (s.withDef tcx d) ≤ depth := by
    have := pendingAdts_withDef hmem (hdid ▸ hd)
    rw [hdid] at this
    omega
  have hment : ∀ e, AdtMentions tcx d e → Run.Returns (fun s => pendingAdts tcx s ≤ depth)
      (extractAdtIdWith (extractAdtWith tcx depth) e) fun _ => True :=
    fun e he => ih e (hok.mentions_adt d e he) (hr.mentions he)
  rw [extractAdtWith, Run.bind_eq getSort_eq, hd]
  simp only [Option.bind_none]
  rw [Run.bind_eq (registerDef_eq hd), ha]
  have hbody : Run.Returns (fun s => pendingAdts tcx s ≤ depth)
      (extractSort tcx (extractAdtIdWith (extractAdtWith tcx depth)) (s.defIdent tcx d) d a)
      fun _ => True := by
    refine .bind (extractAdtFlags_returns tcx hpre d) fun flags _ => ?_
    refine .bind (extractGenericsWith_returns hok hpre (extractAdtIdWith_spec hok depth)
      (hdid ▸ hok.adt_not_closure a hmem) (hr d .refl)
      (fun e he => hment e ⟨a, ha, .inl he⟩)) fun r hcov => ?_
    refine .bind (extractConstructors_returns hpre _ fun v hv f hf => ?_) fun _ _ => ?_
    · refine extractTyWith_returns hpre _ (fun e he => hment e ⟨a, ha, .inr ⟨v, hv, f, hf, he⟩⟩)
        (fun i hi => ?_) (hok.field_applied a hmem v hv f hf)
      obtain ⟨p, hp, rfl, hk⟩ := hok.field_params a hmem v hv f hf i hi
      exact hcov p (hdid ▸ hp) hk
    · exact .bind (reportUnusedAdtFlags_returns tcx hpre d _) fun _ _ => .pure trivial
  obtain ⟨sort, s', h, hs', -⟩ := hbody _ hs₁
  exact ⟨sort, s', h, hs'⟩

theorem extractAdtIdWith_returns (hok : TcxOk tcx) : ∀ (depth : Nat) (d : DefId),
    (∃ a, tcx.adtDef d = some a) → ReachesOk tcx d →
    Run.Returns (fun s => pendingAdts tcx s ≤ depth)
      (extractAdtIdWith (extractAdtWith tcx depth) d) fun _ => True := by
  intro depth
  induction depth with
  | zero =>
    rintro d ⟨a, ha⟩ _ s hs
    have hd : s.didId d ≠ none := by
      intro hd
      have := pendingAdts_pos (Tcx.adtDef_mem ha) ((Tcx.adtDef_did ha).symm ▸ hd)
      omega
    obtain ⟨id, hid⟩ := Option.ne_none_iff_exists'.mp hd
    unfold extractAdtIdWith
    rw [Run.bind_eq getIdFromDef_eq, hid]
    exact ⟨id, s, rfl, hs, trivial⟩
  | succ depth ih =>
    rintro d ⟨a, ha⟩ hr s hs
    unfold extractAdtIdWith
    rw [Run.bind_eq getIdFromDef_eq]
    cases hd : s.didId d with
    | some id => exact ⟨id, s, rfl, hs, trivial⟩
    | none =>
      obtain ⟨sort, s', h, hs'⟩ := extractAdtWith_returns hok ih ha hr hs hd
      simp only
      rw [Run.bind_eq h]
      exact ⟨sort.id, s', rfl, Nat.le_succ_of_le hs', trivial⟩

/-- **An ADT without an id is extracted, if the generics of all ADTs it reaches are in order.** -/
theorem extractAdt_returns (hok : TcxOk tcx) {d : DefId} {a : AdtDef}
    (ha : tcx.adtDef d = some a) (hr : ReachesOk tcx d) {s : Extraction} (hd : s.didId d = none) :
    ∃ sort s', extractAdt tcx d s = .ok (sort, s') := by
  have hs : pendingAdts tcx s ≤ tcx.adtDefs.length + 1 :=
    Nat.le_succ_of_le (List.length_filter_le _ _)
  obtain ⟨sort, s', h, -⟩ :=
    extractAdtWith_returns hok (extractAdtIdWith_returns hok _) ha hr hs hd
  exact ⟨sort, s', h⟩

end Stainless
