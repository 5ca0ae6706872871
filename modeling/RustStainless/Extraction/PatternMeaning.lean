import RustStainless.Extraction.Scopes
import RustStainless.Extraction.ValueImage

/-!
# What patterns match

A pattern and its translation match the same values and bind the same variables. The exceptions are
the empty tuple pattern and negative integers, which match nothing once they are translated.
-/

namespace Stainless

open Rustc St Lib

/-! ## Bindings -/

mutual

/-- The pattern has no empty tuple pattern in it, and no literal that is read as another number. -/
def patFaithful : Hair.Pat → Bool
  | .wild _ | .other _ => true
  | .constant _ konst => constFaithful konst
  | .binding _ _ _ _ subpattern => optFaithful subpattern
  | .variant _ _ _ _ subpatterns => fieldsFaithful subpatterns
  | .leaf ty subpatterns => ty ≠ .unit && fieldsFaithful subpatterns
  | .deref _ subpattern | .ascribeUserType _ subpattern => patFaithful subpattern

def optFaithful : Option Hair.Pat → Bool
  | none => true
  | some p => patFaithful p

def fieldsFaithful : List (Nat × Hair.Pat) → Bool
  | [] => true
  | (_, p) :: rest => patFaithful p && fieldsFaithful rest

end

theorem fieldsFaithful_iff {fields : List (Nat × Hair.Pat)} :
    fieldsFaithful fields = true ↔ ∀ f ∈ fields, patFaithful f.2 = true := by
  induction fields with
  | nil => simp [fieldsFaithful]
  | cons f rest ih =>
    obtain ⟨i, p⟩ := f
    simp [fieldsFaithful, ih]

section Keys

variable {tcx : Tcx}

theorem both_eq_yes {r r' : Hair.MatchResult} {bs : List (HirId × Hair.Value)} :
    r.both r' = some (some bs) ↔
      ∃ bs₁ bs₂, r = some (some bs₁) ∧ r' = some (some bs₂) ∧ bs = bs₁ ++ bs₂ := by
  rcases r with _ | _ | bs₁ <;> rcases r' with _ | _ | bs₂ <;>
    simp [Hair.MatchResult.both, eq_comm]

theorem both_eq_no {r r' : Hair.MatchResult} (h : r.both r' = some none) :
    r = some none ∨ r' = some none := by
  rcases r with _ | _ | bs₁ <;> rcases r' with _ | _ | bs₂ <;>
    simp_all [Hair.MatchResult.both]

mutual

/-- A pattern that matches binds its variables. -/
theorem matchValue_keys : ∀ (p : Hair.Pat) {v : Hair.Value} {bs : List (HirId × Hair.Value)},
    p.matchValue tcx v = some (some bs) → bs.map Prod.fst = p.vars
  | .wild _, v, bs, h => by
    obtain rfl : bs = [] := by simpa [Hair.Pat.matchValue, eq_comm] using h
    rfl
  | .binding _ _ mode var sub, v, bs, h => by
    simp only [Hair.Pat.matchValue, Option.map_eq_some_iff] at h
    obtain ⟨r, hr, bs', rfl, rfl⟩ := h
    rw [Hair.Pat.vars, List.map_cons, matchOpt_keys sub hr]
  | .variant _ did _ i subs, v, bs, h => by
    cases v with
    | adt did' i' fields =>
      simp only [Hair.Pat.matchValue] at h
      split_ifs at h
      · rw [Hair.Pat.vars, matchFields_keys subs h]
      · simp at h
    | _ => simp [Hair.Pat.matchValue] at h
  | .leaf ty subs, v, bs, h => by
    cases ty with
    | tuple tys =>
      cases v with
      | tuple values =>
        simp only [Hair.Pat.matchValue] at h
        split_ifs at h
        rw [Hair.Pat.vars, matchFields_keys subs h]
      | _ => simp [Hair.Pat.matchValue] at h
    | adt did substs =>
      cases v with
      | adt did' i' fields =>
        simp only [Hair.Pat.matchValue] at h
        split_ifs at h
        rw [Hair.Pat.vars, matchFields_keys subs h]
      | _ => simp [Hair.Pat.matchValue] at h
    | _ => simp [Hair.Pat.matchValue] at h
  | .constant _ konst, v, bs, h => by
    simp only [Hair.Pat.matchValue, Option.map_eq_some_iff] at h
    obtain ⟨b, -, hb⟩ := h
    cases b with
    | true =>
      obtain rfl : bs = [] := by simpa [eq_comm] using hb
      rfl
    | false => simp at hb
  | .deref _ p, v, bs, h => by
    cases v with
    | ref v =>
      rw [Hair.Pat.matchValue] at h
      rw [Hair.Pat.vars, matchValue_keys p h]
    | box v =>
      rw [Hair.Pat.matchValue] at h
      rw [Hair.Pat.vars, matchValue_keys p h]
    | _ => simp [Hair.Pat.matchValue] at h
  | .ascribeUserType _ p, v, bs, h => by
    rw [Hair.Pat.matchValue] at h
    rw [Hair.Pat.vars, matchValue_keys p h]
  | .other _, v, bs, h => by simp [Hair.Pat.matchValue] at h

theorem matchOpt_keys : ∀ (o : Option Hair.Pat) {v : Hair.Value}
    {bs : List (HirId × Hair.Value)}, Hair.Pat.matchOpt tcx o v = some (some bs) →
    bs.map Prod.fst = Hair.Pat.optVars o
  | none, v, bs, h => by
    obtain rfl : bs = [] := by simpa [Hair.Pat.matchOpt, eq_comm] using h
    rfl
  | some p, v, bs, h => by
    rw [Hair.Pat.matchOpt] at h
    rw [Hair.Pat.optVars, matchValue_keys p h]

theorem matchFields_keys : ∀ (fields : List (Nat × Hair.Pat)) {vs : List Hair.Value}
    {bs : List (HirId × Hair.Value)}, Hair.Pat.matchFields tcx fields vs = some (some bs) →
    bs.map Prod.fst = Hair.Pat.fieldVars fields
  | [], vs, bs, h => by
    obtain rfl : bs = [] := by simpa [Hair.Pat.matchFields, eq_comm] using h
    rfl
  | (i, p) :: rest, vs, bs, h => by
    rw [Hair.Pat.matchFields] at h
    split at h
    · obtain ⟨bs₁, bs₂, h1, h2, rfl⟩ := both_eq_yes.mp h
      rw [Hair.Pat.fieldVars, List.map_append, matchValue_keys p h1, matchFields_keys rest h2]
    · cases h

end

/-- All fields match, and the bindings are theirs. -/
theorem matchFields_yes {fields : List (Nat × Hair.Pat)} {vs : List Hair.Value}
    {bs : List (HirId × Hair.Value)} (h : Hair.Pat.matchFields tcx fields vs = some (some bs)) :
    (∀ f ∈ fields, ∃ v bs', vs[f.1]? = some v ∧ f.2.matchValue tcx v = some (some bs')) ∧
      ∀ b ∈ bs, ∃ f ∈ fields, ∃ v bs', vs[f.1]? = some v ∧
        f.2.matchValue tcx v = some (some bs') ∧ b ∈ bs' := by
  induction fields generalizing bs with
  | nil =>
    obtain rfl : bs = [] := by simpa [Hair.Pat.matchFields, eq_comm] using h
    simp
  | cons f rest ih =>
    obtain ⟨i, p⟩ := f
    rw [Hair.Pat.matchFields] at h
    split at h
    · rename_i v hv
      obtain ⟨bs₁, bs₂, h1, h2, rfl⟩ := both_eq_yes.mp h
      obtain ⟨hall, hmem⟩ := ih h2
      refine ⟨List.forall_mem_cons.mpr ⟨⟨v, bs₁, hv, h1⟩, hall⟩, fun b hb => ?_⟩
      rcases List.mem_append.mp hb with hb | hb
      · exact ⟨(i, p), List.mem_cons_self, v, bs₁, hv, h1, hb⟩
      · obtain ⟨f, hf, hrest⟩ := hmem b hb
        exact ⟨f, List.mem_cons_of_mem _ hf, hrest⟩
    · cases h

/-- One of the fields does not match. -/
theorem matchFields_no {fields : List (Nat × Hair.Pat)} {vs : List Hair.Value}
    (h : Hair.Pat.matchFields tcx fields vs = some none) :
    ∃ f ∈ fields, ∃ v, vs[f.1]? = some v ∧ f.2.matchValue tcx v = some none := by
  induction fields with
  | nil => simp [Hair.Pat.matchFields] at h
  | cons f rest ih =>
    obtain ⟨i, p⟩ := f
    rw [Hair.Pat.matchFields] at h
    split at h
    · rename_i v hv
      rcases both_eq_no h with h | h
      · exact ⟨(i, p), List.mem_cons_self, v, hv, h⟩
      · obtain ⟨f, hf, hrest⟩ := ih h
        exact ⟨f, List.mem_cons_of_mem _ hf, hrest⟩
    · cases h

end Keys

/-! ## Environments -/

section Meaning

variable (tcx : Tcx) (ids : Ids) (ctx : BodyCtxt)

/-- The bindings have their variables, and the variables have the values. -/
def Bound (σ : St.Env) (bs : List (HirId × Hair.Value)) : Prop :=
  ∀ b ∈ bs, ∃ x w, ctx.vars.get? b.1 = some x ∧ valueImage tcx ids b.2 = some w ∧
    σ x.id.globalId = some w

/-- Nothing has changed but the variables of the bindings and that of the binder. -/
def Unchanged (σ σ' : St.Env) (hs : List HirId) (binder : Option ValDef) : Prop :=
  ∀ k, (∀ h ∈ hs, ∀ x, ctx.vars.get? h = some x → x.id.globalId ≠ k) →
    (∀ vd ∈ binder, vd.v.id.globalId ≠ k) → σ' k = σ k

/--
The pattern `q` does with `w` what `p` does with the value `v`, and binds `w` to the binder. If `p`
is not faithful, `q` may fail to match where `p` does.
-/
structure PatMeans (p : Hair.Pat) (binder : Option ValDef) (q : Pattern) (v : Hair.Value)
    (w : St.Value) : Prop where
  yes : patFaithful p = true → ∀ bs, p.matchValue tcx v = some (some bs) → ∀ σ, ∃ σ',
    q.bind w σ = some σ' ∧ Bound tcx ids ctx σ' bs ∧ (∀ vd ∈ binder, σ' vd.v.id.globalId = some w) ∧
    Unchanged ctx σ σ' p.vars binder
  no : p.matchValue tcx v = some none → ∀ σ, q.bind w σ = none

/-- No two bindings have variables with the same id. -/
def OwnIds : Prop :=
  ∀ h h' x x', ctx.vars.get? h = some x → ctx.vars.get? h' = some x' →
    x.id.globalId = x'.id.globalId → h = h'

end Meaning

section Patterns

variable {tcx : Tcx} {ids : Ids} {ctx : BodyCtxt} {σ σ' σ'' : St.Env}

theorem Unchanged.refl (hs : List HirId) (binder : Option ValDef) :
    Unchanged ctx σ σ hs binder := fun _ _ _ => rfl

theorem Unchanged.trans {hs hs' : List HirId} {binder : Option ValDef}
    (h : Unchanged ctx σ σ' hs binder) (h' : Unchanged ctx σ' σ'' hs' none) :
    Unchanged ctx σ σ'' (hs ++ hs') binder := by
  intro k hk hb
  rw [h' k (fun g hg => hk g (List.mem_append_right _ hg)) (by simp),
    h k (fun g hg => hk g (List.mem_append_left _ hg)) hb]

theorem unchanged_setBinder (σ : St.Env) (binder : Option ValDef) (w : St.Value) :
    Unchanged ctx σ (σ.setBinder binder w) [] binder := by
  intro k _ hb
  cases binder with
  | none => rfl
  | some vd =>
    have hne : k ≠ vd.v.id.globalId := fun h => hb vd rfl h.symm
    simp [Env.setBinder, Env.set, hne]

theorem setBinder_self (σ : St.Env) (binder : Option ValDef) (w : St.Value) :
    ∀ vd ∈ binder, σ.setBinder binder w vd.v.id.globalId = some w := by
  rintro vd hvd
  obtain rfl : binder = some vd := hvd
  simp [Env.setBinder, Env.set]

/-- What is bound stays bound when other bindings are added. -/
theorem Bound.unchanged {bs : List (HirId × Hair.Value)} {hs : List HirId}
    (h : Bound tcx ids ctx σ bs) (hown : OwnIds ctx) (hu : Unchanged ctx σ σ' hs none)
    (hdisj : ∀ b ∈ bs, b.1 ∉ hs) : Bound tcx ids ctx σ' bs := by
  intro b hb
  obtain ⟨x, w, hx, hw, hσ⟩ := h b hb
  refine ⟨x, w, hx, hw, ?_⟩
  rw [hu x.id.globalId _ (by simp), hσ]
  intro g hg x' hx' heq
  obtain rfl := hown g b.1 x' x hx' hx heq
  exact hdisj b hb hg

/-- The subpatterns do with the values of the fields what the patterns of the fields do, wherever
these are listed. -/
theorem SubpatternsExtract.means {R : Hair.Pat → Pattern → Prop} (hown : OwnIds ctx) {i n : Nat}
    {fields : List (Nat × Hair.Pat)} {ps : List Pattern} (h : SubpatternsExtract R i n fields ps)
    (hsorted : fields.Pairwise fun a b => a.1 < b.1)
    (hbounds : ∀ f ∈ fields, i ≤ f.1 ∧ f.1 < i + n) (hnodup : (Hair.Pat.fieldVars fields).Nodup)
    {vs : List Hair.Value} {ws : List St.Value}
    (himgs : List.Forall₂ (fun v w => valueImage tcx ids v = some w) vs ws)
    (hlen : vs.length = i + n)
    (hR : ∀ f ∈ fields, ∀ q, R f.2 q → ∀ v w, valueImage tcx ids v = some w →
      PatMeans tcx ids ctx f.2 none q v w) :
    ((∀ f ∈ fields, patFaithful f.2 = true ∧
        ∃ v bs, vs[f.1]? = some v ∧ f.2.matchValue tcx v = some (some bs)) →
      ∀ σ, ∃ σ', Pattern.bindAll ps (ws.drop i) σ = some σ' ∧
        (∀ f ∈ fields, ∀ v bs, vs[f.1]? = some v → f.2.matchValue tcx v = some (some bs) →
          Bound tcx ids ctx σ' bs) ∧
        Unchanged ctx σ σ' (Hair.Pat.fieldVars fields) none) ∧
    ((∃ f ∈ fields, ∃ v, vs[f.1]? = some v ∧ f.2.matchValue tcx v = some none) →
      ∀ σ, Pattern.bindAll ps (ws.drop i) σ = none) := by
  have hwlen : ws.length = vs.length := himgs.length_eq.symm
  induction h with
  | @done i fields =>
    have hnone : ∀ f ∈ fields, False := by
      intro f hf
      have := hbounds f hf
      omega
    obtain rfl : fields = [] := List.eq_nil_iff_forall_not_mem.mpr hnone
    refine ⟨fun _ σ => ⟨σ, ?_, by simp, .refl _ _⟩, by simp⟩
    rw [List.drop_eq_nil_of_le (by omega), Pattern.bindAll]
  | @wildcard i n fields ps hhead _ ih =>
    have hbounds' : ∀ f ∈ fields, i + 1 ≤ f.1 ∧ f.1 < i + 1 + n := by
      intro f hf
      have hf' := hbounds f hf
      obtain ⟨g, rest, rfl⟩ := List.exists_cons_of_ne_nil (List.ne_nil_of_mem hf)
      have hg := hhead g rfl
      have hg' := hbounds g List.mem_cons_self
      rcases List.mem_cons.mp hf with rfl | hf
      · omega
      · have := (List.pairwise_cons.mp hsorted).1 f hf
        omega
    obtain ⟨hyes, hno⟩ := ih hsorted hbounds' hnodup (by omega) hR
    have hdrop : ws.drop i = ws[i] :: ws.drop (i + 1) := List.drop_eq_getElem_cons (by omega)
    have hbind : ∀ σ, Pattern.bindAll (.wildcard none :: ps) (ws.drop i) σ =
        Pattern.bindAll ps (ws.drop (i + 1)) σ := by
      intro σ
      rw [hdrop, Pattern.bindAll, Pattern.bind]
      rfl
    simp only [hbind]
    exact ⟨hyes, hno⟩
  | @pattern i n p q fields ps hpq _ ih =>
    obtain ⟨hfirst, hsorted'⟩ := List.pairwise_cons.mp hsorted
    have hbounds' : ∀ f ∈ fields, i + 1 ≤ f.1 ∧ f.1 < i + 1 + n := by
      intro f hf
      have h1 := hfirst f hf
      have h2 := hbounds f (List.mem_cons_of_mem _ hf)
      simp only at h1
      omega
    rw [Hair.Pat.fieldVars] at hnodup
    obtain ⟨hnodupP, hnodup', hdisj⟩ := List.nodup_append.mp hnodup
    obtain ⟨hyes, hno⟩ := ih hsorted' hbounds' hnodup' (by omega)
      fun f hf => hR f (List.mem_cons_of_mem _ hf)
    have hdrop : ws.drop i = ws[i] :: ws.drop (i + 1) := List.drop_eq_getElem_cons (by omega)
    have hvi : vs[i]? = some vs[i] := List.getElem?_eq_getElem (by omega)
    obtain ⟨v', hv', himg⟩ := forall₂_getElem? himgs (i := i) (List.getElem?_eq_getElem (by omega))
    obtain rfl := Option.some.inj (hvi.symm.trans hv')
    have hp := hR (i, p) List.mem_cons_self q hpq vs[i] ws[i] himg
    rw [hdrop]
    constructor
    · intro hall σ
      obtain ⟨hfaith, v, bs, hv, hmatch⟩ := hall (i, p) List.mem_cons_self
      obtain rfl := Option.some.inj (hvi.symm.trans hv)
      obtain ⟨σ₁, hbind, hbound, -, hun⟩ := hp.yes hfaith bs hmatch σ
      obtain ⟨σ₂, hbinds, hbounds₂, hun₂⟩ := hyes
        (fun f hf => hall f (List.mem_cons_of_mem _ hf)) σ₁
      refine ⟨σ₂, by rw [Pattern.bindAll, hbind]; exact hbinds, ?_, ?_⟩
      · refine List.forall_mem_cons.mpr ⟨fun v bs' hv hmatch' => ?_, hbounds₂⟩
        obtain rfl := Option.some.inj (hvi.symm.trans hv)
        obtain rfl : bs = bs' := by simpa using hmatch.symm.trans hmatch'
        refine hbound.unchanged hown hun₂ fun b hb hmem => ?_
        have hkey : b.1 ∈ p.vars := by
          rw [← matchValue_keys p hmatch]
          exact List.mem_map_of_mem hb
        exact hdisj b.1 hkey b.1 hmem rfl
      · rw [Hair.Pat.fieldVars]
        exact hun.trans hun₂
    · rintro ⟨f, hf, v, hv, hmatch⟩ σ
      rw [Pattern.bindAll]
      rcases List.mem_cons.mp hf with rfl | hf
      · obtain rfl := Option.some.inj (hvi.symm.trans hv)
        rw [hp.no hmatch σ]
      · cases q.bind ws[i] σ with
        | none => rfl
        | some σ₁ => exact hno ⟨f, hf, v, hv, hmatch⟩ σ₁

theorem Unchanged.mono {hs hs' : List HirId} {binder : Option ValDef}
    (h : Unchanged ctx σ σ' hs binder) (hsub : hs ⊆ hs') : Unchanged ctx σ σ' hs' binder :=
  fun k hk hb => h k (fun g hg => hk g (hsub hg)) hb

theorem fieldVars_eq_flatMap (fields : List (Nat × Hair.Pat)) :
    Hair.Pat.fieldVars fields = fields.flatMap fun f => f.2.vars := by
  induction fields with
  | nil => rfl
  | cons f rest ih => rw [Hair.Pat.fieldVars, List.flatMap_cons, ih]

theorem fieldVars_perm {fields fields' : List (Nat × Hair.Pat)} (h : fields.Perm fields') :
    (Hair.Pat.fieldVars fields).Perm (Hair.Pat.fieldVars fields') := by
  rw [fieldVars_eq_flatMap, fieldVars_eq_flatMap]
  exact h.flatMap_right _

/--
The subpatterns of a variant or a tuple, in the order of the fields, do what those that are listed
do.
-/
theorem fields_mean {R : Hair.Pat → Pattern → Prop} (hown : OwnIds ctx) {n : Nat}
    {fields : List (Nat × Hair.Pat)} {ps : List Pattern}
    (h : SubpatternsExtract R 0 n (sortByIndex fields) ps)
    (hfit : (fields.map Prod.fst).Nodup ∧ ∀ f ∈ fields, f.1 < n)
    (hnodup : (Hair.Pat.fieldVars fields).Nodup) {vs : List Hair.Value} {ws : List St.Value}
    (himgs : List.Forall₂ (fun v w => valueImage tcx ids v = some w) vs ws) (hlen : vs.length = n)
    (hR : ∀ f ∈ fields, ∀ q, R f.2 q → ∀ v w, valueImage tcx ids v = some w →
      PatMeans tcx ids ctx f.2 none q v w) :
    (fieldsFaithful fields = true → ∀ bs, Hair.Pat.matchFields tcx fields vs = some (some bs) →
      ∀ σ, ∃ σ', Pattern.bindAll ps ws σ = some σ' ∧ Bound tcx ids ctx σ' bs ∧
        Unchanged ctx σ σ' (Hair.Pat.fieldVars fields) none) ∧
    (Hair.Pat.matchFields tcx fields vs = some none → ∀ σ, Pattern.bindAll ps ws σ = none) := by
  have hperm := sortByIndex_perm fields
  have hbounds : ∀ f ∈ sortByIndex fields, 0 ≤ f.1 ∧ f.1 < 0 + n := by
    intro f hf
    have := hfit.2 f (mem_sortByIndex.mp hf)
    omega
  obtain ⟨hyes, hno⟩ := h.means hown (sortByIndex_strict hfit.1) hbounds
    ((fieldVars_perm hperm).nodup_iff.mpr hnodup) himgs (by omega)
    fun f hf => hR f (mem_sortByIndex.mp hf)
  rw [List.drop_zero] at hyes hno
  constructor
  · intro hfaith bs hbs σ
    obtain ⟨hall, hmem⟩ := matchFields_yes hbs
    obtain ⟨σ', hbind, hbound, hun⟩ := hyes (fun f hf =>
      ⟨fieldsFaithful_iff.mp hfaith f (mem_sortByIndex.mp hf), hall f (mem_sortByIndex.mp hf)⟩) σ
    refine ⟨σ', hbind, fun b hb => ?_, hun.mono (fieldVars_perm hperm).subset⟩
    obtain ⟨f, hf, v, bs', hv, hmatch, hb⟩ := hmem b hb
    exact hbound f (mem_sortByIndex.mpr hf) v bs' hv hmatch b hb
  · intro hbs
    obtain ⟨f, hf, hrest⟩ := matchFields_no hbs
    exact hno ⟨f, mem_sortByIndex.mpr hf, hrest⟩

/-- The constructors of an ADT have different ids. -/
def ConstructorsApart (tcx : Tcx) (ids : Ids) : Prop :=
  ∀ did sort, adtIds tcx ids did = some sort → (sort.map fun c => c.id.globalId).Nodup

/-- A binder that is bound first, and subpatterns that bind other variables. -/
theorem PatMeans.of_fields {p : Hair.Pat} {binder : Option ValDef} {q : Pattern} {v : Hair.Value}
    {w : St.Value} (fields : List (Nat × Hair.Pat)) (vs : List Hair.Value) (ps : List Pattern)
    (ws : List St.Value) (hvars : p.vars = Hair.Pat.fieldVars fields)
    (hfresh : ∀ vd ∈ binder, ∀ h ∈ p.vars, ∀ x, ctx.vars.get? h = some x →
      x.id.globalId ≠ vd.v.id.globalId)
    (hmatch : p.matchValue tcx v = Hair.Pat.matchFields tcx fields vs)
    (hfaith : patFaithful p = true → fieldsFaithful fields = true)
    (hbind : ∀ σ, q.bind w σ = Pattern.bindAll ps ws (σ.setBinder binder w))
    (hmeans : (fieldsFaithful fields = true →
      ∀ bs, Hair.Pat.matchFields tcx fields vs = some (some bs) →
      ∀ σ, ∃ σ', Pattern.bindAll ps ws σ = some σ' ∧ Bound tcx ids ctx σ' bs ∧
        Unchanged ctx σ σ' (Hair.Pat.fieldVars fields) none) ∧
      (Hair.Pat.matchFields tcx fields vs = some none → ∀ σ, Pattern.bindAll ps ws σ = none)) :
    PatMeans tcx ids ctx p binder q v w where
  yes := by
    intro hp bs hbs σ
    rw [hmatch] at hbs
    obtain ⟨σ', hσ', hbound, hun⟩ := hmeans.1 (hfaith hp) bs hbs (σ.setBinder binder w)
    refine ⟨σ', by rw [hbind, hσ'], hbound, fun vd hvd => ?_, ?_⟩
    · rw [hun vd.v.id.globalId (fun h hh x hx => hfresh vd hvd h (hvars ▸ hh) x hx) (by simp)]
      exact setBinder_self σ binder w vd hvd
    · rw [hvars]
      exact (unchanged_setBinder σ binder w).trans hun
  no := by
    intro hbs σ
    rw [hmatch] at hbs
    rw [hbind, hmeans.2 hbs]

/-- Scalars are equal if their images are. -/
theorem scalarEq_image {c v : Hair.Value} {b : Bool} {wc w : St.Value}
    (h : c.scalarEq v = some b) (hc : valueImage tcx ids c = some wc)
    (hv : valueImage tcx ids v = some w) : wc.same w = b := by
  cases c with
  | bool x =>
    cases v with
    | bool y =>
      obtain rfl := Option.some.inj hc
      obtain rfl := Option.some.inj hv
      simpa [Hair.Value.scalarEq, Value.same] using h
    | _ => simp [Hair.Value.scalarEq] at h
  | int s n x =>
    cases v with
    | int s' n' y =>
      obtain rfl := Option.some.inj hc
      obtain rfl := Option.some.inj hv
      by_cases hty : s = s' ∧ n = n'
      · obtain ⟨rfl, rfl⟩ := hty
        simpa [Hair.Value.scalarEq, Value.same] using h
      · simp [Hair.Value.scalarEq, hty] at h
    | _ => simp [Hair.Value.scalarEq] at h
  | tuple us =>
    cases us with
    | nil =>
      cases v with
      | tuple vs =>
        cases vs with
        | nil =>
          obtain rfl : St.Value.unit = wc := Option.some.inj hc
          obtain rfl : St.Value.unit = w := Option.some.inj hv
          obtain rfl : true = b := Option.some.inj h
          rw [Value.same]
        | cons v vs => simp [Hair.Value.scalarEq] at h
      | _ => simp [Hair.Value.scalarEq] at h
    | cons u us => simp [Hair.Value.scalarEq] at h
  | _ => simp [Hair.Value.scalarEq] at h

/-- A pattern and its translation match the same values. -/
theorem PatExtracts.means (hown : OwnIds ctx) (happart : ConstructorsApart tcx ids) {p : Hair.Pat}
    {binder : Option ValDef} {q : Pattern} (h : PatExtracts tcx ids ctx p binder q) :
    PatOk tcx p → p.vars.Nodup →
    (∀ vd ∈ binder, ∀ h ∈ p.vars, ∀ x, ctx.vars.get? h = some x →
      x.id.globalId ≠ vd.v.id.globalId) →
    ∀ v w, valueImage tcx ids v = some w → PatMeans tcx ids ctx p binder q v w := by
  refine PatExtracts.induct (P := fun p binder q => PatOk tcx p → p.vars.Nodup →
    (∀ vd ∈ binder, ∀ h ∈ p.vars, ∀ x, ctx.vars.get? h = some x →
      x.id.globalId ≠ vd.v.id.globalId) →
    ∀ v w, valueImage tcx ids v = some w → PatMeans tcx ids ctx p binder q v w)
    (fun p binder q hrule hok hnodup hfresh v w hvw => ?_) p binder q h
  -- What the induction says of the fields of a variant or a tuple.
  have hfields : ∀ {fields : List (Nat × Hair.Pat)}, PatOk.fields tcx fields →
      (Hair.Pat.fieldVars fields).Nodup → ∀ f ∈ fields, ∀ q,
      (PatExtracts tcx ids ctx f.2 none q ∧ (PatOk tcx f.2 → f.2.vars.Nodup →
        (∀ vd ∈ (none : Option ValDef), ∀ h ∈ f.2.vars, ∀ x, ctx.vars.get? h = some x →
          x.id.globalId ≠ vd.v.id.globalId) →
        ∀ v w, valueImage tcx ids v = some w → PatMeans tcx ids ctx f.2 none q v w)) →
      ∀ v w, valueImage tcx ids v = some w → PatMeans tcx ids ctx f.2 none q v w := by
    intro fields hok hnodup f hf q hq v w hvw
    rw [fieldVars_eq_flatMap] at hnodup
    exact hq.2 (PatOk.of_fields hok f hf)
      ((List.nodup_flatMap.mp hnodup).1 f hf) (by simp) v w hvw
  cases hrule with
  | wild =>
    refine ⟨fun _ bs hbs σ => ⟨_, Pattern.bind.eq_1 _ _ _, ?_, setBinder_self σ binder w, ?_⟩, ?_⟩
    · obtain rfl : bs = [] := by simpa [Hair.Pat.matchValue, eq_comm] using hbs
      simp [Bound]
    · exact unchanged_setBinder σ binder w
    · simp [Hair.Pat.matchValue]
  | @binding ty mode var x hmode hx =>
    have hbound : valueImage tcx ids (mode.bound v) = some w := by
      cases mode with
      | byValue => exact hvw
      | byRef kind => exact hvw
    refine ⟨fun hfaith bs hbs σ => ⟨_, Pattern.bind.eq_1 _ _ _, ?_, by simp, ?_⟩, ?_⟩
    · obtain rfl : bs = [(var, mode.bound v)] := by
        simpa [Hair.Pat.matchValue, Hair.Pat.matchOpt, eq_comm] using hbs
      refine List.forall_mem_cons.mpr ⟨⟨x, w, hx, hbound, ?_⟩, by simp⟩
      exact setBinder_self σ (some { v := x }) w { v := x } rfl
    · intro k hk _
      have hset : Unchanged ctx σ (σ.setBinder (some { v := x }) w) [] (some { v := x }) :=
        unchanged_setBinder σ (some { v := x }) w
      refine hset k (by simp) fun vd hvd => ?_
      obtain rfl : ({ v := x } : ValDef) = vd := by simpa using hvd
      exact hk var (by simp [Hair.Pat.vars]) x hx
    · simp [Hair.Pat.matchValue, Hair.Pat.matchOpt]
  | @bindingAt ty mode var x p q hmode hx hp =>
    have hbound : valueImage tcx ids (mode.bound v) = some w := by
      cases mode with
      | byValue => exact hvw
      | byRef kind => exact hvw
    rw [Hair.Pat.vars, Hair.Pat.optVars] at hnodup
    obtain ⟨hvar, hnodup⟩ := List.nodup_cons.mp hnodup
    have hfresh' : ∀ vd ∈ some ({ v := x } : ValDef), ∀ h ∈ p.vars, ∀ y,
        ctx.vars.get? h = some y → y.id.globalId ≠ vd.v.id.globalId := by
      intro vd hvd h hh y hy heq
      obtain rfl : ({ v := x } : ValDef) = vd := by simpa using hvd
      obtain rfl := hown h var y x hy hx heq
      exact hvar hh
    have hmeans := hp.2 hok hnodup hfresh' v w hvw
    refine ⟨fun hfaith bs hbs σ => ?_, fun hno σ => hmeans.no ?_ σ⟩
    · simp only [Hair.Pat.matchValue, Hair.Pat.matchOpt, Option.map_eq_some_iff] at hbs
      obtain ⟨r, hr, bs', rfl, rfl⟩ := hbs
      obtain ⟨σ', hbind, hb, hbinder, hun⟩ := hmeans.yes hfaith bs' hr σ
      refine ⟨σ', hbind, List.forall_mem_cons.mpr ⟨⟨x, w, hx, hbound, ?_⟩, hb⟩, by simp, ?_⟩
      · exact hbinder { v := x } rfl
      · intro k hk _
        refine hun k (fun h hh => hk h (by simp [Hair.Pat.vars, Hair.Pat.optVars, hh])) ?_
        intro vd hvd
        obtain rfl : ({ v := x } : ValDef) = vd := by simpa using hvd
        exact hk var (by simp [Hair.Pat.vars]) x hx
    · simp only [Hair.Pat.matchValue, Hair.Pat.matchOpt, Option.map_eq_some_iff] at hno
      obtain ⟨r, hr, hnone⟩ := hno
      rw [hr]
      cases r with
      | none => rfl
      | some bs => simp at hnone
  | @variant ty did substs variantIndex fields binder sort constructor argTps ps hsort hcons _
      hps =>
    cases v with
    | adt did' i' vs =>
      obtain ⟨c, hc, hvw⟩ := Option.bind_eq_some_iff.mp hvw
      obtain ⟨ws, hws, rfl⟩ := Option.map_eq_some_iff.mp hvw
      have himgs := valueImages_eq_some.mp hws
      have hlength := adtIds_fields hsort hcons
      by_cases hdid : did = did' ∧ Hair.numFields tcx did' i' = some vs.length
      swap
      · exact ⟨fun _ bs hbs => by simp [Hair.Pat.matchValue, hdid] at hbs,
          fun hno => by simp [Hair.Pat.matchValue, hdid] at hno⟩
      obtain ⟨rfl, hnum⟩ := hdid
      obtain ⟨sort', hsort', hc⟩ := Option.bind_eq_some_iff.mp hc
      obtain rfl := Option.some.inj (hsort.symm.trans hsort')
      obtain ⟨constructor', hcons', hc⟩ := Option.bind_eq_some_iff.mp hc
      obtain rfl := Option.some.inj hc
      by_cases hindex : variantIndex = i'
      · subst hindex
        obtain rfl := Option.some.inj (hcons.symm.trans hcons')
        have hlen : vs.length = constructor.fields.length :=
          Option.some.inj (hnum.symm.trans hlength)
        refine PatMeans.of_fields fields vs ps ws
          (by rw [Hair.Pat.vars]) hfresh ?_ ?_ ?_ ?_
        · simp [Hair.Pat.matchValue, hnum]
        · exact fun hfaith => hfaith
        · intro σ
          rw [Pattern.bind, if_pos rfl]
        · refine fields_mean hown hps (hok.1 _ hlength) ?_ himgs hlen
            (hfields hok.2 ?_)
          · simpa [Hair.Pat.vars] using hnodup
          · simpa [Hair.Pat.vars] using hnodup
      · have hne : constructor.id.globalId ≠ constructor'.id.globalId := by
          intro heq
          obtain ⟨hlt, -⟩ := List.getElem?_eq_some_iff.mp hcons
          refine hindex ((List.getElem?_inj (by simpa using hlt) (happart did sort hsort)).mp ?_)
          rw [List.getElem?_map, List.getElem?_map, hcons, hcons', Option.map_some,
            Option.map_some, heq]
        refine ⟨fun _ bs hbs => by simp [Hair.Pat.matchValue, hindex] at hbs, fun _ σ => ?_⟩
        rw [Pattern.bind, if_neg hne]
    | _ => exact ⟨fun _ bs hbs => by simp [Hair.Pat.matchValue] at hbs,
        fun hno => by simp [Hair.Pat.matchValue] at hno⟩
  | @leafAdt did substs fields binder constructor argTps ps hsort _ hps =>
    cases v with
    | adt did' i' vs =>
      obtain ⟨c, hc, hvw⟩ := Option.bind_eq_some_iff.mp hvw
      obtain ⟨ws, hws, rfl⟩ := Option.map_eq_some_iff.mp hvw
      have himgs := valueImages_eq_some.mp hws
      have hlength := adtIds_fields (i := 0) hsort rfl
      by_cases hdid : did = did' ∧ i' = 0 ∧ Hair.numFields tcx did' 0 = some vs.length
      swap
      · exact ⟨fun _ bs hbs => by simp [Hair.Pat.matchValue, hdid] at hbs,
          fun hno => by simp [Hair.Pat.matchValue, hdid] at hno⟩
      obtain ⟨rfl, rfl, hnum⟩ := hdid
      obtain ⟨sort', hsort', hc⟩ := Option.bind_eq_some_iff.mp hc
      obtain rfl := Option.some.inj (hsort.symm.trans hsort')
      obtain rfl : constructor.id.globalId = c := by simpa using hc
      have hlen : vs.length = constructor.fields.length :=
        Option.some.inj (hnum.symm.trans hlength)
      refine PatMeans.of_fields fields vs ps ws
        (by rw [Hair.Pat.vars]) hfresh ?_ ?_ ?_ ?_
      · simp [Hair.Pat.matchValue, hnum]
      · exact fun hfaith => (Bool.and_eq_true_iff.mp hfaith).2
      · intro σ
        rw [Pattern.bind, if_pos rfl]
      · refine fields_mean hown hps (hok.1 _ hlength) ?_ himgs hlen
          (hfields hok.2 ?_)
        · simpa [Hair.Pat.vars] using hnodup
        · simpa [Hair.Pat.vars] using hnodup
    | _ => exact ⟨fun _ bs hbs => by simp [Hair.Pat.matchValue] at hbs,
        fun hno => by simp [Hair.Pat.matchValue] at hno⟩
  | @leafTuple tys fields binder ps hps =>
    cases v with
    | tuple vs =>
      obtain ⟨ws, hws, rfl⟩ := Option.map_eq_some_iff.mp hvw
      have himgs := valueImages_eq_some.mp hws
      by_cases hlen : tys.length = vs.length
      swap
      · exact ⟨fun _ bs hbs => by simp [Hair.Pat.matchValue, hlen] at hbs,
          fun hno => by simp [Hair.Pat.matchValue, hlen] at hno⟩
      -- The value of the empty tuple is no tuple, and no tuple pattern matches it.
      by_cases hunit : tys = []
      · subst hunit
        obtain rfl : vs = [] := List.eq_nil_of_length_eq_zero hlen.symm
        cases himgs
        exact ⟨fun hfaith => by simp [patFaithful, Ty.unit] at hfaith, fun _ σ => by
          rw [tupleValue, Pattern.bind]
          all_goals simp⟩
      have htuple : tupleValue ws = .tuple ws := by
        cases ws with
        | nil =>
          have hvs : vs.length = 0 := himgs.length_eq
          exact absurd (List.eq_nil_of_length_eq_zero (hlen.trans hvs)) hunit
        | cons w ws => rfl
      refine PatMeans.of_fields fields vs ps ws
        (by rw [Hair.Pat.vars]) hfresh ?_ ?_ ?_ ?_
      · simp [Hair.Pat.matchValue, hlen]
      · exact fun hfaith => (Bool.and_eq_true_iff.mp hfaith).2
      · intro σ
        rw [htuple, Pattern.bind]
      · refine fields_mean hown hps (hok.1 _ rfl) ?_ himgs hlen.symm
          (hfields hok.2 ?_)
        · simpa [Hair.Pat.vars] using hnodup
        · simpa [Hair.Pat.vars] using hnodup
    | _ => exact ⟨fun _ bs hbs => by simp [Hair.Pat.matchValue] at hbs,
        fun hno => by simp [Hair.Pat.matchValue] at hno⟩
  | @constant ty konst binder lit hlit =>
    cases hconst : Hair.constValue konst with
    | none => exact ⟨fun _ bs hbs => by simp [Hair.Pat.matchValue, hconst] at hbs,
        fun hno => by simp [Hair.Pat.matchValue, hconst] at hno⟩
    | some c =>
      have hsame : ∀ wc, lit.value = some wc → ∀ b, c.scalarEq v = some b →
          lit.matchesValue w = b := by
        intro wc hvalue b hb
        rw [Literal.matchesValue, hvalue]
        exact scalarEq_image hb (literalTryFrom_value hlit hconst hvalue) hvw
      have hbind : ∀ σ, (Pattern.literal binder lit).bind w σ =
          if lit.matchesValue w then some (σ.setBinder binder w) else none := fun σ => by
        rw [Pattern.bind]
      refine ⟨fun hfaith bs hbs σ => ?_, fun hno σ => ?_⟩
      · simp only [Hair.Pat.matchValue, hconst, Option.bind_some, Option.map_eq_some_iff] at hbs
        obtain ⟨b, hb, hbs⟩ := hbs
        cases b with
        | true =>
          obtain rfl : bs = [] := by simpa [eq_comm] using hbs
          obtain ⟨wc, -, hvalue⟩ :=
            literalTryFrom_image tcx ids hlit hconst hfaith
          refine ⟨_, by rw [hbind, hsame wc hvalue true hb, if_pos rfl], by simp [Bound],
            setBinder_self σ binder w, ?_⟩
          exact unchanged_setBinder σ binder w
        | false => simp at hbs
      · simp only [Hair.Pat.matchValue, hconst, Option.bind_some, Option.map_eq_some_iff] at hno
        obtain ⟨b, hb, hno⟩ := hno
        cases b with
        | true => simp at hno
        | false =>
          -- A literal without a value matches nothing.
          have hnot : lit.matchesValue w = false := by
            cases hvalue : lit.value with
            | none => rw [Literal.matchesValue, hvalue]
            | some wc => exact hsame wc hvalue false hb
          rw [hbind, hnot]
          rfl
  | @deref ty p binder q hp =>
    rw [Hair.Pat.vars] at hnodup hfresh
    have hdown : ∀ u, valueImage tcx ids u = some w →
        (Hair.Pat.deref ty p).matchValue tcx v = p.matchValue tcx u →
        PatMeans tcx ids ctx (.deref ty p) binder q v w := by
      intro u huw hmatch
      have hmeans := hp.2 hok hnodup hfresh u w huw
      exact ⟨fun hfaith bs hbs => hmeans.yes hfaith bs (hmatch ▸ hbs),
        fun hno => hmeans.no (hmatch ▸ hno)⟩
    cases v with
    | ref u => exact hdown u hvw (by rw [Hair.Pat.matchValue])
    | box u => exact hdown u hvw (by rw [Hair.Pat.matchValue])
    | _ => exact ⟨fun _ bs hbs => by simp [Hair.Pat.matchValue] at hbs,
        fun hno => by simp [Hair.Pat.matchValue] at hno⟩

end Patterns

end Stainless
