import RustStainless.Lib.Settled
import RustStainless.Extraction.AdtReturns
import RustStainless.Extraction.IdRunsKrate

/-!
# The extraction of types and ADTs terminates

In the source nothing bounds the mutual recursion of `extract_ty` and `extract_adt`, and the types
that are passed down may grow. `extractAdtBelow` keeps the chain of the ADTs whose fields are being
extracted and does an arbitrary thing, `stuck`, in place of going too deep or of looking at the
fields of one of them again. It comes to neither, whatever the ADTs are: an ADT has its id before
its fields are looked at, so every level of a chain leaves fewer ADTs without an id.
-/

namespace Stainless

open Rustc St Lib Extraction

/-! ## Chains of ADTs -/

/-- `extract_adt` below the ADTs of `chain`, whose fields are being extracted. -/
def extractAdtBelow (tcx : Tcx) (stuck : Xtor ADTSort) : Nat → List DefId → DefId → Xtor ADTSort
  | 0, _, _ => stuck
  | depth + 1, chain, d => do
    match ← getSort d with
    | some sort => pure sort
    | none => do
      let adtId ← registerDef tcx d
      match tcx.adtDef d with
      | none => Run.panic .noAdtDef
      | some adtDef =>
        if d ∈ chain then stuck
        else
          extractSort tcx (extractAdtIdWith (extractAdtBelow tcx stuck depth (d :: chain))) adtId d
            adtDef

/-- At most `k` ADTs have no id yet, and those of the chain have one. -/
structure ChainOk (tcx : Tcx) (k : Nat) (chain : List DefId) (s : Extraction) : Prop where
  pending : pendingAdts tcx s ≤ k
  registered : ∀ d ∈ chain, s.didId d ≠ none

variable {tcx : Tcx} {k : Nat} {chain : List DefId}

theorem chainOk_stable : Stable (ChainOk tcx k chain) := fun s s' hg hs =>
  { pending := pendingAdts_stable tcx k s s' hg hs.pending
    registered := fun d hd => hg.didId_ne_none (hs.registered d hd) }

/-- The registration of an ADT makes the chain longer and leaves fewer ADTs without an id. -/
theorem ChainOk.withDef {s : Extraction} {a : AdtDef} (h : ChainOk tcx (k + 1) chain s)
    (ha : a ∈ tcx.adtDefs) (hd : s.didId a.did = none) :
    ChainOk tcx k (a.did :: chain) (s.withDef tcx a.did) where
  pending := Nat.le_of_lt_succ (Nat.lt_of_lt_of_le (pendingAdts_withDef ha hd) h.pending)
  registered := by
    intro e he
    rcases List.mem_cons.mp he with rfl | he
    · simp [withDef_didId tcx hd]
    · exact (grows_withDef hd).didId_ne_none (h.registered e he)

/-! ## Agreement -/

/-- The two computations agree from the states in which a chain is as deep as it may be. -/
abbrev Agrees {α : Type} (tcx : Tcx) (k : Nat) (chain : List DefId) (x y : Xtor α) : Prop :=
  Run.Agrees Grows (ChainOk tcx k chain) .tooDeep x y

def agreesRel (tcx : Tcx) (k : Nat) (chain : List DefId) :
    MonadRel (Run Panic Extraction) (Run Panic Extraction) :=
  Run.agrees Panic (R := Grows) .tooDeep Grows.refl (fun h h' => h.trans h')
    (@chainOk_stable tcx k chain)

theorem keepsRel_agrees : KeepsRel tcx (agreesRel tcx k chain) where
  report := fun m =>
    .self (show ByOps tcx (Stainless.report m) from report_byOps m).grows fun s h => by cases h
  getOrRegisterDef := fun d => .self (getOrRegisterDef_byOps d).grows fun s h => by
    cases hd : s.didId d with
    | some id => rw [getOrRegisterDef_of_some hd] at h; cases h
    | none => rw [getOrRegisterDef_of_none hd] at h; cases h
  panic := fun e he => .panic he

theorem extractAdtIdWith_agrees {adt adt' : DefId → Xtor ADTSort}
    (hadt : ∀ d, Agrees tcx k chain (adt d) (adt' d)) (d : DefId) :
    Agrees tcx k chain (extractAdtIdWith adt d) (extractAdtIdWith adt' d) := by
  refine (agreesRel tcx k chain).bind ?_ fun id => ?_
  · exact .self (show ByOps tcx (getIdFromDef d) from getIdFromDef_byOps d).grows
      fun s h => by cases h
  · cases id with
    | some id => exact (agreesRel tcx k chain).pure id
    | none => exact (agreesRel tcx k chain).bind (hadt d) fun sort => MonadRel.pure _ sort.id

/-- One level of `extract_adt`, when the levels below agree on the parts of a new ADT. -/
theorem extractAdtBelow_step {stuck : Xtor ADTSort} {n m : Nat} {d : DefId} {s : Extraction}
    (hs : ChainOk tcx k chain s)
    (hparts : ∀ a, tcx.adtDef d = some a → s.didId d = none →
      let x := extractSort tcx (extractAdtIdWith (extractAdtWith tcx n)) (s.defIdent tcx d) d a
      let y := extractSort tcx (extractAdtIdWith (extractAdtBelow tcx stuck m (d :: chain)))
        (s.defIdent tcx d) d a
      x (s.withDef tcx d) = y (s.withDef tcx d) ∧ x (s.withDef tcx d) ≠ .error .tooDeep) :
    extractAdtWith tcx (n + 1) d s = extractAdtBelow tcx stuck (m + 1) chain d s ∧
      extractAdtWith tcx (n + 1) d s ≠ .error .tooDeep := by
  rw [extractAdtWith, extractAdtBelow, Run.bind_eq getSort_eq, Run.bind_eq getSort_eq]
  cases (s.didId d).bind fun id => s.adts.get? id.globalId with
  | some sort => exact ⟨rfl, fun h => by cases h⟩
  | none =>
    simp only
    cases hd : s.didId d with
    | some id =>
      have herr : registerDef tcx d s = .error .registerDef := registerDef_error (by simp [hd])
      rw [Run.bind_error herr, Run.bind_error herr]
      exact ⟨rfl, fun h => by cases h⟩
    | none =>
      rw [Run.bind_eq (registerDef_eq hd), Run.bind_eq (registerDef_eq hd)]
      cases ha : tcx.adtDef d with
      | none => exact ⟨rfl, fun h => by cases h⟩
      | some a =>
        have hnew : d ∉ chain := fun hmem => hs.registered d hmem hd
        simp only [if_neg hnew]
        exact hparts a ha hd

/-- With a level for every ADT that has no id yet, the recursion comes to no dead end. -/
theorem extractAdtBelow_agrees (stuck : Xtor ADTSort) (n m : Nat) : ∀ (k : Nat)
    (chain : List DefId) (d : DefId), Agrees tcx k chain (extractAdtWith tcx (k + n + 1) d)
      (extractAdtBelow tcx stuck (k + m + 1) chain d) := by
  intro k
  induction k with
  | zero =>
    -- Every ADT has an id, so none is new.
    intro chain d
    have hstep : ∀ s, ChainOk tcx 0 chain s →
        extractAdtWith tcx (0 + n + 1) d s = extractAdtBelow tcx stuck (0 + m + 1) chain d s ∧
          extractAdtWith tcx (0 + n + 1) d s ≠ .error .tooDeep := by
      intro s hs
      refine extractAdtBelow_step hs fun a ha hd => ?_
      have hpos := pendingAdts_pos (Tcx.adtDef_mem ha) ((Tcx.adtDef_did ha).symm ▸ hd)
      have hnone := hs.pending
      omega
    exact
      { moves := (extractAdtWith_byOps _ d).grows
        same := fun s hs => (hstep s hs).1
        avoids := fun s hs => (hstep s hs).2 }
  | succ k ih =>
    intro chain d
    have hstep : ∀ s, ChainOk tcx (k + 1) chain s →
        extractAdtWith tcx (k + n + 1 + 1) d s
            = extractAdtBelow tcx stuck (k + m + 1 + 1) chain d s ∧
          extractAdtWith tcx (k + n + 1 + 1) d s ≠ .error .tooDeep := by
      intro s hs
      refine extractAdtBelow_step hs fun a ha hd => ?_
      obtain rfl := Tcx.adtDef_did ha
      have hs' := hs.withDef (Tcx.adtDef_mem ha) hd
      have hparts := extractSort_rel keepsRel_agrees
        (extractAdtIdWith_agrees (ih (a.did :: chain))) (s.defIdent tcx a.did) a.did a
      exact ⟨hparts.same _ hs', hparts.avoids _ hs'⟩
    rw [show k + 1 + n = k + n + 1 by omega, show k + 1 + m = k + m + 1 by omega]
    exact
      { moves := (extractAdtWith_byOps _ d).grows
        same := fun s hs => (hstep s hs).1
        avoids := fun s hs => (hstep s hs).2 }

/-- No more ADTs are without an id than there are ADTs. -/
theorem chainOk_nil (s : Extraction) : ChainOk tcx tcx.adtDefs.length [] s where
  pending := List.length_filter_le _ _
  registered := by simp

theorem extractAdt_agrees_below (stuck : Xtor ADTSort) (n : Nat) (d : DefId) :
    Agrees tcx tcx.adtDefs.length [] (extractAdt tcx d)
      (extractAdtBelow tcx stuck (adtDepth tcx + n) [] d) := by
  have h : Agrees tcx _ [] _ _ := extractAdtBelow_agrees stuck 0 n tcx.adtDefs.length [] d
  rw [Nat.add_right_comm _ n] at h
  exact h

/-- A deeper recursion does the same. -/
theorem extractAdt_agrees_deeper (n : Nat) (d : DefId) :
    Agrees tcx tcx.adtDefs.length [] (extractAdt tcx d)
      (extractAdtWith tcx (adtDepth tcx + n) d) := by
  have h : Agrees tcx _ [] _ _ :=
    extractAdtBelow_agrees (Run.panic .tooDeep) n n tcx.adtDefs.length [] d
  rw [Nat.add_right_comm] at h
  have h0 : Agrees tcx _ [] _ _ := extractAdt_agrees_below (Run.panic .tooDeep) n d
  exact
    { moves := h0.moves
      same := fun s hs => (h0.same s hs).trans (h.same s hs).symm
      avoids := h0.avoids }

/-! ## Termination -/

/-- The extraction functions do what they do over `adt`, and never for want of depth. -/
structure SettledBy (tcx : Tcx) (adt : DefId → Xtor ADTSort) (s : Extraction) : Prop where
  forAdt : ∀ d, extractAdt tcx d s = adt d s ∧ extractAdt tcx d s ≠ .error .tooDeep
  forAdtId : ∀ d, extractAdtId tcx d s = extractAdtIdWith adt d s ∧
    extractAdtId tcx d s ≠ .error .tooDeep
  forTy : ∀ txtcx ty,
    extractTy tcx txtcx ty s = extractTyWith tcx (extractAdtIdWith adt) txtcx ty s ∧
    extractTy tcx txtcx ty s ≠ .error .tooDeep
  forTys : ∀ txtcx tys,
    extractTys tcx txtcx tys s = extractTysWith tcx (extractAdtIdWith adt) txtcx tys s ∧
    extractTys tcx txtcx tys s ≠ .error .tooDeep

theorem settledBy_of_agrees {adt : DefId → Xtor ADTSort}
    (h : ∀ d, Agrees tcx tcx.adtDefs.length [] (extractAdt tcx d) (adt d)) (s : Extraction) :
    SettledBy tcx adt s := by
  have hs : ChainOk tcx tcx.adtDefs.length [] s := chainOk_nil s
  have hkeeps : KeepsRel tcx (agreesRel tcx tcx.adtDefs.length []) := keepsRel_agrees
  have hid := extractAdtIdWith_agrees h
  exact
    { forAdt := fun d => ⟨(h d).same s hs, (h d).avoids s hs⟩
      forAdtId := fun d => ⟨(hid d).same s hs, (hid d).avoids s hs⟩
      forTy := fun txtcx ty =>
        have hty := extractTyWith_rel txtcx hkeeps hid ty
        ⟨hty.same s hs, hty.avoids s hs⟩
      forTys := fun txtcx tys =>
        have htys := extractTysWith_rel txtcx hkeeps hid tys
        ⟨htys.same s hs, htys.avoids s hs⟩ }

/--
**The extraction of types and ADTs terminates**, on all ADTs and from every state: a recursion of
any greater depth gives the same result, and the fields of no ADT are looked at twice in one chain
of calls.
-/
theorem extractTy_terminates (tcx : Tcx) (stuck : Xtor ADTSort) (n : Nat) (s : Extraction) :
    SettledBy tcx (extractAdtWith tcx (adtDepth tcx + n)) s ∧
      SettledBy tcx (extractAdtBelow tcx stuck (adtDepth tcx + n) []) s :=
  ⟨settledBy_of_agrees (extractAdt_agrees_deeper n) s,
    settledBy_of_agrees (extractAdt_agrees_below stuck n) s⟩

/-- `struct Nest<T> { next: &Nest<(T, T)> }` -/
example :
    let nest : DefId := ⟨0, 1⟩
    let tcx : Tcx :=
      { Tcx.empty with
        adtDefs := [{ did := nest, isBox := false, variants := [{ defId := nest, fields := [
          { did := ⟨0, 2⟩, name := "next",
            ty := .ref (.adt nest [.tuple [.param 0, .param 0]]) .not }] }] }]
        genericsOf := fun _ => .root [{ defId := ⟨0, 3⟩, index := 0, kind := .type }] }
    ∃ sort s, extractAdt tcx nest .new = .ok (sort, s) ∧ sort.constructors.length = 1 :=
  ⟨_, _, rfl, rfl⟩

end Stainless
