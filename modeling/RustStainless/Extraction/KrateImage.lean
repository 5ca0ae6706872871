import RustStainless.Extraction.AdtLoop
import RustStainless.Extraction.FnImage
import RustStainless.Extraction.Visitor

/-!
# Extraction of a crate

What the state holds when `process_crate` has ended without an error: a sort for each local ADT, a
function for each function of the visitor, put together from images, and a stub for each external
function that was referred to.
-/

namespace Stainless

open Rustc St Lib Extraction

/-! ## The result of an extraction -/

section Result

variable (tcx : Tcx) (w : View)

/-- The entry of a local function, with the specs that the visitor found for it. -/
def FnEntry (v : ItemVisitor) (f : FnItem) (e : Int × FunDef) : Prop :=
  e.1 = e.2.id.globalId ∧ (v.fnSpecs f.defId).measureFns.length ≤ 1 ∧
    ∃ p, FnImage tcx w f.defId (v.fnSpecs f.defId).preFns (v.fnSpecs f.defId).postFns
      (v.fnSpecs f.defId).measureFns.head? e.2 p

/-- The stub of an external function. -/
structure ExternImage (d : DefId) (fd : FunDef) : Prop where
  id : w.ids d = some fd.id
  types : ∃ txtcx : TyExtractionCtxt,
    List.Forall₂ (fun ty vd => suppImage tcx w.ids txtcx.indexToTparam.get? ty = some vd.v.tpe)
      (tcx.fnSig d).inputs fd.params ∧
    suppImage tcx w.ids txtcx.indexToTparam.get? (tcx.fnSig d).output = some fd.returnType
  fullBody : fd.fullBody = .noTree fd.returnType

def ExternEntry (d : DefId) (e : Int × FunDef) : Prop :=
  e.1 = e.2.id.globalId ∧ ExternImage tcx w d e.2

end Result

/-- What the state holds at the end. -/
structure CrateExtracted (tcx : Tcx) (v : ItemVisitor) (s : Extraction) : Prop where
  inv : BodyInv tcx s
  store : StoreOk tcx v.adts s
  functions : ∃ externals entries stubs, s.functions = entries ++ stubs ∧
    List.Forall₂ (FnEntry tcx s.view v) v.functions entries ∧
    List.Forall₂ (ExternEntry tcx s.view) externals stubs ∧
    ∀ d, d ∈ externals ↔ d ∈ s.functionRefs ∧ d.isLocal = false

variable {tcx : Tcx}

/-! ## The loop over the ADTs -/

theorem BodyInv.addFunction {s : Extraction} (hi : BodyInv tcx s) (k : Int) (fd : FunDef) :
    BodyInv tcx { s with functions := s.functions ++ [(k, fd)] } :=
  ⟨hi.ids.of_mapping rfl, hi.sorts, hi.refs, hi.known⟩

theorem BodyInv.new (tcx : Tcx) : BodyInv tcx Extraction.new where
  ids := .new tcx
  sorts := by
    intro k sort h
    simp [Extraction.new] at h
  refs := fun d _ h => absurd rfl h
  known := by simp [Extraction.new]

/-- Without a change of the entries. -/
structure SameFunctions (s s' : Extraction) : Prop where
  functions : s'.functions = s.functions
  functionRefs : s'.functionRefs = s.functionRefs

theorem extractLocalAdts_inv (hok : TcxOk tcx) : ∀ (ds : List DefId) {u : Unit}
    {s s' : Extraction}, BodyInv tcx s → extractLocalAdts tcx ds s = .ok (u, s') →
    BodyInv tcx s' ∧ Grows s s' ∧ SameFunctions s s' := by
  intro ds
  induction ds with
  | nil =>
    intro u s s' hi h
    obtain ⟨-, rfl⟩ := Run.pure_ok.mp h
    exact ⟨hi, .refl s, rfl, rfl⟩
  | cons d ds ih =>
    intro u s s' hi h
    rw [extractLocalAdts] at h
    obtain ⟨sort, s₁, h1, h⟩ := Run.bind_ok.mp h
    obtain ⟨_, s₂, h2, h3⟩ := Run.bind_ok.mp h
    obtain ⟨hn, rfl⟩ := addAdt_ok.mp h2
    cases hstored : (s.didId d).bind fun id => s.adts.get? id.globalId with
    | some stored =>
      -- A sort that is stored already would be added twice.
      have h1' : extractAdt tcx d s = .ok (stored, s) := by
        unfold extractAdt adtDepth extractAdtWith
        rw [Run.bind_eq getSort_eq, hstored]
        rfl
      obtain ⟨rfl, rfl⟩ := Prod.mk.inj (Except.ok.inj (h1'.symm.trans h1))
      obtain ⟨id, hid, hsort⟩ := Option.bind_eq_some_iff.mp hstored
      have := (hi.sorts _ _ hsort).1
      rw [this, hsort] at hn
      simp at hn
    | none =>
      have hex := extractAdt_fresh hok hstored h1
      have hi₁ := hex.moves.bodyMoves.inv hi
      have hg₂ := grows_addAdt (s := s₁) sort.id.globalId sort
      have hi₂ : BodyInv tcx { s₁ with adts := s₁.adts ++ [(sort.id.globalId, sort)] } := by
        refine ⟨hi₁.ids.of_mapping rfl, ?_, hi₁.refs, hi₁.known⟩
        intro k sort' hk
        rw [Assoc.get?_concat] at hk
        cases hold : s₁.adts.get? k with
        | some old =>
          rw [hold] at hk
          obtain rfl := Option.some.inj hk
          exact hi₁.sorts k _ hold
        | none =>
          rw [hold, Option.none_or] at hk
          split at hk
          · next hkey =>
            obtain rfl := Option.some.inj hk
            exact ⟨hkey, d, hex.image⟩
          · simp at hk
      obtain ⟨hi', hg', hsame⟩ := ih hi₂ h3
      exact ⟨hi', hex.moves.grows.trans (hg₂.trans hg'),
        hsame.functions.trans hex.moves.functions,
        hsame.functionRefs.trans hex.moves.functionRefs⟩

/-! ## The loop over the functions -/

/-- What a step that adds functions does. -/
structure AddsFunctions (tcx : Tcx) (entries : Assoc Int FunDef) (s s' : Extraction) : Prop where
  inv : BodyInv tcx s → BodyInv tcx s'
  grows : Grows s s'
  adts : s'.adts = s.adts
  functions : s'.functions = s.functions ++ entries

theorem AddsFunctions.refl (s : Extraction) : AddsFunctions tcx [] s s :=
  ⟨id, .refl s, rfl, by simp⟩

theorem AddsFunctions.trans {es es' : Assoc Int FunDef} {s s' s'' : Extraction}
    (h : AddsFunctions tcx es s s') (h' : AddsFunctions tcx es' s' s'') :
    AddsFunctions tcx (es ++ es') s s'' where
  inv := fun hi => h'.inv (h.inv hi)
  grows := h.grows.trans h'.grows
  adts := h'.adts.trans h.adts
  functions := by rw [h'.functions, h.functions, List.append_assoc]

/-- A function is extracted and then added. -/
theorem BodyMoves.addFunction {fd : FunDef} {u : Unit} {s s' s'' : Extraction}
    (h : BodyMoves tcx s s') (h' : addFunction fd.id fd s' = .ok (u, s'')) :
    AddsFunctions tcx [(fd.id.globalId, fd)] s s'' := by
  obtain ⟨-, rfl⟩ := addFunction_ok.mp h'
  refine ⟨fun hi => (h.inv hi).addFunction _ _, h.grows.trans (grows_addFunction _ _), h.adts, ?_⟩
  show s'.functions ++ _ = _
  rw [h.functions]

theorem addFunction_sees {fd : FunDef} {u : Unit} {s s' : Extraction} {w : View}
    (h : addFunction fd.id fd s = .ok (u, s')) (hs : Sees s' w) : Sees s w := by
  obtain ⟨-, rfl⟩ := addFunction_ok.mp h
  exact (grows_addFunction _ _).sees hs

theorem addFunction_noErrors {fd : FunDef} {u : Unit} {s s' : Extraction}
    (h : addFunction fd.id fd s = .ok (u, s')) (hn : s'.NoErrors) : s.NoErrors := by
  obtain ⟨-, rfl⟩ := addFunction_ok.mp h
  exact hn

/-- A second measure is an error. -/
theorem reportMeasures_ok (tcx : Tcx) {n : Nat} {u : Unit} {s s' : Extraction}
    (h : (if n > 1 then spanErr "Multiple measures." else pure ()) s = .ok (u, s')) :
    BodyMoves tcx s s' ∧ (s'.NoErrors → n ≤ 1) := by
  split at h
  · rw [spanErr, report_ok] at h
    subst h
    refine ⟨bodyMoves_report _ s, fun hn => ?_⟩
    have := hn (.error "Multiple measures.") (by simp)
    simp [Diag.isError] at this
  · next hle =>
    obtain ⟨-, rfl⟩ := Run.pure_ok.mp h
    exact ⟨.refl s, fun _ => by omega⟩

section Functions

variable (hok : TcxOk tcx)

include hok

theorem extractFn_ok {v : ItemVisitor} {f : FnItem} {u : Unit} {s s' : Extraction}
    (hclosure : tcx.isClosure f.defId = false) (hi : BodyInv tcx s)
    (h : extractFn tcx f.defId (v.fnSpecs f.defId) s = .ok (u, s')) :
    ∃ e, AddsFunctions tcx [e] s s' ∧
      (s'.NoErrors → ∀ w, Sees s' w → FnEntry tcx w v f e) := by
  unfold extractFn at h
  have h' : ((if (v.fnSpecs f.defId).measureFns.length > 1 then spanErr "Multiple measures."
      else pure ()) >>= fun _ => (extractLocalFn tcx f.defId (v.fnSpecs f.defId).preFns
        (v.fnSpecs f.defId).postFns (v.fnSpecs f.defId).measureFns.head? >>= fun fd =>
          addFunction fd.id fd)) s = .ok (u, s') := by
    rw [← h]
    split <;> rfl
  obtain ⟨_, s₁, h1, h'⟩ := Run.bind_ok.mp h'
  obtain ⟨fd, s₂, h2, h3⟩ := Run.bind_ok.mp h'
  obtain ⟨hmoves₁, hmeasures⟩ := reportMeasures_ok tcx h1
  obtain ⟨-, hmoves₂, -, p, himg⟩ := extractLocalFn_ok hok hclosure (hmoves₁.inv hi) h2
  refine ⟨_, (hmoves₁.trans hmoves₂).addFunction h3, fun hn w hw => ?_⟩
  have hn₂ := addFunction_noErrors h3 hn
  exact ⟨rfl, hmeasures (hmoves₂.grows.noErrors hn₂), p, himg hn₂ w (addFunction_sees h3 hw)⟩

theorem extractFns_ok {v : ItemVisitor} : ∀ (fs : List FnItem) {u : Unit} {s s' : Extraction},
    (∀ f ∈ fs, tcx.isClosure f.defId = false) → BodyInv tcx s →
    extractFns tcx v fs s = .ok (u, s') →
    ∃ entries, AddsFunctions tcx entries s s' ∧
      (s'.NoErrors → ∀ w, Sees s' w → List.Forall₂ (FnEntry tcx w v) fs entries) := by
  intro fs
  induction fs with
  | nil =>
    intro u s s' _ _ h
    obtain ⟨-, rfl⟩ := Run.pure_ok.mp h
    exact ⟨[], .refl s, fun _ _ _ => .nil⟩
  | cons f fs ih =>
    intro u s s' hclosure hi h
    rw [extractFns] at h
    obtain ⟨_, s₁, h1, h2⟩ := Run.bind_ok.mp h
    obtain ⟨e, hadds₁, hentry⟩ := extractFn_ok hok (hclosure f List.mem_cons_self) hi h1
    obtain ⟨entries, hadds₂, hentries⟩ :=
      ih (fun g hg => hclosure g (List.mem_cons_of_mem _ hg)) (hadds₁.inv hi) h2
    refine ⟨e :: entries, hadds₁.trans hadds₂, fun hn w hw => .cons ?_ (hentries hn w hw)⟩
    exact hentry (hadds₂.grows.noErrors hn) w (hadds₂.grows.sees hw)

/-! ## External functions -/

omit hok in
/-- The moves of a stub, which refers to no function. -/
structure StubMoves (tcx : Tcx) (s s' : Extraction) : Prop where
  body : BodyMoves tcx s s'
  functionRefs : s'.functionRefs = s.functionRefs

omit hok in
theorem StubMoves.trans {s s' s'' : Extraction} (h : StubMoves tcx s s')
    (h' : StubMoves tcx s' s'') : StubMoves tcx s s'' :=
  ⟨h.body.trans h'.body, h'.functionRefs.trans h.functionRefs⟩

omit hok in
theorem AdtMoves.stubMoves {w : Set DefId} {s s' : Extraction} (h : AdtMoves tcx w s s') :
    StubMoves tcx s s' := ⟨h.bodyMoves, h.functionRefs⟩

theorem extractGenerics_moves {d : DefId} {tparams : List TypeParameterDef}
    {txtcx : TyExtractionCtxt} {s s' : Extraction}
    (h : extractGenerics tcx d s = .ok ((tparams, txtcx), s')) : StubMoves tcx s s' := by
  cases hc : tcx.isClosure d with
  | false => exact (extractGenericsWith_ok hok (extractAdtId_spec hok) hc h).moves.stubMoves
  | true =>
    rw [extractGenerics, extractGenericsWith, if_pos hc] at h
    split at h
    · rw [← (Run.pure_ok.mp h).2]
      exact ⟨.refl s, rfl⟩
    · simp at h

theorem extractTy_stub {txtcx : TyExtractionCtxt} {ty : Ty} {t : Tpe} {s s' : Extraction}
    (h : extractTy tcx txtcx ty s = .ok (t, s')) :
    StubMoves tcx s s' ∧ (s'.NoErrors → ∀ w, Sees s' w →
      suppImage tcx w.ids txtcx.indexToTparam.get? ty = some t) :=
  ⟨(extractTyWith_movesBy txtcx (extractAdtId_spec hok).moves ty s t s' h).stubMoves,
    (extractTy_moves hok h).2⟩

theorem extractExternParams_ok {txtcx : TyExtractionCtxt} : ∀ (tys : List Ty) {i : Nat}
    {vds : List ValDef} {s s' : Extraction},
    extractExternParams tcx txtcx i tys s = .ok (vds, s') →
    StubMoves tcx s s' ∧ (s'.NoErrors → ∀ w, Sees s' w → List.Forall₂
      (fun ty vd => suppImage tcx w.ids txtcx.indexToTparam.get? ty = some vd.v.tpe) tys vds) := by
  intro tys
  induction tys with
  | nil =>
    intro i vds s s' h
    obtain ⟨rfl, rfl⟩ := Run.pure_ok.mp h
    exact ⟨⟨.refl s, rfl⟩, fun _ _ _ => .nil⟩
  | cons ty tys ih =>
    intro i vds s s' h
    rw [extractExternParams] at h
    obtain ⟨id, s₁, h1, h⟩ := Run.bind_ok.mp h
    obtain ⟨tpe, s₂, h2, h⟩ := Run.bind_ok.mp h
    obtain ⟨rest, s₃, h3, h⟩ := Run.bind_ok.mp h
    obtain ⟨rfl, rfl⟩ := Run.pure_ok.mp h
    obtain ⟨-, rfl⟩ := freshIdWithPath_ok.mp h1
    obtain ⟨hmoves₂, himg₂⟩ := extractTy_stub hok h2
    obtain ⟨hmoves₃, himg₃⟩ := ih h3
    have hbump : StubMoves tcx s (s.bump ("param" ++ toString i)) := ⟨bodyMoves_bump _ s, rfl⟩
    refine ⟨hbump.trans (hmoves₂.trans hmoves₃), fun hn w hw => ?_⟩
    have hg₃ := hmoves₃.body.grows
    exact .cons (himg₂ (hg₃.noErrors hn) w (hg₃.sees hw)) (himg₃ hn w hw)

theorem extractExternFn_ok {d : DefId} {fd : FunDef} {s s' : Extraction} (hd : s.didId d ≠ none)
    (h : extractExternFn tcx d s = .ok (fd, s')) :
    StubMoves tcx s s' ∧ (s'.NoErrors → ∀ w, Sees s' w → ExternImage tcx w d fd) := by
  unfold extractExternFn at h
  split at h
  · simp at h
  · obtain ⟨⟨tparams, txtcx⟩, s₁, h1, h⟩ := Run.bind_ok.mp h
    obtain ⟨params, s₂, h2, h⟩ := Run.bind_ok.mp h
    obtain ⟨returnTpe, s₃, h3, h⟩ := Run.bind_ok.mp h
    obtain ⟨funId, s₄, h4, h⟩ := Run.bind_ok.mp h
    obtain ⟨rfl, rfl⟩ := Run.pure_ok.mp h
    have hmoves₁ := extractGenerics_moves hok h1
    obtain ⟨hmoves₂, himg₂⟩ := extractExternParams_ok hok _ h2
    obtain ⟨hmoves₃, himg₃⟩ := extractTy_stub hok h3
    have hmoves := hmoves₁.trans (hmoves₂.trans hmoves₃)
    -- The function has an id since it was referred to.
    rcases extractFnRef_ok.mp h4 with ⟨hid, rfl⟩ | ⟨hnone, -⟩
    · refine ⟨hmoves, fun hn w hw => ⟨hw.did d _ hid, ⟨txtcx, ?_, himg₃ hn w hw⟩, rfl⟩⟩
      have hg₃ := hmoves₃.body.grows
      exact himg₂ (hg₃.noErrors hn) w (hg₃.sees hw)
    · exact absurd hnone (hmoves.body.grows.didId_ne_none hd)

theorem extractExternFns_ok : ∀ (ds : List DefId) {u : Unit} {s s' : Extraction},
    (∀ d ∈ ds, s.didId d ≠ none) → extractExternFns tcx ds s = .ok (u, s') →
    ∃ stubs, AddsFunctions tcx stubs s s' ∧ s'.functionRefs = s.functionRefs ∧
      (s'.NoErrors → ∀ w, Sees s' w → List.Forall₂ (ExternEntry tcx w) ds stubs) := by
  intro ds
  induction ds with
  | nil =>
    intro u s s' _ h
    obtain ⟨-, rfl⟩ := Run.pure_ok.mp h
    exact ⟨[], .refl s, rfl, fun _ _ _ => .nil⟩
  | cons d ds ih =>
    intro u s s' hd h
    rw [extractExternFns] at h
    obtain ⟨fd, s₁, h1, h⟩ := Run.bind_ok.mp h
    obtain ⟨_, s₂, h2, h3⟩ := Run.bind_ok.mp h
    obtain ⟨hmoves₁, himg⟩ := extractExternFn_ok hok (hd d List.mem_cons_self) h1
    have hadds₁ := hmoves₁.body.addFunction h2
    have hrefs₂ : s₂.functionRefs = s.functionRefs := by
      obtain ⟨-, rfl⟩ := addFunction_ok.mp h2
      exact hmoves₁.functionRefs
    obtain ⟨stubs, hadds₂, hrefs₃, hstubs⟩ :=
      ih (fun e he => hadds₁.grows.didId_ne_none (hd e (List.mem_cons_of_mem _ he))) h3
    refine ⟨_ :: stubs, hadds₁.trans hadds₂, hrefs₃.trans hrefs₂, fun hn w hw => ?_⟩
    have hg₂ := hadds₂.grows
    have hw₂ := hg₂.sees hw
    exact .cons ⟨rfl, himg (addFunction_noErrors h2 (hg₂.noErrors hn)) w (addFunction_sees h2 hw₂)⟩
      (hstubs hn w hw)

/-! ## The crate -/

omit hok in
theorem ofKrate_visitOrder {krate : Hir.Crate} (hk : KrateOk tcx krate)
    (hother : ∀ item ∈ krate.items, item.kind ≠ .other) :
    VisitOrder tcx (ItemVisitor.ofKrate tcx krate).adts where
  nodup := by
    rw [ofKrate_adts]
    exact hk.items.sublist (List.filter_sublist.map _)
  mem := by
    intro d
    rw [ofKrate_adts]
    simp only [List.mem_map, List.mem_filter, decide_eq_true_eq]
    constructor
    · rintro ⟨item, ⟨hitem, hadt⟩, rfl⟩
      exact hk.adt item hitem hadt
    · rintro ⟨hlocal, hadt⟩
      obtain ⟨item, hitem, rfl, hkind⟩ := hk.all_adts d hlocal hadt
      exact ⟨item, ⟨hitem, hkind.resolve_right (hother item hitem)⟩, rfl⟩

/-- **What `process_crate` leaves when it ends without a panic or an error.** -/
theorem processCrate_ok {krate : Hir.Crate} (hk : KrateOk tcx krate) {u : Unit} {s : Extraction}
    (h : processCrate tcx krate .new = .ok (u, s)) (hn : s.NoErrors) :
    VisitOrder tcx (ItemVisitor.ofKrate tcx krate).adts ∧
      CrateExtracted tcx (.ofKrate tcx krate) s := by
  unfold processCrate at h
  obtain ⟨v, s₁, h1, h⟩ := Run.bind_ok.mp h
  obtain ⟨_, s₂, h2, h⟩ := Run.bind_ok.mp h
  obtain ⟨_, s₃, h3, h⟩ := Run.bind_ok.mp h
  obtain ⟨externals, s₄, h4, h5⟩ := Run.bind_ok.mp h
  obtain ⟨rfl, hg₁, hn₁⟩ := visitAllItemLikes_ok h1
  obtain ⟨rfl, rfl⟩ := Prod.mk.inj (Except.ok.inj h4)
  have hclosure : ∀ f ∈ (ItemVisitor.ofKrate tcx krate).functions,
      tcx.isClosure f.defId = false :=
    fun f hf => (hk.fn f.defId (ofKrate_functions_mem hk hf)).2.2
  have hi₁ := hg₁.inv (.new tcx)
  obtain ⟨hi₂, hg₂, hsame⟩ := extractLocalAdts_inv hok _ hi₁ h2
  obtain ⟨entries, hadds₃, hentries⟩ := extractFns_ok hok _ hclosure hi₂ h3
  have hi₃ := hadds₃.inv hi₂
  obtain ⟨stubs, hadds₅, hrefs, hstubs⟩ := extractExternFns_ok hok _ (fun d hd => by
    rw [List.mem_filter, tcx.iterOrder.mem_iter] at hd
    exact hi₃.known d hd.1) h5
  have hn₃ := hadds₅.grows.noErrors hn
  -- Without an error, the loop over the ADTs has started in the new state.
  obtain ⟨rfl, hother⟩ := hn₁ (hg₂.noErrors (hadds₃.grows.noErrors hn₃))
  have hvisit := ofKrate_visitOrder hk hother
  obtain ⟨hloop, -⟩ := extractLocalAdts_ok hok _ [] (.new tcx) (by simpa using hvisit.nodup)
    (fun d hd => ((hvisit.mem d).mp (by simpa using hd)).2) h2
  have hg := hadds₃.grows.trans hadds₅.grows
  refine ⟨hvisit, hadds₅.inv hi₃, ?_, _, entries, stubs, ?_, ?_, hstubs hn s.view (.self s), ?_⟩
  · refine ⟨?_, ?_⟩
    · rw [hadds₅.adts, hadds₃.adts]
      exact hloop.store.sorts.imp fun _ _ he => he.mono hg
    · rw [hadds₅.adts, hadds₃.adts]
      exact hloop.store.keys
  · rw [hadds₅.functions, hadds₃.functions, hsame.functions]
    rfl
  · exact hentries hn₃ s.view (hadds₅.grows.sees (.self s))
  · intro d
    rw [List.mem_filter, tcx.iterOrder.mem_iter, hrefs]
    simp

end Functions

end Stainless
