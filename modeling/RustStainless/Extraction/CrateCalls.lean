import RustStainless.Extraction.Asks
import RustStainless.Extraction.CrateRefs

/-!
# The functions of an extracted crate

The functions that a run refers to are those of the visitor and those that the bodies call, and the
ADTs that it meets are reached from those that the items, bodies and signatures name. Each function
of another crate gets a stub, so the functions of the program can be read off the crate.
-/

namespace Stainless

open Rustc St Lib Extraction

variable {tcx : Tcx}

section

variable (hok : TcxOk tcx)

include hok

/-! ## Stubs -/

/-- The stub of an external function refers to what is in its signature. -/
theorem extractExternFn_refsAre {d : DefId} {fd : FunDef} {s s' : Extraction}
    (hclosure : tcx.isClosure d = false) (hd : s.didId d ≠ none)
    (h : extractExternFn tcx d s = .ok (fd, s')) (hn : s'.NoErrors) {w : View} (hw : Sees s' w) :
    RefsAre tcx w.ids fd.refs (stubUses tcx d) := by
  unfold extractExternFn at h
  split at h
  · simp at h
  · obtain ⟨⟨tparams, txtcx⟩, s₁, h1, h⟩ := Run.bind_ok.mp h
    obtain ⟨params, s₂, h2, h⟩ := Run.bind_ok.mp h
    obtain ⟨returnTpe, s₃, h3, h⟩ := Run.bind_ok.mp h
    obtain ⟨funId, s₄, h4, h⟩ := Run.bind_ok.mp h
    obtain ⟨rfl, rfl⟩ := Run.pure_ok.mp h
    have hgen := extractGenericsWith_ok hok (extractAdtId_spec hok) hclosure h1
    obtain ⟨hmoves₂, himg₂⟩ := extractExternParams_ok hok _ h2
    obtain ⟨hmoves₃, himg₃⟩ := extractTy_stub hok h3
    have hg₂ := hmoves₂.body.grows
    have hg₃ := hmoves₃.body.grows
    rcases extractFnRef_ok.mp h4 with ⟨-, rfl⟩ | ⟨hnone, -⟩
    · have hgenerics := hgen.image.mono ((hg₂.trans hg₃).sees hw).did
      have hself : ParamsOf txtcx txtcx.indexToTparam.get? := fun _ _ hp => hp
      have hreturn : RefsAre tcx w.ids returnTpe.refs [.type d (tcx.fnSig d).output] :=
        .type hgenerics hself (suppImage_some (himg₃ hn w hw))
      have hparams : ∀ {tys : List Ty} {vds : List ValDef}, List.Forall₂ (fun ty vd =>
          suppImage tcx w.ids txtcx.indexToTparam.get? ty = some vd.v.tpe) tys vds →
          RefsAre tcx w.ids (vds.flatMap ValDef.refs) (tys.map (.type d)) := by
        intro tys vds hforall
        induction hforall with
        | nil => exact .nil
        | cons htpe _ ih => exact (RefsAre.type hgenerics hself (suppImage_some htpe)).append ih
      have hall := (hparams (himg₂ (hg₃.noErrors hn) w (hg₃.sees hw))).append hreturn
      refine hall.of_mem fun r => ?_
      simp [FunDef.refs, St.Expr.refs]
    · -- A stub is made for what was referred to, so the function has an id by now.
      have hg := hgen.moves.grows.trans (hg₂.trans hg₃)
      exact absurd hnone (hg.didId_ne_none hd)

/-- The stub of an external function. -/
structure StubEntry (tcx : Tcx) (w : View) (d : DefId) (e : Int × FunDef) : Prop where
  key : e.1 = e.2.id.globalId
  id : w.ids d = some e.2.id
  refs : RefsAre tcx w.ids e.2.refs (stubUses tcx d)

theorem extractExternFns_entries : ∀ (ds : List DefId) {u : Unit} {s s' : Extraction},
    (∀ d ∈ ds, s.didId d ≠ none ∧ tcx.isClosure d = false) →
    extractExternFns tcx ds s = .ok (u, s') →
    ∃ stubs, AddsFunctions tcx stubs s s' ∧ (s'.NoErrors → ∀ w, Sees s' w →
      List.Forall₂ (StubEntry tcx w) ds stubs) := by
  intro ds
  induction ds with
  | nil =>
    intro u s s' _ h
    obtain ⟨-, rfl⟩ := Run.pure_ok.mp h
    exact ⟨[], .refl s, fun _ _ _ => .nil⟩
  | cons d ds ih =>
    intro u s s' hds h
    rw [extractExternFns] at h
    obtain ⟨fd, s₁, h1, h⟩ := Run.bind_ok.mp h
    obtain ⟨_, s₂, h2, h3⟩ := Run.bind_ok.mp h
    obtain ⟨hd, hclosure⟩ := hds d List.mem_cons_self
    obtain ⟨hmoves₁, himg⟩ := extractExternFn_ok hok hd h1
    have hadds₁ := hmoves₁.body.addFunction h2
    obtain ⟨stubs, hadds₂, hstubs⟩ := ih (fun e he =>
      have hrest := hds e (List.mem_cons_of_mem _ he)
      ⟨hadds₁.grows.didId_ne_none hrest.1, hrest.2⟩) h3
    refine ⟨_ :: stubs, hadds₁.trans hadds₂, fun hn w hw => .cons ?_ (hstubs hn w hw)⟩
    have hn₁ := addFunction_noErrors h2 (hadds₂.grows.noErrors hn)
    have hw₁ := addFunction_sees h2 (hadds₂.grows.sees hw)
    exact ⟨rfl, (himg hn₁ w hw₁).id, extractExternFn_refsAre hok hclosure hd h1 hn₁ hw₁⟩

end

/-! ## Functions that are met -/

/-- A function that is called has an id. -/
theorem RefsAre.known {ids : Ids} {rs : List Ref} {us : List BodyUse} (h : RefsAre tcx ids rs us)
    {d : DefId} (hd : d ∈ callees us) : ids d ≠ none := by
  intro hnone
  rcases mem_callees.mp hd with hu | hu
  · have hshows : (BodyUse.callee d).Shows tcx ids none := by simp [BodyUse.Shows, hnone]
    obtain ⟨r, -, hr⟩ := h.ref hu hshows
    cases hr
  · have hshows : (BodyUse.boxNew d).Shows tcx ids none := ⟨hnone, rfl⟩
    obtain ⟨r, -, hr⟩ := h.ref hu hshows
    cases hr

/-- What rustc guarantees for the bodies of a crate. -/
structure BodiesOk (tcx : Tcx) (v : ItemVisitor) : Prop where
  fns : ∀ f ∈ v.functions, BodyOk tcx f.defId
  specs : ∀ f ∈ v.functions, ∀ d ∈ (v.fnSpecs f.defId).measureFns ++ (v.fnSpecs f.defId).preFns ++
    (v.fnSpecs f.defId).postFns, BodyOk tcx d
  callees : ∀ d ∈ v.callees tcx, IsFnLike (tcx.defKind d) ∧ tcx.isClosure d = false

theorem BodiesOk.measure {v : ItemVisitor} (h : BodiesOk tcx v) {f : FnItem}
    (hf : f ∈ v.functions) :
    ∀ m ∈ (v.fnSpecs f.defId).measureFns.head?, BodyOk tcx m := fun m hm =>
  h.specs f hf m (List.mem_append_left _ (List.mem_append_left _ (List.mem_of_mem_head? hm)))

theorem BodiesOk.pre {v : ItemVisitor} (h : BodiesOk tcx v) {f : FnItem} (hf : f ∈ v.functions) :
    ∀ d ∈ (v.fnSpecs f.defId).preFns, BodyOk tcx d := fun d hd =>
  h.specs f hf d (List.mem_append_left _ (List.mem_append_right _ hd))

theorem BodiesOk.post {v : ItemVisitor} (h : BodiesOk tcx v) {f : FnItem} (hf : f ∈ v.functions) :
    ∀ d ∈ (v.fnSpecs f.defId).postFns, BodyOk tcx d := fun d hd =>
  h.specs f hf d (List.mem_append_right _ hd)

/-- What a local function refers to. -/
theorem FnEntry.refsAre {v : ItemVisitor} (hbodies : BodiesOk tcx v) {w : View}
    (hpaths : PathIds tcx w.ids) {f : FnItem} (hf : f ∈ v.functions) {e : Int × FunDef}
    (h : FnEntry tcx w v f e) :
    RefsAre tcx w.ids e.2.refs (fnUses tcx f.defId (v.fnSpecs f.defId)) := by
  obtain ⟨-, -, p, himg⟩ := h
  exact himg.refsAre (hbodies.fns f hf) (hbodies.measure hf) (hbodies.pre hf) (hbodies.post hf)
    hpaths

/-- Every function that a local function meets has an id. -/
theorem FnEntry.known {v : ItemVisitor} (hbodies : BodiesOk tcx v) {w : View}
    (hpaths : PathIds tcx w.ids) {f : FnItem} (hf : f ∈ v.functions) {e : Int × FunDef}
    (h : FnEntry tcx w v f e) {d : DefId}
    (hd : d ∈ callees (metUses tcx f.defId (v.fnSpecs f.defId))) : w.ids d ≠ none := by
  have hrefs := h.refsAre hbodies hpaths hf
  obtain ⟨-, -, p, himg⟩ := h
  rw [metUses, callees_append, callees_append, callees_append] at hd
  simp only [List.mem_append] at hd
  have hused : d ∈ callees (fnUses tcx f.defId (v.fnSpecs f.defId)) → w.ids d ≠ none := hrefs.known
  rw [fnUses, callees_append, callees_append, callees_append, callees_append] at hused
  simp only [List.mem_append] at hused
  rcases hd with ((hd | hd) | hd) | hd
  · exact hused (.inl (.inl (.inl (.inr hd))))
  · -- The measure may have been dropped.
    cases hm : (v.fnSpecs f.defId).measureFns.head? with
    | none =>
      rw [hm] at hd
      simp [specUses, callees] at hd
    | some m =>
      rw [hm, Option.toList_some, specUses, List.flatMap_singleton] at hd
      obtain ⟨t, hspec, -⟩ := himg.measure m hm
      have hrefs : RefsAre tcx w.ids t.refs (bodyUses tcx (specCtxt tcx f.defId none m) m) :=
        hspec.refsAre himg (hbodies.fns f hf) (hbodies.measure hf m hm) hpaths .nil
      exact hrefs.known hd
  · exact hused (.inl (.inr hd))
  · exact hused (.inr hd)

/-! ## What a crate asks for -/

/-- The ADTs that a use names. -/
def BodyUse.adts (tcx : Tcx) : BodyUse → List DefId
  | .callee _ | .boxNew _ => []
  | .constructor did _ | .field did _ => [did]
  | .type _ ty => tyAdts tcx ty

/--
The ADTs that a crate names: its own, and those in the bodies, specs, signatures and bounds of its
functions and in the signatures and bounds of the functions of other crates that it calls.
-/
inductive ItemVisitor.Names (tcx : Tcx) (v : ItemVisitor) : DefId → Prop
  | item {d : DefId} : d ∈ v.adts → v.Names tcx d
  | fn {f : FnItem} {u : BodyUse} {d : DefId} : f ∈ v.functions →
      u ∈ fnAsks tcx f.defId (v.fnSpecs f.defId) → d ∈ u.adts tcx → v.Names tcx d
  | fnBound {f : FnItem} {d : DefId} : f ∈ v.functions → d ∈ genericsAdts tcx f.defId →
      v.Names tcx d
  | stub {e d : DefId} {u : BodyUse} : e ∈ v.externals tcx → u ∈ stubUses tcx e →
      d ∈ u.adts tcx → v.Names tcx d
  | stubBound {e d : DefId} : e ∈ v.externals tcx → d ∈ genericsAdts tcx e → v.Names tcx d

/-- The ADTs that are reached from those that a crate names. -/
def ItemVisitor.Meets (tcx : Tcx) (v : ItemVisitor) (d : DefId) : Prop :=
  ∃ r, v.Names tcx r ∧ Reaches tcx r d

section Asks

variable {krate : Hir.Crate} (hk : KrateOk tcx krate)
  (hbodies : BodiesOk tcx (.ofKrate tcx krate))

/-- A run asks for the functions of the crate and those they call, and for the ADTs it names. -/
def crateAsks : AskedFor tcx where
  callee := fun d => d ∈ krateFns krate ∨ d ∈ (ItemVisitor.ofKrate tcx krate).callees tcx
  adt := (ItemVisitor.ofKrate tcx krate).Names tcx
  callee_kind := by
    rintro d (hd | hd)
    · exact .inl (hk.fn d hd).2.1
    · exact (hbodies.callees d hd).1

variable {hk hbodies} in
/-- A function of another crate is called by a body. -/
theorem crateAsks_external {d : DefId} (hd : (crateAsks hk hbodies).callee d)
    (hlocal : d.isLocal = false) : d ∈ (ItemVisitor.ofKrate tcx krate).externals tcx := by
  rcases hd with hd | hd
  · rw [(hk.fn d hd).1] at hlocal
    cases hlocal
  · exact List.mem_filter.mpr ⟨hd, by rw [hlocal]; rfl⟩

/-- What is called among what a function asks for is met in its bodies. -/
theorem mem_metUses_of_calls {f d : DefId} {specs : FnSpecs} {u : BodyUse}
    (hu : u ∈ fnAsks tcx f specs) (hd : u.calls = some d) : u ∈ metUses tcx f specs := by
  rcases List.mem_cons.mp hu with rfl | hu
  · cases hd
  · rcases List.mem_append.mp hu with hu | hu
    · obtain ⟨e, -, hu⟩ := List.mem_flatMap.mp hu
      obtain ⟨b, -, rfl⟩ := List.mem_map.mp hu
      cases hd
    · exact hu

theorem visitAllItemLikes_asksOnly {asks : AskedFor tcx} :
    AsksOnly asks (visitAllItemLikes tcx krate) := by
  have hreport : ∀ (msg : String) (ds : List DefId), AsksOnly asks (reportAll msg ds) := by
    intro msg ds
    induction ds with
    | nil => exact .pure _
    | cons d ds ih => exact .bind (report_asksOnly _) fun _ => ih
  have hitem : ∀ (v : ItemVisitor) (item : Hir.Item), AsksOnly asks (visitItem tcx v item) := by
    intro v item
    refine .ite (.pure _) ?_
    split
    · exact .pure _
    · exact .pure _
    · exact .pure _
    · exact .pure _
    · exact .bind (report_asksOnly _) fun _ => .pure _
  have hitems : ∀ (items : List Hir.Item) (v : ItemVisitor),
      AsksOnly asks (visitItems tcx items v) := by
    intro items
    induction items with
    | nil => exact fun v => .pure v
    | cons item items ih => exact fun v => .bind (hitem v item) ih
  refine .bind (hitems _ _) fun v => ?_
  exact .bind (hreport _ _) fun _ => .bind (hreport _ _) fun _ => .pure v

variable (hok : TcxOk tcx)

include hok

theorem extractFns_within : AsksOnly (crateAsks hk hbodies)
    (extractFns tcx (.ofKrate tcx krate) (ItemVisitor.ofKrate tcx krate).functions) := by
  refine extractFns_asksOnly hok _ fun f hf => ?_
  have hmem := ofKrate_functions_mem hk hf
  refine ⟨(hk.fn _ hmem).2.2, .inl hmem, fun e he => .fnBound hf he, fun u hu => ?_⟩
  have hcallee : ∀ d, u.calls = some d →
      d ∈ (ItemVisitor.ofKrate tcx krate).callees tcx := fun d hd =>
    List.mem_flatMap.mpr
      ⟨f, hf, List.mem_filterMap.mpr ⟨u, mem_metUses_of_calls hu hd, hd⟩⟩
  cases u with
  | callee d | boxNew d => exact .inr (hcallee d rfl)
  | constructor d _ | field d _ => exact .fn hf hu List.mem_cons_self
  | type d ty => exact fun e he => .fn hf hu he

theorem extractExternFns_within {ds : List DefId}
    (hds : ∀ d ∈ ds, d ∈ (ItemVisitor.ofKrate tcx krate).externals tcx) :
    AsksOnly (crateAsks hk hbodies) (extractExternFns tcx ds) := by
  refine extractExternFns_asksOnly hok _ fun d hd => ?_
  have hcallee := (List.mem_filter.mp (hds d hd)).1
  refine ⟨(hbodies.callees d hcallee).2, .inr hcallee, fun e he => .stubBound (hds d hd) he, ?_⟩
  intro u hu
  rcases List.mem_append.mp hu with hu' | hu'
  · obtain ⟨ty, -, rfl⟩ := List.mem_map.mp hu'
    exact fun e he => .stub (hds d hd) hu he
  · obtain rfl := List.mem_singleton.mp hu'
    exact fun e he => .stub (hds d hd) hu he

/-- **What a run asks for can be read off the crate**, whether or not it reports errors. -/
theorem processCrate_within {u : Unit} {s : Extraction}
    (h : processCrate tcx krate .new = .ok (u, s)) :
    StaysWithin (crateAsks hk hbodies) .new s := by
  unfold processCrate at h
  obtain ⟨v, s₁, h1, h⟩ := Run.bind_ok.mp h
  obtain ⟨_, s₂, h2, h⟩ := Run.bind_ok.mp h
  obtain ⟨_, s₃, h3, h⟩ := Run.bind_ok.mp h
  obtain ⟨externals, s₄, h4, h5⟩ := Run.bind_ok.mp h
  obtain ⟨rfl, -, -⟩ := visitAllItemLikes_ok h1
  obtain ⟨rfl, rfl⟩ := Prod.mk.inj (Except.ok.inj h4)
  have hwithin₃ : StaysWithin (crateAsks hk hbodies) .new s₃ := by
    have hids := IdsOk.new tcx
    have hwithin₁ : StaysWithin (crateAsks hk hbodies) .new s₁ :=
      visitAllItemLikes_asksOnly _ _ _ h1 hids
    have hwithin₂ := hwithin₁.trans
      (extractLocalAdts_asksOnly hok _ (fun _ => ItemVisitor.Names.item) _ _ _ h2
        (hwithin₁.ids hids))
    exact hwithin₂.trans (extractFns_within hk hbodies hok _ _ _ h3 (hwithin₂.ids hids))
  -- The functions that get stubs are among those that were referred to before.
  refine hwithin₃.trans (extractExternFns_within hk hbodies hok (fun d hd => ?_) _ _ _ h5
    (hwithin₃.ids (.new tcx)))
  rw [List.mem_filter, tcx.iterOrder.mem_iter, Bool.not_eq_true'] at hd
  rcases hwithin₃.refs d hd.1 with hnone | hcallee
  · cases hnone
  · exact crateAsks_external hcallee hd.2

include hk hbodies

/-- Every ADT that a run meets is reached from those that the crate names. -/
theorem processCrate_meets {u : Unit} {s : Extraction}
    (h : processCrate tcx krate .new = .ok (u, s)) {d : DefId} (hkind : tcx.defKind d = .adt)
    (hd : s.didId d ≠ none) : (ItemVisitor.ofKrate tcx krate).Meets tcx d :=
  (processCrate_within hk hbodies hok h).adts d ⟨hkind, rfl, hd⟩

/-- Every function of another crate that a run refers to is called by a body. -/
theorem processCrate_externals {u : Unit} {s : Extraction}
    (h : processCrate tcx krate .new = .ok (u, s)) {d : DefId} (hd : d ∈ s.functionRefs)
    (hlocal : d.isLocal = false) : d ∈ (ItemVisitor.ofKrate tcx krate).externals tcx := by
  rcases (processCrate_within hk hbodies hok h).refs d hd with hnone | hcallee
  · cases hnone
  · exact crateAsks_external hcallee hlocal

end Asks

/-! ## The crate -/

/--
The functions of an extracted crate: those of the visitor, and a stub for each function of another
crate that a body calls.
-/
structure CrateFunctions (tcx : Tcx) (v : ItemVisitor) (s : Extraction) (externals : List DefId) :
    Prop where
  mem : ∀ d, d ∈ externals ↔ d ∈ v.externals tcx
  entries : ∃ entries stubs, s.functions = entries ++ stubs ∧
    List.Forall₂ (FnEntry tcx s.view v) v.functions entries ∧
    List.Forall₂ (StubEntry tcx s.view) externals stubs

theorem processCrate_functions (hok : TcxOk tcx) {krate : Hir.Crate} (hk : KrateOk tcx krate)
    (hbodies : BodiesOk tcx (.ofKrate tcx krate)) {u : Unit} {s : Extraction}
    (h : processCrate tcx krate .new = .ok (u, s)) (hn : s.NoErrors) :
    ∃ externals, CrateFunctions tcx (.ofKrate tcx krate) s externals := by
  unfold processCrate at h
  obtain ⟨v, s₁, h1, h⟩ := Run.bind_ok.mp h
  obtain ⟨_, s₂, h2, h⟩ := Run.bind_ok.mp h
  obtain ⟨_, s₃, h3, h⟩ := Run.bind_ok.mp h
  obtain ⟨externals, s₄, h4, h5⟩ := Run.bind_ok.mp h
  obtain ⟨rfl, hg₁, hn₁⟩ := visitAllItemLikes_ok h1
  obtain ⟨rfl, rfl⟩ := Prod.mk.inj (Except.ok.inj h4)
  have hmem : ∀ f ∈ (ItemVisitor.ofKrate tcx krate).functions, f.defId ∈ krateFns krate :=
    fun f hf => ofKrate_functions_mem hk hf
  obtain ⟨hi₂, hg₂, hsame⟩ := extractLocalAdts_inv hok _ (hg₁.inv (.new tcx)) h2
  obtain ⟨entries, hadds₃, hentries⟩ :=
    extractFns_ok hok _ (fun f hf => (hk.fn _ (hmem f hf)).2.2) hi₂ h3
  have hi₃ := hadds₃.inv hi₂
  have hknown : ∀ d ∈ (tcx.iterOrder.iter .functionRefs s₃.functionRefs).filter
      fun d => !d.isLocal, s₃.didId d ≠ none := by
    intro d hd
    rw [List.mem_filter, tcx.iterOrder.mem_iter] at hd
    exact hi₃.known d hd.1
  obtain ⟨_, hadds₄, -, -⟩ := extractExternFns_ok hok _ hknown h5
  have hn₃ := hadds₄.grows.noErrors hn
  obtain ⟨rfl, -⟩ := hn₁ (hg₂.noErrors (hadds₃.grows.noErrors hn₃))
  have hpaths : PathIds tcx s₃.view.ids := .of_idsOk hi₃.ids
  have honly : ∀ d ∈ s₃.functionRefs,
      d ∈ krateFns krate ∨ d ∈ (ItemVisitor.ofKrate tcx krate).callees tcx := by
    intro d hd
    have hwithin := extractFns_within hk hbodies hok s₂ () s₃ h3 hi₂.ids
    rcases hwithin.refs d hd with hd | hd
    · rw [hsame.functionRefs] at hd
      cases hd
    · exact hd
  have hexternals : ∀ d, d ∈ (tcx.iterOrder.iter .functionRefs s₃.functionRefs).filter
      (fun d => !d.isLocal) ↔ d ∈ (ItemVisitor.ofKrate tcx krate).externals tcx := by
    intro d
    rw [List.mem_filter, tcx.iterOrder.mem_iter, ItemVisitor.externals, List.mem_filter]
    refine and_congr_left fun hlocal => ⟨fun hd => ?_, fun hd => ?_⟩
    · rcases honly d hd with hd | hd
      · rw [(hk.fn d hd).1] at hlocal
        cases hlocal
      · exact hd
    · obtain ⟨f, hf, hcall⟩ := List.mem_flatMap.mp hd
      obtain ⟨e, -, he⟩ := forall₂_mem_left (hentries hn₃ s₃.view (.self s₃)) hf
      exact hi₃.refs d (hbodies.callees d hd).1 (he.known hbodies hpaths hf hcall)
  obtain ⟨stubs, hadds₅, hstubs⟩ := extractExternFns_entries hok _ (fun d hd => by
    refine ⟨hknown d hd, (hbodies.callees d ?_).2⟩
    exact (List.mem_filter.mp ((hexternals d).mp hd)).1) h5
  refine ⟨_, hexternals, entries, stubs, ?_, ?_, hstubs hn s.view (.self s)⟩
  · rw [hadds₅.functions, hadds₃.functions, hsame.functions]
    rfl
  · exact hentries hn₃ s.view (hadds₅.grows.sees (.self s))

end Stainless
