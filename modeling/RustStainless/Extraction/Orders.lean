import RustStainless.Lib.Follows
import RustStainless.Extraction.IdRunsKrate
import RustStainless.Extraction.GenericsImage
import RustStainless.Extraction.Image

/-!
# Iteration orders and the extraction of types and ADTs

Two runs of the extraction on one crate, each with its own iteration orders of the hash maps. The
conditions say of a definition that none of the hash maps that its extraction iterates over can
show its order; then the second run follows the first.
-/

namespace Stainless

open Rustc St Lib Extraction

/-! ## Steady computations -/

/-- The ids that are known already. -/
abbrev KnownIds := DefId → Option SymbolIdentifier

/-- The state has the known ids. -/
def Knows (ids : KnownIds) (s : Extraction) : Prop := ∀ d id, ids d = some id → s.didId d = some id

/--
In all states with the known ids, the computation returns the same or panics alike, and only
reports.
-/
def Steady {α : Type} (ids : KnownIds) (x : Xtor α) : Prop :=
  (∃ a ms, ∀ s, Knows ids s → x s = .ok (a, { s with diags := s.diags ++ ms })) ∨
    ∃ e, ∀ s, Knows ids s → x s = .error e

section

variable {α β : Type} {ids : KnownIds} {x : Xtor α}

theorem Knows.report {s : Extraction} (h : Knows ids s) (ms : List Diag) :
    Knows ids { s with diags := ms } := h

theorem Steady.pure (a : α) : Steady ids (pure a : Xtor α) :=
  .inl ⟨a, [], fun s _ => by simp⟩

theorem Steady.panic (e : Panic) : Steady ids (Run.panic e : Xtor α) := .inr ⟨e, fun _ _ => rfl⟩

theorem Steady.bind {f : α → Xtor β} (hx : Steady ids x) (hf : ∀ a, Steady ids (f a)) :
    Steady ids (x >>= f) := by
  rcases hx with ⟨a, ms, hx⟩ | ⟨e, hx⟩
  · rcases hf a with ⟨b, ms', hf⟩ | ⟨e, hf⟩
    · refine .inl ⟨b, ms ++ ms', fun s hs => ?_⟩
      rw [Run.bind_eq (hx s hs), hf _ (hs.report _)]
      simp
    · exact .inr ⟨e, fun s hs => by rw [Run.bind_eq (hx s hs), hf _ (hs.report _)]⟩
  · refine .inr ⟨e, fun s hs => ?_⟩
    show (x s).bind _ = _
    rw [hx s hs]
    rfl

theorem report_steady (m : Diag) : Steady ids (report m) := .inl ⟨(), [m], fun _ _ => rfl⟩

theorem unsupported_steady (msg : String) : Steady ids (unsupported msg) := report_steady _

/-- A known id is found. -/
theorem extractAdtIdWith_steady {adt : DefId → Xtor ADTSort} {d : DefId} (h : ids d ≠ none) :
    Steady ids (extractAdtIdWith adt d) := by
  obtain ⟨id, hid⟩ := Option.ne_none_iff_exists'.mp h
  refine .inl ⟨id, [], fun s hs => ?_⟩
  rw [extractAdtIdWith, Run.bind_eq getIdFromDef_eq, hs d id hid]
  simp

theorem extractFlagArgs_steady (flag : Flag) : ∀ (tokens : List Hir.TokenTree) (fs : ItemFlags),
    Steady ids (extractFlagArgs flag tokens fs)
  | [], _ => .pure _
  | .token .comma :: rest, fs => extractFlagArgs_steady flag rest fs
  | .token (.ident _) :: rest, _ => extractFlagArgs_steady flag rest _
  | .token (.litInteger _) :: rest, _ => extractFlagArgs_steady flag rest _
  | .token .other :: _, _ | .delimited :: _, _ => .bind (report_steady _) fun _ => .pure _

theorem extractFlagsFrom_steady : ∀ (attrs : List Hir.Attribute) (fs : ItemFlags),
    Steady ids (extractFlagsFrom attrs fs)
  | [], fs => .pure fs
  | .docComment :: rest, fs => extractFlagsFrom_steady rest fs
  | .normal segments args :: rest, fs => by
    rw [extractFlagsFrom]
    cases extractFlagOf segments with
    | none => exact extractFlagsFrom_steady rest fs
    | some name =>
      dsimp only
      cases flagFromName name with
      | none => exact .bind (report_steady _) fun _ => extractFlagsFrom_steady rest fs
      | some flag =>
        cases args with
        | empty => exact extractFlagsFrom_steady rest _
        | delimited tokens =>
          exact .bind (extractFlagArgs_steady flag tokens fs) fun _ =>
            extractFlagsFrom_steady rest _
        | eq => exact .bind (report_steady _) fun _ => extractFlagsFrom_steady rest fs

end

/-! ## Where an order cannot be seen -/

section Calm

variable (tcx : Tcx)

/-- The flags that the attributes of an item set. -/
def itemFlags (d : DefId) : ItemFlags :=
  match extractFlags tcx d .new with
  | .ok (fs, _) => fs
  | .error _ => { carrier := .new, bySymbol := [] }

/-- The flags set on a parameter or field of the item. -/
def symbolFlags (d : DefId) (symbol : String) : List Flag :=
  (((itemFlags tcx d).bySymbol.get? symbol).getD .new).set

/-- The types in the bound of a `Fn`-bounded type parameter. -/
def boundTys (d : DefId) (p : Nat × List Ty) : List Ty :=
  p.2 ++ ((funReturnsOf tcx (tcx.predicatesOf d)).get? p.1).toList

/--
The order of the `Fn`-bounded type parameters does not matter: there is at most one, or their
bounds do not mention each other and at most one of them mentions ADTs that are not known.
-/
def BoundsCalm (known : DefId → Prop) (d : DefId) : Prop :=
  (funParamsOf tcx (tcx.predicatesOf d)).length ≤ 1 ∨
    (∀ p ∈ funParamsOf tcx (tcx.predicatesOf d), ∀ i ∈ tysParams tcx (boundTys tcx d p),
      isFunParam tcx d i = false) ∧
    (funParamsOf tcx (tcx.predicatesOf d)).Pairwise fun p q =>
      (∀ a ∈ tysAdts tcx (boundTys tcx d p), known a) ∨
        ∀ a ∈ tysAdts tcx (boundTys tcx d q), known a

/-- The generics of a definition that ends up in the program: at most one type parameter is left. -/
structure GenericsCalm (known : DefId → Prop) (d : DefId) : Prop where
  bounds : BoundsCalm tcx known d
  tparams : (plainParamsOf tcx d).length ≤ 1

/-- An ADT. Of those of other crates only the ids are used, so only their bounds matter. -/
structure AdtCalm (a : AdtDef) : Prop where
  bounds : BoundsCalm tcx (fun _ => False) a.did
  tparams : a.did.isLocal = true → (plainParamsOf tcx a.did).length ≤ 1
  flags : a.did.isLocal = true → (itemFlags tcx a.did).carrier.set.length ≤ 1
  fieldFlags : a.did.isLocal = true → ∀ v ∈ a.variants, ∀ f ∈ v.fields,
    (symbolFlags tcx a.did f.name).length ≤ 1

/-- Every ADT that got an id is calm. -/
def MetCalm (s : Extraction) : Prop :=
  ∀ d a, s.didId d ≠ none → tcx.adtDef d = some a → AdtCalm tcx a

/--
How a run ends: every ADT that it met is calm, and it refers to at most one external function, whose
generics are calm.
-/
structure EndsCalm (s : Extraction) : Prop where
  met : MetCalm tcx s
  generics : ∀ d ∈ s.functionRefs, d.isLocal = false → GenericsCalm tcx (fun _ => False) d
  external : ∀ d ∈ s.functionRefs, ∀ e ∈ s.functionRefs, d.isLocal = false → e.isLocal = false →
    d = e

end Calm

/-! ## The pairing -/

/-- The states of two runs that differ in their diagnostics. The known ids are known in both. -/
structure Alike (ids : KnownIds) (s t : Extraction) : Prop where
  mapping : t.mapping = s.mapping
  adts : t.adts = s.adts
  functionRefs : t.functionRefs = s.functionRefs
  functions : t.functions = s.functions
  known : Knows ids s

/-- The first run is followed as far as it goes to a calm end. -/
def orderPairing (tcx : Tcx) (ids : KnownIds) : Pairing Extraction where
  grows := Grows
  refl := Grows.refl
  trans := Grows.trans
  good := EndsCalm tcx
  good_of_grows := fun hg h =>
    ⟨fun d a hd ha => h.met d a (hg.didId_ne_none hd) ha,
      fun d hd => h.generics d (hg.functionRefs d hd),
      fun d hd e he => h.external d (hg.functionRefs d hd) e (hg.functionRefs e he)⟩
  alike := Alike ids

/-- The run of `y` follows that of `x`. -/
abbrev FollowsIn {α : Type} (tcx : Tcx) (ids : KnownIds) (x y : Xtor α) (Q : α → α → Prop) :
    Prop :=
  Run.Follows (orderPairing tcx ids) x y Q

variable {tcx : Tcx} {ids : KnownIds}

theorem Alike.didId {s t : Extraction} (h : Alike ids s t) (d : DefId) : t.didId d = s.didId d := by
  unfold Extraction.didId
  rw [h.mapping]

theorem Knows.grows {ids : KnownIds} {s s' : Extraction} (h : Knows ids s) (hg : Grows s s') :
    Knows ids s' := fun d id hd => hg.did d id (h d id hd)

theorem Alike.knows {s t : Extraction} (h : Alike ids s t) : Knows ids t := fun d id hd => by
  rw [h.didId]
  exact h.known d id hd

theorem Alike.report {s t : Extraction} (h : Alike ids s t) (ms ms' : List Diag) :
    Alike ids { s with diags := s.diags ++ ms } { t with diags := t.diags ++ ms' } :=
  ⟨h.mapping, h.adts, h.functionRefs, h.functions, h.known⟩

/-! ## The primitives -/

theorem Steady.follows {α : Type} {x : Xtor α} (h : Steady (fun _ => none) x) :
    FollowsIn tcx ids x x Eq := by
  have hknows : ∀ s, Knows (fun _ => none) s := by simp [Knows]
  intro s a s' hx
  rcases h with ⟨b, ms, h⟩ | ⟨e, h⟩
  · obtain ⟨rfl, rfl⟩ := Prod.mk.inj (Except.ok.inj ((h s (hknows s)).symm.trans hx))
    refine ⟨?_, fun _ t ht => ⟨b, _, h t (hknows t), ht.report ms ms, rfl⟩⟩
    exact ⟨Nat.le_refl _, fun _ _ h => h, fun _ _ h => h, fun _ _ h => h, fun _ h => h,
      fun _ _ h => h, ms, rfl⟩
  · rw [h s (hknows s)] at hx
    cases hx

theorem report_follows (m m' : Diag) : FollowsIn tcx ids (report m) (report m') Eq := by
  intro s u s' h
  obtain rfl := report_ok.mp h
  exact ⟨grows_report m, fun _ t ht => ⟨(), _, report_ok.mpr rfl, ht.report [m] [m'], rfl⟩⟩

theorem unsupported_follows (msg : String) :
    FollowsIn tcx ids (unsupported msg) (unsupported msg) Eq := report_follows _ _

/-- Behind a report, both return the same. -/
theorem unsupported_both {α : Type} (msg : String) (a : α) :
    FollowsIn tcx ids (do
      unsupported msg
      pure a) (do
      unsupported msg
      pure a) Eq :=
  (unsupported_follows msg).bind_eq fun _ => .pure rfl

theorem freshIdWithPath_follows (name : String) (path : List String) :
    FollowsIn tcx ids (freshIdWithPath name path) (freshIdWithPath name path) Eq := by
  intro s id s' h
  obtain ⟨rfl, rfl⟩ := freshIdWithPath_ok.mp h
  refine ⟨grows_bump name, fun _ t ht => ⟨_, t.bump name, freshIdWithPath_eq name path, ?_, ?_⟩⟩
  · exact ⟨by simp [Extraction.bump, ht.mapping], ht.adts, ht.functionRefs, ht.functions,
      ht.known.grows (grows_bump name)⟩
  · simp [Extraction.nextId, ht.mapping]

theorem freshId_follows (name : String) :
    FollowsIn tcx ids (freshId name) (freshId name) Eq := freshIdWithPath_follows _ _

theorem getIdFromDef_follows (d : DefId) :
    FollowsIn tcx ids (getIdFromDef d) (getIdFromDef d) Eq := by
  intro s id s' h
  obtain ⟨rfl, rfl⟩ := Prod.mk.inj (Except.ok.inj (getIdFromDef_eq.symm.trans h))
  refine ⟨.refl s, fun _ t ht => ⟨_, t, getIdFromDef_eq, ht, ?_⟩⟩
  rw [ht.didId]

theorem registerDef_follows (d : DefId) :
    FollowsIn tcx ids (registerDef tcx d) (registerDef tcx d) Eq := by
  intro s id s' h
  obtain ⟨hd, rfl, rfl⟩ := registerDef_ok.mp h
  refine ⟨grows_withDef hd, fun _ t ht => ?_⟩
  have htd : t.didId d = none := (ht.didId d).trans hd
  refine ⟨_, t.withDef tcx d, registerDef_eq htd, ?_, ?_⟩
  · refine ⟨?_, ht.adts, ht.functionRefs, ht.functions,
      ht.known.grows (grows_withDef hd)⟩
    simp [Extraction.withDef, Extraction.bump, Extraction.defIdent, Extraction.nextId, ht.mapping]
  · simp [Extraction.defIdent, Extraction.nextId, ht.mapping]

/-- An ADT that is registered has been met, so it is calm. -/
theorem registerDef_calm (d : DefId) :
    FollowsIn tcx ids (registerDef tcx d) (registerDef tcx d) fun a b => a = b ∧
      ∀ a, tcx.adtDef d = some a → AdtCalm tcx a := by
  intro s id s' h
  have hfollows : FollowsIn tcx ids _ _ Eq := registerDef_follows d
  obtain ⟨hgrow, hrun⟩ := hfollows s id s' h
  refine ⟨hgrow, fun hgood t ht => ?_⟩
  obtain ⟨b, t', hb, ht', rfl⟩ := hrun hgood t ht
  refine ⟨id, t', hb, ht', rfl, fun a ha => hgood.met d a ?_ ha⟩
  obtain ⟨hd, -, rfl⟩ := registerDef_ok.mp h
  rw [withDef_didId tcx hd, if_pos rfl]
  simp

theorem getOrRegisterDef_follows (d : DefId) :
    FollowsIn tcx ids (getOrRegisterDef tcx d) (getOrRegisterDef tcx d) Eq := by
  refine (getIdFromDef_follows d).bind_eq fun id => ?_
  cases id with
  | some id => exact .pure rfl
  | none => exact registerDef_follows d

theorem registerHir_follows (g : HirId) (name : String) :
    FollowsIn tcx ids (registerHir tcx g name) (registerHir tcx g name) Eq := by
  intro s id s' h
  obtain ⟨hg, rfl, rfl⟩ := registerHir_ok.mp h
  refine ⟨grows_withHir hg, fun _ t ht => ?_⟩
  have htg : t.hidId g = none := by
    unfold Extraction.hidId at hg ⊢
    rw [ht.mapping]
    exact hg
  refine ⟨_, t.withHir tcx g name, registerHir_ok.mpr ⟨htg, rfl, rfl⟩, ?_, ?_⟩
  · refine ⟨?_, ht.adts, ht.functionRefs, ht.functions,
      ht.known.grows (grows_withHir hg)⟩
    simp [Extraction.withHir, Extraction.bump, Extraction.hirIdent, Extraction.nextId, ht.mapping]
  · simp [Extraction.hirIdent, Extraction.nextId, ht.mapping]

theorem addAdt_follows (id : SymbolIdentifier) (sort : ADTSort) :
    FollowsIn tcx ids (addAdt id sort) (addAdt id sort) Eq := by
  intro s u s' h
  obtain ⟨hk, rfl⟩ := addAdt_ok.mp h
  refine ⟨grows_addAdt _ _, fun _ t ht => ⟨(), _, addAdt_ok.mpr ⟨?_, rfl⟩, ?_, rfl⟩⟩
  · rw [ht.adts]
    exact hk
  · exact ⟨ht.mapping, by simp [ht.adts], ht.functionRefs, ht.functions,
      ht.known.grows (grows_addAdt _ _)⟩

theorem addFunctionRef_follows (d : DefId) :
    FollowsIn tcx ids (addFunctionRef d) (addFunctionRef d) Eq := by
  intro s u s' h
  obtain ⟨hd, rfl⟩ := addFunctionRef_ok.mp h
  refine ⟨grows_addFunctionRef d, fun _ t ht => ⟨(), _, addFunctionRef_ok.mpr ⟨?_, rfl⟩, ?_, rfl⟩⟩
  · rw [ht.functionRefs]
    exact hd
  · exact ⟨ht.mapping, ht.adts, by simp [ht.functionRefs], ht.functions,
      ht.known.grows (grows_addFunctionRef d)⟩

theorem extractFnRef_follows (d : DefId) :
    FollowsIn tcx ids (extractFnRef tcx d) (extractFnRef tcx d) Eq := by
  refine (getIdFromDef_follows d).bind_eq fun id => ?_
  cases id with
  | some id => exact .pure rfl
  | none => exact (addFunctionRef_follows d).bind_eq fun _ => registerDef_follows d

theorem getSort_follows (d : DefId) : FollowsIn tcx ids (getSort d) (getSort d) Eq := by
  intro s sort s' h
  obtain ⟨u, s₁, h1, h2⟩ := Run.bind_ok.mp h
  obtain ⟨rfl, rfl⟩ := Run.get_ok.mp h1
  obtain ⟨rfl, rfl⟩ := Run.pure_ok.mp h2
  refine ⟨.refl _, fun _ t ht => ⟨_, t, (Run.bind_eq Run.get_eq).trans rfl, ht, ?_⟩⟩
  rw [ht.mapping, ht.adts]

/-! ## Types -/

section Withorder

variable (o : IterOrder HashSite)

@[simp] theorem isClosure_withOrder (d : DefId) :
    (tcx.withOrder o).isClosure d = tcx.isClosure d := rfl

@[simp] theorem predicatesOf_withOrder (d : DefId) :
    (tcx.withOrder o).predicatesOf d = tcx.predicatesOf d := rfl

@[simp] theorem allGenericParamsOf_withOrder (d : DefId) :
    allGenericParamsOf (tcx.withOrder o) d = allGenericParamsOf tcx d := rfl

@[simp] theorem iterOrder_withOrder : (tcx.withOrder o).iterOrder = o := rfl

@[simp] theorem getOrRegisterDef_withOrder (d : DefId) :
    getOrRegisterDef (tcx.withOrder o) d = getOrRegisterDef tcx d := rfl

@[simp] theorem registerDef_withOrder (d : DefId) :
    registerDef (tcx.withOrder o) d = registerDef tcx d := rfl

@[simp] theorem adtDef_withOrder (d : DefId) : (tcx.withOrder o).adtDef d = tcx.adtDef d := rfl

@[simp] theorem extractTyWith_withOrder : extractTyWith (tcx.withOrder o) = extractTyWith tcx := by
  delta extractTyWith
  rfl

@[simp] theorem extractTysWith_withOrder :
    extractTysWith (tcx.withOrder o) = extractTysWith tcx := by
  delta extractTysWith
  rfl

@[simp] theorem scanPredicates_withOrder :
    scanPredicates (tcx.withOrder o) = scanPredicates tcx := by
  delta scanPredicates
  rfl

@[simp] theorem extractTparams_withOrder :
    extractTparams (tcx.withOrder o) = extractTparams tcx := by
  delta extractTparams
  rfl

end Withorder

section Congr

variable {adtId adtId' : DefId → Xtor SymbolIdentifier} {txtcx txtcx' : TyExtractionCtxt}

mutual

/-- The extraction of a type depends on the ADTs and on the type parameters that it mentions. -/
theorem extractTyWith_congr : ∀ ty : Ty, (∀ d ∈ tyAdts tcx ty, adtId d = adtId' d) →
    (∀ i ∈ tyParams tcx ty, txtcx.indexToTparam.get? i = txtcx'.indexToTparam.get? i) →
    extractTyWith tcx adtId txtcx ty = extractTyWith tcx adtId' txtcx' ty
  | .tuple tys, ha, hp => by
    rw [extractTyWith, extractTyWith, extractTysWith_congr tys ha hp]
  | .adt did substs, ha, hp => by
    rw [extractTyWith, extractTyWith]
    rw [tyAdts] at ha
    rw [tyParams] at hp
    split
    · rfl
    · next hb =>
      rw [if_neg hb] at ha hp
      split
      · next hbox =>
        rw [if_pos hbox] at ha hp
        exact extractTyAt0_congr substs ha hp
      · next hbox =>
        rw [if_neg hbox] at ha hp
        split
        · next hset =>
          rw [if_pos hset] at ha hp
          rw [extractTyAt0_congr substs ha hp]
        · next hset =>
          rw [if_neg hset] at ha hp
          rw [ha did List.mem_cons_self,
            extractTysWith_congr substs (fun d hd => ha d (List.mem_cons_of_mem _ hd)) hp]
  | .ref ty .not, ha, hp => by
    rw [extractTyWith, extractTyWith]
    exact extractTyWith_congr ty (by simpa [tyAdts] using ha) (by simpa [tyParams] using hp)
  | .param index, _, hp => by
    rw [extractTyWith, extractTyWith, hp index (by simp [tyParams])]
  | .bool, _, _ | .int _, _, _ | .uint _, _, _ | .ref _ .mut, _, _ | .char, _, _ | .str, _, _
  | .never, _, _ | .fnDef _ _, _, _ | .closure _ _, _, _ | .other _, _, _ => by
    rw [extractTyWith, extractTyWith]

theorem extractTysWith_congr : ∀ tys : List Ty, (∀ d ∈ tysAdts tcx tys, adtId d = adtId' d) →
    (∀ i ∈ tysParams tcx tys, txtcx.indexToTparam.get? i = txtcx'.indexToTparam.get? i) →
    extractTysWith tcx adtId txtcx tys = extractTysWith tcx adtId' txtcx' tys
  | [], _, _ => by rw [extractTysWith, extractTysWith]
  | ty :: tys, ha, hp => by
    simp only [tysAdts, List.mem_append] at ha
    simp only [tysParams, List.mem_append] at hp
    rw [extractTysWith, extractTysWith,
      extractTyWith_congr ty (fun d hd => ha d (.inl hd)) (fun i hi => hp i (.inl hi)),
      extractTysWith_congr tys (fun d hd => ha d (.inr hd)) (fun i hi => hp i (.inr hi))]

theorem extractTyAt0_congr : ∀ tys : List Ty, (∀ d ∈ tyAdtsAt0 tcx tys, adtId d = adtId' d) →
    (∀ i ∈ tyParamsAt0 tcx tys, txtcx.indexToTparam.get? i = txtcx'.indexToTparam.get? i) →
    extractTyAt0 tcx adtId txtcx tys = extractTyAt0 tcx adtId' txtcx' tys
  | [], _, _ => by rw [extractTyAt0, extractTyAt0]
  | ty :: _, ha, hp => by
    rw [extractTyAt0, extractTyAt0]
    exact extractTyWith_congr ty (by simpa [tyAdtsAt0] using ha) (by simpa [tyParamsAt0] using hp)

end

variable {ids : KnownIds}

mutual

/-- A type whose ADTs are known is extracted to the same in every state. -/
theorem extractTyWith_steady (hid : ∀ d, ids d ≠ none → Steady ids (adtId d)) :
    ∀ ty : Ty, (∀ d ∈ tyAdts tcx ty, ids d ≠ none) →
    Steady ids (extractTyWith tcx adtId txtcx ty)
  | .bool, _ => by
    rw [extractTyWith]
    exact .pure _
  | .int t, _ | .uint t, _ => by
    rw [extractTyWith]
    split
    · exact .pure _
    · exact .bind (unsupported_steady _) fun _ => .pure _
  | .tuple tys, ha => by
    rw [extractTyWith]
    refine .bind (extractTysWith_steady hid tys (by simpa [tyAdts] using ha)) fun tpes => ?_
    split
    · exact .pure _
    · exact .bind (unsupported_steady _) fun _ => .pure _
    · exact .pure _
  | .adt did substs, ha => by
    rw [extractTyWith]
    rw [tyAdts] at ha
    split
    · exact .pure _
    · next hb =>
      rw [if_neg hb] at ha
      split
      · next hbox =>
        rw [if_pos hbox] at ha
        exact extractTyAt0_steady hid substs ha
      · next hbox =>
        rw [if_neg hbox] at ha
        split
        · next hset =>
          rw [if_pos hset] at ha
          exact .bind (extractTyAt0_steady hid substs ha) fun _ => .pure _
        · next hset =>
          rw [if_neg hset] at ha
          refine .bind (hid did (ha did List.mem_cons_self)) fun _ => ?_
          refine .bind (extractTysWith_steady hid substs fun d hd => ?_) fun _ => .pure _
          exact ha d (List.mem_cons_of_mem _ hd)
  | .ref ty .not, ha => by
    rw [extractTyWith]
    exact extractTyWith_steady hid ty (by simpa [tyAdts] using ha)
  | .param index, _ => by
    rw [extractTyWith]
    split
    · exact .pure _
    · exact .panic _
  | .ref _ .mut, _ | .char, _ | .str, _ | .never, _ | .fnDef _ _, _ | .closure _ _, _
  | .other _, _ => by
    rw [extractTyWith]
    exact .bind (unsupported_steady _) fun _ => .pure _

theorem extractTysWith_steady (hid : ∀ d, ids d ≠ none → Steady ids (adtId d)) :
    ∀ tys : List Ty, (∀ d ∈ tysAdts tcx tys, ids d ≠ none) →
    Steady ids (extractTysWith tcx adtId txtcx tys)
  | [], _ => by
    rw [extractTysWith]
    exact .pure _
  | ty :: tys, ha => by
    simp only [tysAdts, List.mem_append] at ha
    rw [extractTysWith]
    exact .bind (extractTyWith_steady hid ty fun d hd => ha d (.inl hd)) fun _ =>
      .bind (extractTysWith_steady hid tys fun d hd => ha d (.inr hd)) fun _ => .pure _

theorem extractTyAt0_steady (hid : ∀ d, ids d ≠ none → Steady ids (adtId d)) :
    ∀ tys : List Ty, (∀ d ∈ tyAdtsAt0 tcx tys, ids d ≠ none) →
    Steady ids (extractTyAt0 tcx adtId txtcx tys)
  | [], _ => by
    rw [extractTyAt0]
    exact .panic _
  | ty :: _, ha => by
    rw [extractTyAt0]
    exact extractTyWith_steady hid ty (by simpa [tyAdtsAt0] using ha)

end

end Congr

/-- Contexts that hold the same type parameters, in whatever order. -/
structure CtxAlike (txtcx txtcx' : TyExtractionCtxt) : Prop where
  defId : txtcx'.defId = txtcx.defId
  perm : txtcx.indexToTparam.Perm txtcx'.indexToTparam
  nodup : txtcx.indexToTparam.keys.Nodup

theorem CtxAlike.get? {txtcx txtcx' : TyExtractionCtxt} (h : CtxAlike txtcx txtcx') (i : Nat) :
    txtcx.indexToTparam.get? i = txtcx'.indexToTparam.get? i := Assoc.get?_perm h.perm h.nodup i

section Types

variable {adtId adtId' : DefId → Xtor SymbolIdentifier} {txtcx txtcx' : TyExtractionCtxt}

mutual

theorem extractTyWith_follows (hadt : ∀ d, FollowsIn tcx ids (adtId d) (adtId' d) Eq)
    (hctx : CtxAlike txtcx txtcx') :
    ∀ ty : Ty,
    FollowsIn tcx ids (extractTyWith tcx adtId txtcx ty) (extractTyWith tcx adtId' txtcx' ty) Eq
  | .bool => by
    rw [extractTyWith, extractTyWith]
    exact .pure rfl
  | .int t | .uint t => by
    rw [extractTyWith, extractTyWith]
    split
    · exact .pure rfl
    · exact unsupported_both _ _
  | .tuple tys => by
    rw [extractTyWith, extractTyWith]
    refine (extractTysWith_follows hadt hctx tys).bind_eq fun tpes => ?_
    split
    · exact .pure rfl
    · exact unsupported_both _ _
    · exact .pure rfl
  | .adt did substs => by
    rw [extractTyWith, extractTyWith]
    split
    · exact .pure rfl
    · split
      · exact extractTyAt0_follows hadt hctx substs
      · split
        · exact (extractTyAt0_follows hadt hctx substs).bind_eq fun _ => .pure rfl
        · exact (hadt did).bind_eq fun _ =>
            (extractTysWith_follows hadt hctx substs).bind_eq fun _ => .pure rfl
  | .ref ty .not => by
    rw [extractTyWith, extractTyWith]
    exact extractTyWith_follows hadt hctx ty
  | .param index => by
    rw [extractTyWith, extractTyWith, ← hctx.get?]
    split
    · exact .pure rfl
    · exact .panic _
  | .ref _ .mut | .char | .str | .never | .fnDef _ _ | .closure _ _ | .other _ => by
    rw [extractTyWith, extractTyWith]
    exact unsupported_both _ _

theorem extractTysWith_follows (hadt : ∀ d, FollowsIn tcx ids (adtId d) (adtId' d) Eq)
    (hctx : CtxAlike txtcx txtcx') :
    ∀ tys : List Ty, FollowsIn tcx ids
    (extractTysWith tcx adtId txtcx tys) (extractTysWith tcx adtId' txtcx' tys) Eq
  | [] => by
    rw [extractTysWith, extractTysWith]
    exact .pure rfl
  | ty :: tys => by
    rw [extractTysWith, extractTysWith]
    exact (extractTyWith_follows hadt hctx ty).bind_eq fun _ =>
      (extractTysWith_follows hadt hctx tys).bind_eq fun _ => .pure rfl

theorem extractTyAt0_follows (hadt : ∀ d, FollowsIn tcx ids (adtId d) (adtId' d) Eq)
    (hctx : CtxAlike txtcx txtcx') :
    ∀ tys : List Ty,
    FollowsIn tcx ids (extractTyAt0 tcx adtId txtcx tys) (extractTyAt0 tcx adtId' txtcx' tys) Eq
  | [] => by
    rw [extractTyAt0, extractTyAt0]
    exact .panic _
  | ty :: _ => by
    rw [extractTyAt0, extractTyAt0]
    exact extractTyWith_follows hadt hctx ty

end

end Types

end Stainless
