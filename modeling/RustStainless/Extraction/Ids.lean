import RustStainless.Lib.Graded
import RustStainless.Extraction.State

/-!
# What the primitives do to the state

One lemma for each primitive of `Extraction/State.lean` says when it returns and what the state is
then. The invariant of the identifiers (`IdsOk`) and the growth of the state (`Grows`) follow from
these.
-/

namespace Stainless

open Rustc St Lib

/-! ## Reading the state -/

namespace Extraction

/-- The id a definition has, if any. -/
def didId (s : Extraction) (d : DefId) : Option SymbolIdentifier := s.mapping.didToStid.get? d

/-- The id a HIR node has, if any. -/
def hidId (s : Extraction) (h : HirId) : Option SymbolIdentifier := s.mapping.hidToStid.get? h

/-- How many identifiers were handed out. -/
def idCount (s : Extraction) : Nat := (s.mapping.globalIdCounter.next.get? ()).getD 0

/-- The state after an identifier was handed out. -/
def bump (s : Extraction) (name : String) : Extraction :=
  { s with mapping :=
    { s.mapping with
      globalIdCounter := (s.mapping.globalIdCounter.fresh ()).2
      localIdCounter := (s.mapping.localIdCounter.fresh name).2 } }

/-- The identifier that is handed out next. -/
def nextId (s : Extraction) (name : String) (path : List String) : SymbolIdentifier :=
  { id :=
      { name := name
        globalId := (s.mapping.globalIdCounter.fresh ()).1
        id := (s.mapping.localIdCounter.fresh name).1 }
    symbolPath := path }

/-- The id that a definition is registered with. -/
def defIdent (s : Extraction) (tcx : Tcx) (d : DefId) : SymbolIdentifier :=
  s.nextId (symbolNameAndPath (symbolPathFromDefId tcx d)).1
    (symbolNameAndPath (symbolPathFromDefId tcx d)).2

/-- The state after a definition was registered. -/
def withDef (s : Extraction) (tcx : Tcx) (d : DefId) : Extraction :=
  let t := s.bump (symbolNameAndPath (symbolPathFromDefId tcx d)).1
  { t with mapping :=
    { t.mapping with didToStid := t.mapping.didToStid.insert d (s.defIdent tcx d) } }

/-- The id that a HIR node is registered with. -/
def hirIdent (s : Extraction) (tcx : Tcx) (h : HirId) (name : String) : SymbolIdentifier :=
  s.nextId name (symbolPathFromDefId tcx h.owner ++ [name])

/-- The state after a HIR node was registered. -/
def withHir (s : Extraction) (tcx : Tcx) (h : HirId) (name : String) : Extraction :=
  let t := s.bump name
  { t with mapping :=
    { t.mapping with hidToStid := t.mapping.hidToStid.insert h (s.hirIdent tcx h name) } }

end Extraction

open Extraction

theorem UniqueCounter.fresh_unit_fst (u : UniqueCounter Unit) :
    (u.fresh ()).1 = (u.next.get? ()).getD 0 := by
  unfold UniqueCounter.fresh
  cases u.next.get? () <;> rfl

theorem UniqueCounter.fresh_unit_snd (u : UniqueCounter Unit) :
    ((u.fresh ()).2.next.get? ()).getD 0 = (u.next.get? ()).getD 0 + 1 := by
  unfold UniqueCounter.fresh
  cases h : u.next.get? () with
  | none => simp [Assoc.get?_insert_of_none h]
  | some c =>
    have hget : (u.next.insert () (c + 1)).get? () = some (c + 1) := by
      cases hl : u.next with
      | nil => simp [hl] at h
      | cons e m => simp [Assoc.insert, Assoc.contains]
    show ((u.next.insert () (c + 1)).get? ()).getD 0 = _
    rw [hget]
    rfl

section

variable (s : Extraction) (tcx : Tcx)

@[simp] theorem bump_didId (name : String) (d : DefId) : (s.bump name).didId d = s.didId d := rfl

@[simp] theorem bump_hidId (name : String) (h : HirId) : (s.bump name).hidId h = s.hidId h := rfl

@[simp] theorem bump_idCount (name : String) : (s.bump name).idCount = s.idCount + 1 :=
  UniqueCounter.fresh_unit_snd _

@[simp] theorem nextId_globalId (name : String) (path : List String) :
    (s.nextId name path).globalId = s.idCount :=
  congrArg Nat.cast (UniqueCounter.fresh_unit_fst _)

@[simp] theorem defIdent_globalId (d : DefId) : (s.defIdent tcx d).globalId = s.idCount :=
  nextId_globalId s _ _

@[simp] theorem hirIdent_globalId (h : HirId) (name : String) :
    (s.hirIdent tcx h name).globalId = s.idCount := nextId_globalId s _ _

@[simp] theorem withDef_idCount (d : DefId) : (s.withDef tcx d).idCount = s.idCount + 1 :=
  UniqueCounter.fresh_unit_snd _

@[simp] theorem withDef_hidId (d : DefId) (h : HirId) : (s.withDef tcx d).hidId h = s.hidId h := rfl

@[simp] theorem withHir_idCount (h : HirId) (name : String) :
    (s.withHir tcx h name).idCount = s.idCount + 1 := UniqueCounter.fresh_unit_snd _

@[simp] theorem withHir_didId (h : HirId) (name : String) (d : DefId) :
    (s.withHir tcx h name).didId d = s.didId d := rfl

theorem withDef_didId {s : Extraction} {d : DefId} (h : s.didId d = none) (e : DefId) :
    (s.withDef tcx d).didId e = if d = e then some (s.defIdent tcx d) else s.didId e :=
  Assoc.get?_insert_of_none h _ e

theorem withHir_hidId {s : Extraction} {h : HirId} {name : String} (hn : s.hidId h = none)
    (e : HirId) : (s.withHir tcx h name).hidId e
      = if h = e then some (s.hirIdent tcx h name) else s.hidId e :=
  Assoc.get?_insert_of_none hn _ e

end

/-! ## The primitives -/

section

variable {tcx : Tcx} {s s' : Extraction} {d : DefId}

theorem report_ok {m : Diag} {u : Unit} :
    report m s = .ok (u, s') ↔ s' = { s with diags := s.diags ++ [m] } := Run.modify_ok

theorem freshIdWithPath_ok {name : String} {path : List String} {id : SymbolIdentifier} :
    freshIdWithPath name path s = .ok (id, s') ↔ id = s.nextId name path ∧ s' = s.bump name := by
  show Except.ok (s.nextId name path, s.bump name) = Except.ok (id, s') ↔ _
  simp [eq_comm]

theorem freshIdWithPath_eq (name : String) (path : List String) :
    freshIdWithPath name path s = .ok (s.nextId name path, s.bump name) := rfl

theorem registerDef_eq (h : s.didId d = none) :
    registerDef tcx d s = .ok (s.defIdent tcx d, s.withDef tcx d) := by
  unfold registerDef
  rw [Run.bind_eq (freshIdWithPath_eq _ _), Run.bind_eq Run.get_eq]
  rw [if_neg]
  · rfl
  · have : (s.bump (symbolNameAndPath (symbolPathFromDefId tcx d)).1).didId d = none := h
    simp [Assoc.contains, show Assoc.get? (s.bump _).mapping.didToStid d = none from this]

theorem registerDef_ok {id : SymbolIdentifier} :
    registerDef tcx d s = .ok (id, s') ↔
      s.didId d = none ∧ id = s.defIdent tcx d ∧ s' = s.withDef tcx d := by
  cases h : s.didId d with
  | none => rw [registerDef_eq h]; simp [eq_comm]
  | some i =>
    unfold registerDef
    rw [Run.bind_eq (freshIdWithPath_eq _ _), Run.bind_eq Run.get_eq, if_pos]
    · simp
    · have : (s.bump (symbolNameAndPath (symbolPathFromDefId tcx d)).1).didId d = some i := h
      simp [Assoc.contains, show Assoc.get? (s.bump _).mapping.didToStid d = some i from this]

/-- The uniqueness assertion fails exactly on a definition that has an id. -/
theorem registerDef_error (h : s.didId d ≠ none) :
    registerDef tcx d s = .error .registerDef := by
  obtain ⟨i, hi⟩ := Option.ne_none_iff_exists'.mp h
  unfold registerDef
  rw [Run.bind_eq (freshIdWithPath_eq _ _), Run.bind_eq Run.get_eq, if_pos]
  · rfl
  · have : (s.bump (symbolNameAndPath (symbolPathFromDefId tcx d)).1).didId d = some i := hi
    simp [Assoc.contains, show Assoc.get? (s.bump _).mapping.didToStid d = some i from this]

theorem getIdFromDef_eq : getIdFromDef d s = .ok (s.didId d, s) := rfl

theorem getOrRegisterDef_of_some {id : SymbolIdentifier} (h : s.didId d = some id) :
    getOrRegisterDef tcx d s = .ok (id, s) := by
  unfold getOrRegisterDef
  rw [Run.bind_eq getIdFromDef_eq, h]
  rfl

theorem getOrRegisterDef_of_none (h : s.didId d = none) :
    getOrRegisterDef tcx d s = .ok (s.defIdent tcx d, s.withDef tcx d) := by
  unfold getOrRegisterDef
  rw [Run.bind_eq getIdFromDef_eq, h]
  exact registerDef_eq h

theorem getOrRegisterDef_ok {id : SymbolIdentifier} :
    getOrRegisterDef tcx d s = .ok (id, s') ↔
      (s.didId d = some id ∧ s' = s) ∨
      (s.didId d = none ∧ id = s.defIdent tcx d ∧ s' = s.withDef tcx d) := by
  cases h : s.didId d with
  | none => rw [getOrRegisterDef_of_none h]; simp [eq_comm]
  | some i => rw [getOrRegisterDef_of_some h]; simp [eq_comm]

theorem registerHir_ok {h : HirId} {name : String} {id : SymbolIdentifier} :
    registerHir tcx h name s = .ok (id, s') ↔
      s.hidId h = none ∧ id = s.hirIdent tcx h name ∧ s' = s.withHir tcx h name := by
  unfold registerHir
  rw [Run.bind_eq (freshIdWithPath_eq _ _), Run.bind_eq Run.get_eq]
  have hb : Assoc.get? (s.bump name).mapping.hidToStid h = s.hidId h := rfl
  cases hh : s.hidId h with
  | none =>
    rw [if_neg (by simp [Assoc.contains, hb, hh])]
    show Except.ok (s.hirIdent tcx h name, s.withHir tcx h name) = Except.ok (id, s') ↔ _
    simp [eq_comm]
  | some i =>
    rw [if_pos (by simp [Assoc.contains, hb, hh])]
    simp

theorem addAdt_ok {id : SymbolIdentifier} {adt : ADTSort} {u : Unit} :
    addAdt id adt s = .ok (u, s') ↔
      s.adts.get? id.globalId = none ∧ s' = { s with adts := s.adts ++ [(id.globalId, adt)] } := by
  unfold addAdt
  rw [Run.bind_eq Run.get_eq]
  cases h : s.adts.get? id.globalId with
  | none =>
    rw [if_neg (by simp [Assoc.contains, h]), Run.modify_ok, Assoc.insert_of_get?_none h]
    simp
  | some a =>
    rw [if_pos (by simp [Assoc.contains, h])]
    simp

theorem addFunction_ok {id : SymbolIdentifier} {fd : FunDef} {u : Unit} :
    addFunction id fd s = .ok (u, s') ↔
      s.functions.get? id.globalId = none ∧
        s' = { s with functions := s.functions ++ [(id.globalId, fd)] } := by
  unfold addFunction
  rw [Run.bind_eq Run.get_eq]
  cases h : s.functions.get? id.globalId with
  | none =>
    rw [if_neg (by simp [Assoc.contains, h]), Run.modify_ok, Assoc.insert_of_get?_none h]
    simp
  | some a =>
    rw [if_pos (by simp [Assoc.contains, h])]
    simp

theorem addFunctionRef_ok {u : Unit} :
    addFunctionRef d s = .ok (u, s') ↔
      d ∉ s.functionRefs ∧ s' = { s with functionRefs := s.functionRefs ++ [d] } := by
  unfold addFunctionRef
  rw [Run.bind_eq Run.get_eq]
  by_cases h : d ∈ s.functionRefs
  · rw [if_pos h]; simp [h]
  · rw [if_neg h, Run.modify_ok]; simp [h]

end

/-! ## Identifiers stay apart -/

/--
The invariant of the identifiers: every id in a map was handed out by the counter, no two entries
share one, and a definition has the name and path that its definition path gives.
-/
structure IdsOk (tcx : Tcx) (s : Extraction) : Prop where
  did_lt : ∀ d id, s.didId d = some id → id.globalId < s.idCount
  hid_lt : ∀ h id, s.hidId h = some id → id.globalId < s.idCount
  did_inj : ∀ d e i j, s.didId d = some i → s.didId e = some j → i.globalId = j.globalId → d = e
  hid_inj : ∀ d e i j, s.hidId d = some i → s.hidId e = some j → i.globalId = j.globalId → d = e
  did_hid : ∀ d h i j, s.didId d = some i → s.hidId h = some j → i.globalId ≠ j.globalId
  did_path : ∀ d id, s.didId d = some id →
    (id.id.name, id.symbolPath) = symbolNameAndPath (symbolPathFromDefId tcx d)

theorem IdsOk.new (tcx : Tcx) : IdsOk tcx Extraction.new where
  did_lt := by intro d id h; simp [didId, Extraction.new] at h
  hid_lt := by intro d id h; simp [hidId, Extraction.new] at h
  did_inj := by intro d e i j h; simp [didId, Extraction.new] at h
  hid_inj := by intro d e i j h; simp [hidId, Extraction.new] at h
  did_hid := by intro d h i j h; simp [didId, Extraction.new] at h
  did_path := by intro d id h; simp [didId, Extraction.new] at h

section

variable {tcx : Tcx} {s : Extraction}

/-- Only the counters and the two maps matter. -/
theorem IdsOk.of_mapping {t : Extraction} (h : IdsOk tcx s) (he : t.mapping = s.mapping) :
    IdsOk tcx t := by
  have hd : ∀ d, t.didId d = s.didId d := fun d => by unfold didId; rw [he]
  have hh : ∀ g, t.hidId g = s.hidId g := fun g => by unfold hidId; rw [he]
  have hc : t.idCount = s.idCount := by unfold idCount; rw [he]
  refine ⟨?_, ?_, ?_, ?_, ?_, ?_⟩ <;> simp only [hd, hh, hc]
  · exact h.did_lt
  · exact h.hid_lt
  · exact h.did_inj
  · exact h.hid_inj
  · exact h.did_hid
  · exact h.did_path

private theorem lt_succ_of_lt {k : Int} {n : Nat} (h : k < n) : k < ((n + 1 : Nat) : Int) := by
  omega

theorem IdsOk.bump (h : IdsOk tcx s) (name : String) : IdsOk tcx (s.bump name) where
  did_lt := fun d id hd => by rw [bump_idCount]; exact lt_succ_of_lt (h.did_lt d id hd)
  hid_lt := fun d id hd => by rw [bump_idCount]; exact lt_succ_of_lt (h.hid_lt d id hd)
  did_inj := h.did_inj
  hid_inj := h.hid_inj
  did_hid := h.did_hid
  did_path := h.did_path

theorem IdsOk.withDef (h : IdsOk tcx s) {d : DefId} (hd : s.didId d = none) :
    IdsOk tcx (s.withDef tcx d) where
  did_lt := by
    intro e id he
    rw [withDef_idCount]
    rw [withDef_didId tcx hd] at he
    split at he
    · rw [← Option.some.inj he, defIdent_globalId]; omega
    · exact lt_succ_of_lt (h.did_lt e id he)
  hid_lt := fun e id he => by rw [withDef_idCount]; exact lt_succ_of_lt (h.hid_lt e id he)
  did_inj := by
    intro e f i j he hf hij
    rw [withDef_didId tcx hd] at he hf
    split at he
    · next hde =>
      rw [← Option.some.inj he, defIdent_globalId] at hij
      split at hf
      · next hdf => rw [← hde, ← hdf]
      · have := h.did_lt f j hf; omega
    · split at hf
      · rw [← Option.some.inj hf, defIdent_globalId] at hij
        have := h.did_lt e i he
        omega
      · exact h.did_inj e f i j he hf hij
  hid_inj := h.hid_inj
  did_hid := by
    intro e g i j he hg
    rw [withDef_didId tcx hd] at he
    split at he
    · rw [← Option.some.inj he, defIdent_globalId]
      have := h.hid_lt g j hg
      omega
    · exact h.did_hid e g i j he hg
  did_path := by
    intro e id he
    rw [withDef_didId tcx hd] at he
    split at he
    · next hde => rw [← Option.some.inj he, ← hde]; rfl
    · exact h.did_path e id he

theorem IdsOk.withHir (h : IdsOk tcx s) {g : HirId} {name : String} (hg : s.hidId g = none) :
    IdsOk tcx (s.withHir tcx g name) where
  did_lt := fun e id he => by rw [withHir_idCount]; exact lt_succ_of_lt (h.did_lt e id he)
  hid_lt := by
    intro e id he
    rw [withHir_idCount]
    rw [withHir_hidId tcx hg] at he
    split at he
    · rw [← Option.some.inj he, hirIdent_globalId]; omega
    · exact lt_succ_of_lt (h.hid_lt e id he)
  did_inj := h.did_inj
  hid_inj := by
    intro e f i j he hf hij
    rw [withHir_hidId tcx hg] at he hf
    split at he
    · next hde =>
      rw [← Option.some.inj he, hirIdent_globalId] at hij
      split at hf
      · next hdf => rw [← hde, ← hdf]
      · have := h.hid_lt f j hf; omega
    · split at hf
      · rw [← Option.some.inj hf, hirIdent_globalId] at hij
        have := h.hid_lt e i he
        omega
      · exact h.hid_inj e f i j he hf hij
  did_hid := by
    intro e f i j he hf
    rw [withHir_hidId tcx hg] at hf
    split at hf
    · rw [← Option.some.inj hf, hirIdent_globalId]
      have := h.did_lt e i he
      omega
    · exact h.did_hid e f i j he hf
  did_path := h.did_path

end

/-! ## The state only grows -/

/-- Everything recorded stays recorded, and diagnostics are only appended. -/
structure Grows (s s' : Extraction) : Prop where
  count : s.idCount ≤ s'.idCount
  did : ∀ d id, s.didId d = some id → s'.didId d = some id
  hid : ∀ h id, s.hidId h = some id → s'.hidId h = some id
  adts : ∀ k a, s.adts.get? k = some a → s'.adts.get? k = some a
  functionRefs : ∀ d ∈ s.functionRefs, d ∈ s'.functionRefs
  functions : ∀ k f, s.functions.get? k = some f → s'.functions.get? k = some f
  diags : ∃ new, s'.diags = s.diags ++ new

theorem Grows.refl (s : Extraction) : Grows s s :=
  ⟨Nat.le_refl _, fun _ _ h => h, fun _ _ h => h, fun _ _ h => h, fun _ h => h, fun _ _ h => h, [],
    by simp⟩

theorem Grows.trans {s s' s'' : Extraction} (h : Grows s s') (h' : Grows s' s'') :
    Grows s s'' where
  count := Nat.le_trans h.count h'.count
  did := fun d id hd => h'.did d id (h.did d id hd)
  hid := fun d id hd => h'.hid d id (h.hid d id hd)
  adts := fun k a ha => h'.adts k a (h.adts k a ha)
  functionRefs := fun d hd => h'.functionRefs d (h.functionRefs d hd)
  functions := fun k f hf => h'.functions k f (h.functions k f hf)
  diags := by
    obtain ⟨n, hn⟩ := h.diags
    obtain ⟨n', hn'⟩ := h'.diags
    exact ⟨n ++ n', by rw [hn', hn, List.append_assoc]⟩

/-- A run that ends without errors had none before. -/
theorem Grows.noErrors {s s' : Extraction} (h : Grows s s') (hn : s'.NoErrors) : s.NoErrors := by
  obtain ⟨n, hn'⟩ := h.diags
  intro d hd
  exact hn d (by rw [hn']; exact List.mem_append_left _ hd)

section

variable {tcx : Tcx} {s : Extraction}

theorem grows_report (m : Diag) : Grows s { s with diags := s.diags ++ [m] } :=
  ⟨Nat.le_refl _, fun _ _ h => h, fun _ _ h => h, fun _ _ h => h, fun _ h => h, fun _ _ h => h, [m],
    rfl⟩

theorem grows_bump (name : String) : Grows s (s.bump name) :=
  ⟨by rw [bump_idCount]; omega, fun _ _ h => h, fun _ _ h => h, fun _ _ h => h, fun _ h => h,
    fun _ _ h => h, [], (List.append_nil _).symm⟩

theorem grows_withDef {d : DefId} (hd : s.didId d = none) : Grows s (s.withDef tcx d) where
  count := by rw [withDef_idCount]; omega
  did := by
    intro e id he
    rw [withDef_didId tcx hd, if_neg, he]
    rintro rfl
    rw [hd] at he
    simp at he
  hid := fun _ _ h => h
  adts := fun _ _ h => h
  functionRefs := fun _ h => h
  functions := fun _ _ h => h
  diags := ⟨[], (List.append_nil _).symm⟩

theorem grows_withHir {g : HirId} {name : String} (hg : s.hidId g = none) :
    Grows s (s.withHir tcx g name) where
  count := by rw [withHir_idCount]; omega
  did := fun _ _ h => h
  hid := by
    intro e id he
    rw [withHir_hidId tcx hg, if_neg, he]
    rintro rfl
    rw [hg] at he
    simp at he
  adts := fun _ _ h => h
  functionRefs := fun _ h => h
  functions := fun _ _ h => h
  diags := ⟨[], (List.append_nil _).symm⟩

theorem grows_addAdt (k : Int) (adt : ADTSort) :
    Grows s { s with adts := s.adts ++ [(k, adt)] } where
  count := Nat.le_refl _
  did := fun _ _ h => h
  hid := fun _ _ h => h
  adts := by
    intro j a hj
    rw [Assoc.get?_concat, hj]
    rfl
  functionRefs := fun _ h => h
  functions := fun _ _ h => h
  diags := ⟨[], (List.append_nil _).symm⟩

theorem grows_addFunction (k : Int) (fd : FunDef) :
    Grows s { s with functions := s.functions ++ [(k, fd)] } where
  count := Nat.le_refl _
  did := fun _ _ h => h
  hid := fun _ _ h => h
  adts := fun _ _ h => h
  functionRefs := fun _ h => h
  functions := by
    intro j a hj
    rw [Assoc.get?_concat, hj]
    rfl
  diags := ⟨[], (List.append_nil _).symm⟩

theorem grows_addFunctionRef (d : DefId) :
    Grows s { s with functionRefs := s.functionRefs ++ [d] } :=
  ⟨Nat.le_refl _, fun _ _ h => h, fun _ _ h => h, fun _ _ h => h,
    fun _ h => List.mem_append_left _ h, fun _ _ h => h, [], (List.append_nil _).symm⟩

end

end Stainless
