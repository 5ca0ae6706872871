import Mathlib.Data.List.Pairwise
import RustStainless.Data.Symbols
import RustStainless.Extraction.Ids

/-!
# Runs that hand out identifiers

Everything that changes the identifiers, the ADTs or the functions of an extraction goes through a
few operations. A run of any of them, in any order, hands out identifiers; the trace of the run
lists them with the operation that each is from. `TraceOk` says how they stay apart.
-/

namespace Stainless

open Rustc St Lib Extraction

/-! ## Operations and runs -/

/-- The operations of `BaseExtractor` that change the state. -/
inductive IdOp where
  | freshId (name : String)
  | registerDef (d : DefId)
  | getOrRegisterDef (d : DefId)
  | registerHir (h : HirId) (name : String)
  /-- `self.add_adt(sort.id, sort)` -/
  | addAdt (sort : ADTSort)
  | addFunctionRef (d : DefId)
  /-- `self.add_function(fd.id, fd)` -/
  | addFunction (fd : FunDef)
  | report (m : Diag)

/-- An identifier that was handed out, and the operation that it is from. -/
structure Event where
  op : IdOp
  id : SymbolIdentifier

/-- The definition that the identifier is for. -/
def IdOp.defId? : IdOp → Option DefId
  | .registerDef d => some d
  | .getOrRegisterDef d => some d
  | _ => none

def runOp (tcx : Tcx) : IdOp → Xtor (Option SymbolIdentifier)
  | .freshId name => some <$> freshId name
  | .registerDef d => some <$> registerDef tcx d
  | .getOrRegisterDef d => some <$> getOrRegisterDef tcx d
  | .registerHir h name => some <$> registerHir tcx h name
  | .addAdt sort => (fun _ => none) <$> addAdt sort.id sort
  | .addFunctionRef d => (fun _ => none) <$> addFunctionRef d
  | .addFunction fd => (fun _ => none) <$> addFunction fd.id fd
  | .report m => (fun _ => none) <$> Stainless.report m

/-- Run the operations one after the other and list what they hand out. -/
def runOps (tcx : Tcx) : List IdOp → Xtor (List Event)
  | [] => pure []
  | op :: ops => do
    let id ← runOp tcx op
    let rest ← runOps tcx ops
    pure ((id.toList.map fun i => { op := op, id := i }) ++ rest)

/-! ## Local ids -/

namespace Extraction

/-- How many identifiers of a name were handed out. -/
def nameCount (s : Extraction) (name : String) : Nat :=
  (s.mapping.localIdCounter.next.get? name).getD 0

end Extraction

section

variable {K : Type} [DecidableEq K]

theorem UniqueCounter.fresh_fst (u : UniqueCounter K) (k : K) :
    (u.fresh k).1 = (u.next.get? k).getD 0 := by
  unfold UniqueCounter.fresh
  cases u.next.get? k <;> rfl

theorem UniqueCounter.fresh_snd (u : UniqueCounter K) (k j : K) :
    ((u.fresh k).2.next.get? j).getD 0
      = (u.next.get? j).getD 0 + if k = j then 1 else 0 := by
  unfold UniqueCounter.fresh
  cases h : u.next.get? k <;> rw [Assoc.get?_insert] <;> by_cases hj : k = j
  · subst hj; simp [h]
  · simp [hj]
  · subst hj; simp [h]
  · simp [hj]

end

section

variable (s : Extraction) (tcx : Tcx)

@[simp] theorem nextId_name (name : String) (path : List String) :
    (s.nextId name path).id.name = name := rfl

@[simp] theorem nextId_id (name : String) (path : List String) :
    (s.nextId name path).id.id = s.nameCount name :=
  congrArg Nat.cast (UniqueCounter.fresh_fst _ _)

@[simp] theorem bump_nameCount (name n : String) :
    (s.bump name).nameCount n = s.nameCount n + if name = n then 1 else 0 :=
  UniqueCounter.fresh_snd _ _ _

end

/-! ## What an operation does -/

/-- The state after an identifier was handed out, as far as the counters know. -/
structure HandsOut (s s' : Extraction) (id : SymbolIdentifier) : Prop where
  globalId : id.globalId = s.idCount
  local_id : id.id.id = s.nameCount id.id.name
  idCount : s'.idCount = s.idCount + 1
  nameCount : ∀ n, s'.nameCount n = s.nameCount n + if id.id.name = n then 1 else 0
  adts : s'.adts = s.adts
  functions : s'.functions = s.functions

theorem HandsOut.bump (s : Extraction) (name : String) (path : List String) :
    HandsOut s (s.bump name) (s.nextId name path) :=
  ⟨nextId_globalId s name path, nextId_id s name path, bump_idCount s name, bump_nameCount s name,
    rfl, rfl⟩

/-- Only the entries and the diagnostics change. -/
structure KeepsIds (s s' : Extraction) : Prop where
  mapping : s'.mapping = s.mapping
  adts : s'.adts = s.adts ∨
    ∃ sort : ADTSort, s.adts.get? sort.id.globalId = none ∧
      s'.adts = s.adts ++ [(sort.id.globalId, sort)]
  functions : s'.functions = s.functions ∨
    ∃ fd : FunDef, s.functions.get? fd.id.globalId = none ∧
      s'.functions = s.functions ++ [(fd.id.globalId, fd)]

/-- The ways an operation can go. -/
inductive OpStep (tcx : Tcx) (s : Extraction) : IdOp → Option SymbolIdentifier → Extraction → Prop
  | fresh (name : String) : OpStep tcx s (.freshId name) (some (s.nextId name [name])) (s.bump name)
  | define {op : IdOp} {d : DefId} (hop : op.defId? = some d) (hd : s.didId d = none) :
    OpStep tcx s op (some (s.defIdent tcx d)) (s.withDef tcx d)
  | known {op : IdOp} {d : DefId} {id : SymbolIdentifier} (hop : op.defId? = some d)
    (hd : s.didId d = some id) : OpStep tcx s op (some id) s
  | hir (h : HirId) (name : String) (hh : s.hidId h = none) :
    OpStep tcx s (.registerHir h name) (some (s.hirIdent tcx h name)) (s.withHir tcx h name)
  | other {op : IdOp} {s' : Extraction} (h : KeepsIds s s') : OpStep tcx s op none s'

variable {tcx : Tcx} {s s' : Extraction}

theorem runOp_step {op : IdOp} {id : Option SymbolIdentifier}
    (h : runOp tcx op s = .ok (id, s')) : OpStep tcx s op id s' := by
  cases op with
  | freshId name =>
    obtain ⟨i, h1, rfl⟩ := Run.map_ok.mp h
    obtain ⟨rfl, rfl⟩ := freshIdWithPath_ok.mp h1
    exact .fresh name
  | registerDef d =>
    obtain ⟨i, h1, rfl⟩ := Run.map_ok.mp h
    obtain ⟨hd, rfl, rfl⟩ := registerDef_ok.mp h1
    exact .define rfl hd
  | getOrRegisterDef d =>
    obtain ⟨i, h1, rfl⟩ := Run.map_ok.mp h
    rcases getOrRegisterDef_ok.mp h1 with ⟨hd, rfl⟩ | ⟨hd, rfl, rfl⟩
    · exact .known rfl hd
    · exact .define rfl hd
  | registerHir h' name =>
    obtain ⟨i, h1, rfl⟩ := Run.map_ok.mp h
    obtain ⟨hh, rfl, rfl⟩ := registerHir_ok.mp h1
    exact .hir h' name hh
  | addAdt sort =>
    obtain ⟨u, h1, rfl⟩ := Run.map_ok.mp h
    obtain ⟨hn, rfl⟩ := addAdt_ok.mp h1
    exact .other ⟨rfl, .inr ⟨sort, hn, rfl⟩, .inl rfl⟩
  | addFunctionRef d =>
    obtain ⟨u, h1, rfl⟩ := Run.map_ok.mp h
    obtain ⟨-, rfl⟩ := addFunctionRef_ok.mp h1
    exact .other ⟨rfl, .inl rfl, .inl rfl⟩
  | addFunction fd =>
    obtain ⟨u, h1, rfl⟩ := Run.map_ok.mp h
    obtain ⟨hn, rfl⟩ := addFunction_ok.mp h1
    exact .other ⟨rfl, .inl rfl, .inr ⟨fd, hn, rfl⟩⟩
  | report m =>
    obtain ⟨u, h1, rfl⟩ := Run.map_ok.mp h
    obtain rfl := report_ok.mp h1
    exact .other ⟨rfl, .inl rfl, .inl rfl⟩

/-! ## The invariant of a trace -/

/-- Two identifiers differ in their `globalId`, and in their name or their local id. -/
def Apart (i j : SymbolIdentifier) : Prop :=
  i.globalId ≠ j.globalId ∧ (i.id.name, i.id.id) ≠ (j.id.name, j.id.id)

/-- The identifiers are for the same definition. -/
def SameDef (e f : Event) : Prop := ∃ d, e.op.defId? = some d ∧ f.op.defId? = some d

/-- One definition has one identifier, any other two identifiers are apart. -/
def Separate (e f : Event) : Prop :=
  (SameDef e f → e.id = f.id) ∧ (¬ SameDef e f → Apart e.id f.id)

/-- What holds of the state and of the identifiers that were handed out up to it. -/
structure TraceOk (tcx : Tcx) (trace : List Event) (s : Extraction) : Prop where
  ids : IdsOk tcx s
  kept : ∀ e ∈ trace, ∀ d, e.op.defId? = some d → s.didId d = some e.id
  known : ∀ d id, s.didId d = some id → ∃ e ∈ trace, e.op.defId? = some d ∧ e.id = id
  globalId_lt : ∀ e ∈ trace, e.id.globalId < s.idCount
  id_lt : ∀ e ∈ trace, e.id.id.id < s.nameCount e.id.id.name
  nonneg : ∀ e ∈ trace, 0 ≤ e.id.globalId ∧ 0 ≤ e.id.id.id
  nameCount_le : ∀ n, s.nameCount n ≤ s.idCount
  idCount_le : s.idCount ≤ trace.length
  separate : trace.Pairwise Separate
  adts : s.adts.keys.Nodup ∧ ∀ k sort, (k, sort) ∈ s.adts → k = sort.id.globalId
  functions : s.functions.keys.Nodup ∧ ∀ k fd, (k, fd) ∈ s.functions → k = fd.id.globalId

theorem TraceOk.new (tcx : Tcx) : TraceOk tcx [] .new where
  ids := .new tcx
  kept := by simp
  known := by simp [didId, Extraction.new]
  globalId_lt := by simp
  id_lt := by simp
  nonneg := by simp
  nameCount_le := by simp [nameCount, idCount, Extraction.new]
  idCount_le := by simp [idCount, Extraction.new]
  separate := .nil
  adts := by simp [Extraction.new, Assoc.keys]
  functions := by simp [Extraction.new, Assoc.keys]

theorem SameDef.symm {e f : Event} (h : SameDef e f) : SameDef f e := by
  obtain ⟨d, he, hf⟩ := h
  exact ⟨d, hf, he⟩

theorem Separate.symm {e f : Event} (h : Separate e f) : Separate f e :=
  ⟨fun hs => (h.1 hs.symm).symm, fun hs =>
    have ha := h.2 fun hs' => hs hs'.symm
    ⟨ha.1.symm, ha.2.symm⟩⟩

instance : Std.Symm Separate := ⟨fun _ _ h => h.symm⟩

/-- A new identifier is apart from all that were handed out before. -/
theorem TraceOk.apart_next {trace : List Event} (hok : TraceOk tcx trace s) {id : SymbolIdentifier}
    (h : HandsOut s s' id) {e : Event} (he : e ∈ trace) : Apart e.id id := by
  refine ⟨?_, ?_⟩
  · have hlt := hok.globalId_lt e he
    rw [h.globalId]
    omega
  · intro heq
    obtain ⟨hname, hid⟩ := Prod.mk.inj heq
    have hlt := hok.id_lt e he
    rw [hid, h.local_id, hname] at hlt
    omega

/-- The trace of a state in which a new identifier was handed out. -/
theorem TraceOk.push {trace : List Event} (hok : TraceOk tcx trace s) {op : IdOp}
    {id : SymbolIdentifier} (h : HandsOut s s' id) (hids : IdsOk tcx s')
    (hnew : ∀ d, op.defId? = some d → s.didId d = none ∧ s'.didId d = some id)
    (hdid : ∀ d i, s'.didId d = some i → s.didId d = some i ∨ op.defId? = some d ∧ i = id)
    (hkept : ∀ d i, s.didId d = some i → s'.didId d = some i) :
    TraceOk tcx (trace ++ [{ op := op, id := id }]) s' where
  ids := hids
  kept := by
    intro e he d hd
    rcases List.mem_append.mp he with he | he
    · exact hkept d e.id (hok.kept e he d hd)
    · obtain rfl := List.mem_singleton.mp he
      exact (hnew d hd).2
  known := by
    intro d i hi
    rcases hdid d i hi with hi | ⟨hop, rfl⟩
    · obtain ⟨e, he, hed, hei⟩ := hok.known d i hi
      exact ⟨e, List.mem_append_left _ he, hed, hei⟩
    · exact ⟨_, List.mem_append_right _ (List.mem_singleton_self _), hop, rfl⟩
  globalId_lt := by
    intro e he
    rw [h.idCount]
    rcases List.mem_append.mp he with he | he
    · have hlt := hok.globalId_lt e he
      omega
    · obtain rfl := List.mem_singleton.mp he
      dsimp only
      rw [h.globalId]
      omega
  id_lt := by
    intro e he
    rw [h.nameCount]
    rcases List.mem_append.mp he with he | he
    · have hlt := hok.id_lt e he
      omega
    · obtain rfl := List.mem_singleton.mp he
      dsimp only
      rw [if_pos rfl, h.local_id]
      omega
  nonneg := by
    intro e he
    rcases List.mem_append.mp he with he | he
    · exact hok.nonneg e he
    · obtain rfl := List.mem_singleton.mp he
      exact ⟨h.globalId ▸ Int.natCast_nonneg _, h.local_id ▸ Int.natCast_nonneg _⟩
  nameCount_le := by
    intro n
    have hle := hok.nameCount_le n
    rw [h.nameCount, h.idCount]
    split <;> omega
  idCount_le := by
    have hle := hok.idCount_le
    rw [h.idCount, List.length_append, List.length_singleton]
    omega
  separate := by
    refine List.pairwise_append.mpr ⟨hok.separate, List.pairwise_singleton _ _, ?_⟩
    intro e he f hf
    obtain rfl := List.mem_singleton.mp hf
    refine ⟨?_, fun _ => hok.apart_next h he⟩
    -- The definition of an earlier identifier is known, the new one's is not.
    rintro ⟨d, hd, hd'⟩
    have hnone := (hnew d hd').1
    rw [hok.kept e he d hd] at hnone
    simp at hnone
  adts := h.adts ▸ hok.adts
  functions := h.functions ▸ hok.functions

/-- Asking again for a definition gives the identifier that it has. -/
theorem TraceOk.again {trace : List Event} (hok : TraceOk tcx trace s) {op : IdOp} {d : DefId}
    {id : SymbolIdentifier} (hop : op.defId? = some d) (hd : s.didId d = some id) :
    TraceOk tcx (trace ++ [{ op := op, id := id }]) s := by
  obtain ⟨e, he, hed, rfl⟩ := hok.known d id hd
  have hmem : ∀ f ∈ trace ++ [{ op := op, id := e.id }], ∃ g ∈ trace, g.id = f.id := by
    intro f hf
    rcases List.mem_append.mp hf with hf | hf
    · exact ⟨f, hf, rfl⟩
    · obtain rfl := List.mem_singleton.mp hf
      exact ⟨e, he, rfl⟩
  refine ⟨hok.ids, ?_, ?_, ?_, ?_, ?_, hok.nameCount_le, ?_, ?_, hok.adts, hok.functions⟩
  · intro f hf d' hd'
    rcases List.mem_append.mp hf with hf | hf
    · exact hok.kept f hf d' hd'
    · obtain rfl := List.mem_singleton.mp hf
      obtain rfl := Option.some.inj (hop.symm.trans hd')
      exact hd
  · intro d' i hi
    obtain ⟨f, hf, hfd, hfi⟩ := hok.known d' i hi
    exact ⟨f, List.mem_append_left _ hf, hfd, hfi⟩
  · intro f hf
    obtain ⟨g, hg, hgf⟩ := hmem f hf
    exact hgf ▸ hok.globalId_lt g hg
  · intro f hf
    obtain ⟨g, hg, hgf⟩ := hmem f hf
    exact hgf ▸ hok.id_lt g hg
  · intro f hf
    obtain ⟨g, hg, hgf⟩ := hmem f hf
    exact hgf ▸ hok.nonneg g hg
  · have hle := hok.idCount_le
    rw [List.length_append]
    omega
  · refine List.pairwise_append.mpr ⟨hok.separate, List.pairwise_singleton _ _, ?_⟩
    intro f hf g hg
    obtain rfl := List.mem_singleton.mp hg
    refine ⟨?_, ?_⟩
    · rintro ⟨d', hd', hop'⟩
      obtain rfl := Option.some.inj (hop.symm.trans hop')
      have hfid := hok.kept f hf d hd'
      rw [hd] at hfid
      exact (Option.some.inj hfid).symm
    · intro hns
      have hne : f ≠ e := by
        rintro rfl
        exact hns ⟨d, hed, hop⟩
      have hsep := hok.separate.forall hf he hne
      exact hsep.2 fun hs => hns ⟨d, by
        obtain ⟨d', h1, h2⟩ := hs
        rw [hed] at h2
        rw [h1, h2], hop⟩

theorem keyed_concat {D : Type} {key : D → Int} {m m' : Assoc Int D}
    (h : m.keys.Nodup ∧ ∀ k x, (k, x) ∈ m → k = key x)
    (hm : m' = m ∨ ∃ x, m.get? (key x) = none ∧ m' = m ++ [(key x, x)]) :
    m'.keys.Nodup ∧ ∀ k x, (k, x) ∈ m' → k = key x := by
  rcases hm with rfl | ⟨x, hx, rfl⟩
  · exact h
  · refine ⟨?_, ?_⟩
    · rw [Assoc.keys, List.map_append, List.map_singleton]
      refine List.nodup_append.mpr ⟨h.1, by simp, ?_⟩
      rintro k hk j hj rfl
      rw [List.mem_singleton.mp hj] at hk
      exact Assoc.get?_eq_none_iff.mp hx hk
    · intro k y hy
      rcases List.mem_append.mp hy with hy | hy
      · exact h.2 k y hy
      · obtain ⟨rfl, rfl⟩ := Prod.mk.inj (List.mem_singleton.mp hy)
        rfl

theorem TraceOk.of_keepsIds {trace : List Event} (hok : TraceOk tcx trace s) (h : KeepsIds s s') :
    TraceOk tcx trace s' := by
  have hd : ∀ d, s'.didId d = s.didId d := fun d => by unfold didId; rw [h.mapping]
  have hc : s'.idCount = s.idCount := by unfold idCount; rw [h.mapping]
  have hn : ∀ n, s'.nameCount n = s.nameCount n := fun n => by unfold nameCount; rw [h.mapping]
  refine ⟨hok.ids.of_mapping h.mapping, ?_, ?_, ?_, ?_, hok.nonneg, ?_, ?_, hok.separate,
    keyed_concat hok.adts h.adts, keyed_concat hok.functions h.functions⟩ <;>
    simp only [hd, hc, hn]
  · exact hok.kept
  · exact hok.known
  · exact hok.globalId_lt
  · exact hok.id_lt
  · exact hok.nameCount_le
  · exact hok.idCount_le

/-- One operation keeps the invariant. -/
theorem TraceOk.step {trace : List Event} (hok : TraceOk tcx trace s) {op : IdOp}
    {id : Option SymbolIdentifier} (h : OpStep tcx s op id s') :
    TraceOk tcx (trace ++ id.toList.map fun i => { op := op, id := i }) s' := by
  cases h with
  | fresh name =>
    exact hok.push (.bump s name _) (hok.ids.bump name) (by simp [IdOp.defId?])
      (fun d i hi => .inl hi) (fun d i hi => hi)
  | @define op d hop hd =>
    have hout : HandsOut s (s.withDef tcx d) (s.defIdent tcx d) :=
      let np := symbolNameAndPath (symbolPathFromDefId tcx d)
      ⟨nextId_globalId s np.1 np.2, nextId_id s np.1 np.2, bump_idCount s np.1,
        bump_nameCount s np.1, rfl, rfl⟩
    refine hok.push hout (hok.ids.withDef hd) ?_ ?_ (grows_withDef hd).did
    · intro e he
      obtain rfl := Option.some.inj (hop.symm.trans he)
      exact ⟨hd, by rw [withDef_didId tcx hd, if_pos rfl]⟩
    · intro e i hi
      rw [withDef_didId tcx hd] at hi
      split at hi
      · next hde => exact .inr ⟨hde ▸ hop, (Option.some.inj hi).symm⟩
      · exact .inl hi
  | known hop hd => exact hok.again hop hd
  | hir h name hh =>
    have hout : HandsOut s (s.withHir tcx h name) (s.hirIdent tcx h name) :=
      ⟨nextId_globalId s name _, nextId_id s name _, bump_idCount s name, bump_nameCount s name,
        rfl, rfl⟩
    exact hok.push hout (hok.ids.withHir hh) (by simp [IdOp.defId?])
      (fun d i hi => .inl hi) (fun d i hi => hi)
  | other h => simpa using hok.of_keepsIds h

/-- A run of operations keeps the invariant. -/
theorem TraceOk.run : ∀ (ops : List IdOp) {trace new : List Event} {s s' : Extraction},
    TraceOk tcx trace s → runOps tcx ops s = .ok (new, s') → TraceOk tcx (trace ++ new) s'
  | [], trace, new, s, s', hok, h => by
    obtain ⟨rfl, rfl⟩ := Run.pure_ok.mp h
    simpa using hok
  | op :: ops, trace, new, s, s', hok, h => by
    simp only [runOps] at h
    obtain ⟨id, s₁, h1, h⟩ := Run.bind_ok.mp h
    obtain ⟨rest, s₂, h2, h⟩ := Run.bind_ok.mp h
    obtain ⟨rfl, rfl⟩ := Run.pure_ok.mp h
    rw [← List.append_assoc]
    exact TraceOk.run ops (hok.step (runOp_step h1)) h2

/-! ## Nothing is lost -/

/-- The sorts that the operations add. -/
def addedAdts (ops : List IdOp) : List ADTSort :=
  ops.filterMap fun
    | .addAdt sort => some sort
    | _ => none

/-- The functions that the operations add. -/
def addedFunctions (ops : List IdOp) : List FunDef :=
  ops.filterMap fun
    | .addFunction fd => some fd
    | _ => none

theorem runOp_added {op : IdOp} {id : Option SymbolIdentifier}
    (h : runOp tcx op s = .ok (id, s')) :
    s'.adts.values = s.adts.values ++ addedAdts [op] ∧
      s'.functions.values = s.functions.values ++ addedFunctions [op] := by
  cases op with
  | addAdt sort =>
    obtain ⟨u, h1, rfl⟩ := Run.map_ok.mp h
    obtain ⟨-, rfl⟩ := addAdt_ok.mp h1
    simp [addedAdts, addedFunctions, Assoc.values]
  | addFunction fd =>
    obtain ⟨u, h1, rfl⟩ := Run.map_ok.mp h
    obtain ⟨-, rfl⟩ := addFunction_ok.mp h1
    simp [addedAdts, addedFunctions, Assoc.values]
  | addFunctionRef d =>
    obtain ⟨u, h1, rfl⟩ := Run.map_ok.mp h
    obtain ⟨-, rfl⟩ := addFunctionRef_ok.mp h1
    simp [addedAdts, addedFunctions]
  | report m =>
    obtain ⟨u, h1, rfl⟩ := Run.map_ok.mp h
    obtain rfl := report_ok.mp h1
    simp [addedAdts, addedFunctions]
  | freshId name =>
    obtain ⟨i, h1, rfl⟩ := Run.map_ok.mp h
    obtain ⟨-, rfl⟩ := freshIdWithPath_ok.mp h1
    exact ⟨(List.append_nil _).symm, (List.append_nil _).symm⟩
  | registerDef d =>
    obtain ⟨i, h1, rfl⟩ := Run.map_ok.mp h
    obtain ⟨-, -, rfl⟩ := registerDef_ok.mp h1
    exact ⟨(List.append_nil _).symm, (List.append_nil _).symm⟩
  | getOrRegisterDef d =>
    obtain ⟨i, h1, rfl⟩ := Run.map_ok.mp h
    rcases getOrRegisterDef_ok.mp h1 with ⟨-, rfl⟩ | ⟨-, -, rfl⟩ <;>
      exact ⟨(List.append_nil _).symm, (List.append_nil _).symm⟩
  | registerHir h' name =>
    obtain ⟨i, h1, rfl⟩ := Run.map_ok.mp h
    obtain ⟨-, -, rfl⟩ := registerHir_ok.mp h1
    exact ⟨(List.append_nil _).symm, (List.append_nil _).symm⟩

theorem runOps_added : ∀ (ops : List IdOp) {trace : List Event} {s s' : Extraction},
    runOps tcx ops s = .ok (trace, s') →
    s'.adts.values = s.adts.values ++ addedAdts ops ∧
      s'.functions.values = s.functions.values ++ addedFunctions ops
  | [], trace, s, s', h => by
    obtain ⟨-, rfl⟩ := Run.pure_ok.mp h
    simp [addedAdts, addedFunctions]
  | op :: ops, trace, s, s', h => by
    simp only [runOps] at h
    obtain ⟨id, s₁, h1, h⟩ := Run.bind_ok.mp h
    obtain ⟨rest, s₂, h2, h⟩ := Run.bind_ok.mp h
    obtain ⟨-, rfl⟩ := Run.pure_ok.mp h
    obtain ⟨ha, hf⟩ := runOp_added h1
    obtain ⟨ha', hf'⟩ := runOps_added ops h2
    have hca : addedAdts ([op] ++ ops) = addedAdts [op] ++ addedAdts ops :=
      List.filterMap_append
    have hcf : addedFunctions ([op] ++ ops) = addedFunctions [op] ++ addedFunctions ops :=
      List.filterMap_append
    rw [List.singleton_append] at hca hcf
    rw [ha', ha, hf', hf, hca, hcf, List.append_assoc, List.append_assoc]
    exact ⟨rfl, rfl⟩

/-- The values of a map that is keyed by the ids have their keys apart. -/
theorem keyed_values_nodup {D : Type} {key : D → Int} {m : Assoc Int D}
    (h : m.keys.Nodup ∧ ∀ k x, (k, x) ∈ m → k = key x) : (m.values.map key).Nodup := by
  have hkeys : m.values.map key = m.keys := by
    unfold Assoc.values Assoc.keys
    rw [List.map_map]
    exact List.map_congr_left fun e he => (h.2 e.1 e.2 he).symm
  rw [hkeys]
  exact h.1

/-- A table of the values of a map that is keyed by the ids has them all, in any order. -/
theorem values_ofList_perm {D : Type} {key : D → Int} {m : Assoc Int D} {defs : List D}
    (h : m.keys.Nodup ∧ ∀ k x, (k, x) ∈ m → k = key x) (hp : defs.Perm m.values) :
    (Table.ofList defs : Table key).values.Perm m.values := by
  have hnd : (defs.map key).Nodup := by
    rw [(hp.map key).nodup_iff]
    exact keyed_values_nodup h
  rw [Table.values_ofList hnd]
  exact hp

end Stainless
