import RustStainless.Data.Decodable
import RustStainless.Extraction.IdRunsKrate

/-!
# Encodings of identifiers

The encoding of an identifier leaves out its name. It can, because every route that hands out an
identifier puts the name at the end of its path.
-/

namespace Stainless

open Rustc St Lib Extraction

variable {tcx : Tcx}

/-- The name is the last element of the path. -/
def Named (i : SymbolIdentifier) : Prop := i.symbolPath.getLast? = some i.id.name

/-! ## Each route names its identifiers -/

theorem symbolPathFromDefId_ne_nil (tcx : Tcx) (d : DefId) : symbolPathFromDefId tcx d ≠ [] := by
  unfold symbolPathFromDefId
  rw [Ne, List.map_eq_nil_iff]
  exact Rust.splitPath_ne_nil _

/-- The rewrite of a numeric name is made in the path, too. -/
theorem symbolNameAndPath_getLast? {path : List String} (h : path ≠ []) :
    (symbolNameAndPath path).2.getLast? = some (symbolNameAndPath path).1 := by
  unfold symbolNameAndPath
  dsimp only
  split
  · simp
  · rw [List.getLast?_eq_some_getLast h]
    rfl

theorem named_nextId {s : Extraction} {name : String} {path : List String}
    (h : path.getLast? = some name) : Named (s.nextId name path) := h

theorem named_of_didId {s : Extraction} (hids : IdsOk tcx s) {d : DefId} {id : SymbolIdentifier}
    (hd : s.didId d = some id) : Named id := by
  obtain ⟨hname, hpath⟩ := Prod.mk.inj (hids.did_path d id hd)
  show id.symbolPath.getLast? = some id.id.name
  rw [hname, hpath]
  exact symbolNameAndPath_getLast? (symbolPathFromDefId_ne_nil tcx d)

/-- Whatever an operation hands out is named by its path. -/
theorem OpStep.named {s s' : Extraction} {op : IdOp} {id : Option SymbolIdentifier}
    (hids : IdsOk tcx s) (h : OpStep tcx s op id s') : ∀ i ∈ id, Named i := by
  intro i hi
  cases h with
  | fresh name =>
    obtain rfl := Option.some.inj hi
    exact named_nextId rfl
  | @define op d hop hd =>
    obtain rfl := Option.some.inj hi
    exact named_nextId (symbolNameAndPath_getLast? (symbolPathFromDefId_ne_nil tcx d))
  | known hop hd =>
    obtain rfl := Option.some.inj hi
    exact named_of_didId hids hd
  | hir h name hh =>
    obtain rfl := Option.some.inj hi
    exact named_nextId (by simp)
  | other h => simp at hi

theorem runOps_named : ∀ (ops : List IdOp) {trace new : List Event} {s s' : Extraction},
    TraceOk tcx trace s → runOps tcx ops s = .ok (new, s') → ∀ e ∈ new, Named e.id
  | [], trace, new, s, s', _, h, e, he => by
    obtain ⟨rfl, -⟩ := Run.pure_ok.mp h
    simp at he
  | op :: ops, trace, new, s, s', hok, h, e, he => by
    simp only [runOps] at h
    obtain ⟨id, s₁, h1, h⟩ := Run.bind_ok.mp h
    obtain ⟨rest, s₂, h2, h⟩ := Run.bind_ok.mp h
    obtain ⟨rfl, rfl⟩ := Run.pure_ok.mp h
    have hstep := runOp_step h1
    rcases List.mem_append.mp he with he | he
    · obtain ⟨i, hi, rfl⟩ := List.mem_map.mp he
      exact hstep.named hok.ids i (Option.mem_toList.mp hi)
    · exact runOps_named ops (hok.step hstep) h2 e he

/-! ## Encodings tell identifiers apart -/

theorem eq_of_unnamed {i j : SymbolIdentifier} (hi : Named i) (hj : Named j)
    (h : i.unnamed = j.unnamed) : i = j := by
  obtain ⟨⟨name, globalId, id⟩, path⟩ := i
  obtain ⟨⟨name', globalId', id'⟩, path'⟩ := j
  simp only [SymbolIdentifier.unnamed, SymbolIdentifier.mk.injEq, Identifier.mk.injEq,
    true_and] at h
  obtain ⟨⟨rfl, rfl⟩, rfl⟩ := h
  have hname : some name = some name' := hi.symm.trans hj
  rw [Option.some.inj hname]

/-- **Encoded identifiers lose no information**: in every run the name of an identifier ends its
path, and two identifiers of any runs with one encoding are the same. -/
theorem ids_encoded {ops : List IdOp} {trace : List Event} {s : Extraction}
    (h : runOps tcx ops .new = .ok (trace, s)) :
    (∀ e ∈ trace, Named e.id) ∧
      ∀ (tcx' : Tcx) (ops' : List IdOp) (trace' : List Event) (s' : Extraction),
        runOps tcx' ops' .new = .ok (trace', s') → ∀ e ∈ trace, ∀ e' ∈ trace',
        e.id.toTree.All Tree.InType → e'.id.toTree.All Tree.InType →
        ∀ encoding, e.id.serialize [] = .ok ((), encoding) →
        e'.id.serialize [] = .ok ((), encoding) → e.id = e'.id := by
  have hnamed := runOps_named ops (.new tcx) h
  refine ⟨hnamed, ?_⟩
  intro tcx' ops' trace' s' h' e he e' he' hfits hfits' encoding henc henc'
  have hnamed' := runOps_named ops' (.new tcx') h'
  have hdecodable : UniquelyDecodable SymbolIdentifier.serialize
      (fun i => i.toTree.All Tree.InType) SymbolIdentifier.unnamed :=
    .of_toTree SymbolIdentifier.serialize_eq SymbolIdentifier.toTree_shaped
      (view_of_toTree SymbolIdentifier.ofTree_toTree)
  obtain ⟨-, hview⟩ := hdecodable e.id e'.id encoding encoding [] [] hfits hfits' henc henc' rfl
  exact eq_of_unnamed (hnamed e he) (hnamed' e' he') hview

/-- The identifier that a definition of the path `0` gets first. -/
def numericId : SymbolIdentifier where
  id := { name := "_0", globalId := 0, id := 0 }
  symbolPath := ["_0"]

theorem numericId_inType : numericId.toTree.All Tree.InType := by
  have hname : stringTree "_0" = .string [95, 48] := rfl
  simp [SymbolIdentifier.toTree, numericId, hname, Tree.All, Tree.AllOf, Tree.InType]

/-- A numeric definition gets the encoding of a fresh identifier of its new name in another run. -/
theorem ids_encoded_numeric :
    ∃ trace s trace' s',
      runOps { Tcx.empty with defPathStr := fun _ => "0" } [.registerDef ⟨0, 7⟩, .freshId "x"]
        .new = .ok (trace, s) ∧
      runOps Tcx.empty [.freshId "_0"] .new = .ok (trace', s') ∧
      (∀ e ∈ trace, Named e.id) ∧
      ∃ e ∈ trace, ∃ e' ∈ trace', ∃ encoding, e.id.serialize [] = .ok ((), encoding) ∧
        e'.id.serialize [] = .ok ((), encoding) ∧ e.id = e'.id := by
  obtain ⟨trace, s, h, e, he, hid⟩ :
      ∃ trace s, runOps { Tcx.empty with defPathStr := fun _ => "0" }
        [.registerDef ⟨0, 7⟩, .freshId "x"] .new = .ok (trace, s) ∧
        ∃ e ∈ trace, e.id = numericId := ⟨_, _, rfl, _, List.mem_cons_self, rfl⟩
  obtain ⟨trace', s', h', e', he', hid'⟩ :
      ∃ trace s, runOps Tcx.empty [.freshId "_0"] .new = .ok (trace, s) ∧
        ∃ e ∈ trace, e.id = numericId := ⟨_, _, rfl, _, List.mem_cons_self, rfl⟩
  obtain ⟨encoding, henc⟩ : ∃ encoding, numericId.serialize [] = .ok ((), encoding) := ⟨_, rfl⟩
  have hfits : e.id.toTree.All Tree.InType := hid ▸ numericId_inType
  have hfits' : e'.id.toTree.All Tree.InType := hid' ▸ numericId_inType
  have hencodes : e.id.serialize [] = .ok ((), encoding) := hid ▸ henc
  have hencodes' : e'.id.serialize [] = .ok ((), encoding) := hid' ▸ henc
  obtain ⟨hnamed, hunique⟩ := ids_encoded h
  exact ⟨trace, s, trace', s', h, h', hnamed, e, he, e', he', encoding, hencodes, hencodes',
    hunique _ _ _ _ h' e he e' he' hfits hfits' encoding hencodes hencodes'⟩

end Stainless
