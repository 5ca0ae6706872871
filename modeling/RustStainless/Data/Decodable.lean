import RustStainless.Rust.BigInt
import RustStainless.Data.OfTree

/-!
# The serialized form is uniquely decodable

Two terms of one sort whose serialized forms start the same stream are the same up to the names of
identifiers, and leave the same rest.
-/

namespace St

open Lib

/-! ## Shapes are shapes -/

section

-- Each node of a shape has the fields of its kind; what is left are the shapes of the fields.
attribute [local simp] Tree.All Tree.AllOf Tree.Shaped NodeKind.arity

theorem stringTree_shaped (v : String) : (stringTree v).All Tree.Shaped := by simp [stringTree]

theorem allOf_map {α : Type} {p : Tree → Prop} {toTree : α → Tree} (vs : List α)
    (h : ∀ v ∈ vs, (toTree v).All p) : Tree.AllOf p (vs.map toTree) := by
  rw [Tree.allOf_iff]
  intro t ht
  obtain ⟨v, hv, rfl⟩ := List.mem_map.mp ht
  exact h v hv

theorem SymbolIdentifier.toTree_shaped (i : SymbolIdentifier) : i.toTree.All Tree.Shaped := by
  have hpath := allOf_map i.symbolPath fun v _ => stringTree_shaped v
  simp [toTree, hpath]

theorem Identifier.toTree_shaped (i : Identifier) : i.toTree.All Tree.Shaped := by
  simp [toTree, stringTree]

theorem Flag.toTree_shaped (flag : Flag) : flag.toTree.All Tree.Shaped := by simp [toTree]

theorem flagsTree_shaped (flags : List Flag) : (flagsTree flags).All Tree.Shaped := by
  have hflags := allOf_map flags fun flag _ => flag.toTree_shaped
  simp [flagsTree, hflags]

mutual

theorem Tpe.toTree_shaped : ∀ t : Tpe, t.toTree.All Tree.Shaped
  | .untyped | .booleanType | .unitType | .integerType | .stringType | .bvType _ _ => by
    simp [toTree]
  | .typeParameter id flags => by simp [toTree, id.toTree_shaped, flagsTree_shaped flags]
  | .tupleType bases => by simp [toTree, Tpe.toTrees_shaped bases]
  | .setType base => by simp [toTree, Tpe.toTree_shaped base]
  | .functionType params result => by
    simp [toTree, Tpe.toTrees_shaped params, Tpe.toTree_shaped result]
  | .adtType id tps => by simp [toTree, id.toTree_shaped, Tpe.toTrees_shaped tps]

theorem Tpe.toTrees_shaped : ∀ ts : List Tpe, Tree.AllOf Tree.Shaped (toTrees ts)
  | [] => trivial
  | t :: ts => ⟨Tpe.toTree_shaped t, Tpe.toTrees_shaped ts⟩

end

theorem TypeParameterDef.toTree_shaped (tpd : TypeParameterDef) : tpd.toTree.All Tree.Shaped := by
  simp [toTree, tpd.tp.id.toTree_shaped, flagsTree_shaped]

theorem Variable.toTree_shaped (v : Variable) : v.toTree.All Tree.Shaped := by
  simp [toTree, v.id.toTree_shaped, v.tpe.toTree_shaped, flagsTree_shaped]

theorem ValDef.toTree_shaped (vd : ValDef) : vd.toTree.All Tree.Shaped := by
  simp [toTree, vd.v.toTree_shaped]

theorem binderTree_shaped (binder : Option ValDef) : (binderTree binder).All Tree.Shaped := by
  cases binder with
  | none => simp [binderTree, optionTree]
  | some vd => simp [binderTree, optionTree, vd.toTree_shaped]

variable (toSignedBytesBe : Int → List UInt8)

theorem Literal.toTree_shaped (lit : Literal) : (lit.toTree toSignedBytesBe).All Tree.Shaped := by
  cases lit <;> simp [toTree, stringTree]

mutual

theorem Pattern.toTree_shaped : ∀ p : Pattern, (p.toTree toSignedBytesBe).All Tree.Shaped
  | .wildcard binder => by simp [toTree, binderTree_shaped]
  | .literal binder lit => by simp [toTree, binderTree_shaped, lit.toTree_shaped]
  | .tuple binder subPatterns => by
    simp [toTree, binderTree_shaped, Pattern.toTrees_shaped subPatterns]
  | .adt binder id tps subPatterns => by
    simp [toTree, binderTree_shaped, id.toTree_shaped, Tpe.toTrees_shaped,
      Pattern.toTrees_shaped subPatterns]

theorem Pattern.toTrees_shaped : ∀ ps : List Pattern,
    Tree.AllOf Tree.Shaped (toTrees toSignedBytesBe ps)
  | [] => trivial
  | p :: ps => ⟨Pattern.toTree_shaped p, Pattern.toTrees_shaped ps⟩

end

mutual

theorem Expr.toTree_shaped : ∀ e : Expr, (Expr.toTree toSignedBytesBe e).All Tree.Shaped
  | .variable v => by simp [Expr.toTree, v.toTree_shaped]
  | .literal lit => by simp [Expr.toTree, lit.toTree_shaped]
  | .unary op arg => by simp [Expr.toTree, Expr.toTree_shaped arg]
  | .binary op lhs rhs => by simp [Expr.toTree, Expr.toTree_shaped lhs, Expr.toTree_shaped rhs]
  | .bvWideningCast expr newType => by
    simp [Expr.toTree, Expr.toTree_shaped expr, newType.toTree_shaped]
  | .and exprs | .or exprs | .tuple exprs => by simp [Expr.toTree, Expr.toTrees_shaped exprs]
  | .tupleSelect expr index => by simp [Expr.toTree, Expr.toTree_shaped expr]
  | .adtSelector expr selector => by
    simp [Expr.toTree, Expr.toTree_shaped expr, selector.toTree_shaped]
  | .adt id tps args | .functionInvocation id tps args => by
    simp [Expr.toTree, id.toTree_shaped, Tpe.toTrees_shaped, Expr.toTrees_shaped args]
  | .finiteSet elements base => by
    simp [Expr.toTree, Expr.toTrees_shaped elements, base.toTree_shaped]
  | .letIn vd value body => by
    simp [Expr.toTree, vd.toTree_shaped, Expr.toTree_shaped value, Expr.toTree_shaped body]
  | .block exprs last => by
    simp [Expr.toTree, Expr.toTrees_shaped exprs, Expr.toTree_shaped last]
  | .ifExpr cond thenn elze => by
    simp [Expr.toTree, Expr.toTree_shaped cond, Expr.toTree_shaped thenn,
      Expr.toTree_shaped elze]
  | .matchExpr scrutinee cases => by
    simp [Expr.toTree, Expr.toTree_shaped scrutinee, Expr.caseTrees_shaped cases]
  | .error tpe description => by
    simp [Expr.toTree, tpe.toTree_shaped, stringTree_shaped description]
  | .noTree tpe => by simp [Expr.toTree, tpe.toTree_shaped]
  | .decreases measure body => by
    simp [Expr.toTree, Expr.toTree_shaped measure, Expr.toTree_shaped body]
  | .require pred body => by
    simp [Expr.toTree, Expr.toTree_shaped pred, Expr.toTree_shaped body]
  | .ensuring body params pred => by
    have hparams := allOf_map params fun vd _ => vd.toTree_shaped
    simp [Expr.toTree, Expr.toTree_shaped body, hparams, Expr.toTree_shaped pred]

theorem Expr.toTrees_shaped : ∀ es : List Expr,
    Tree.AllOf Tree.Shaped (Expr.toTrees toSignedBytesBe es)
  | [] => trivial
  | e :: es => ⟨Expr.toTree_shaped e, Expr.toTrees_shaped es⟩

theorem MatchCase.toTree_shaped : ∀ c : MatchCase, (c.toTree toSignedBytesBe).All Tree.Shaped
  | .mk pattern optGuard rhs => by
    simp [MatchCase.toTree, pattern.toTree_shaped, Expr.optTree_shaped optGuard,
      Expr.toTree_shaped rhs]

theorem Expr.caseTrees_shaped : ∀ cs : List MatchCase,
    Tree.AllOf Tree.Shaped (Expr.caseTrees toSignedBytesBe cs)
  | [] => trivial
  | c :: cs => ⟨MatchCase.toTree_shaped c, Expr.caseTrees_shaped cs⟩

theorem Expr.optTree_shaped : ∀ e : Option Expr, (Expr.optTree toSignedBytesBe e).All Tree.Shaped
  | none => by simp [Expr.optTree]
  | some e => by simp [Expr.optTree, Expr.toTree_shaped e]

end

theorem ADTConstructor.toTree_shaped (c : ADTConstructor) : c.toTree.All Tree.Shaped := by
  have hfields := allOf_map c.fields fun vd _ => vd.toTree_shaped
  simp [toTree, c.id.toTree_shaped, c.sort.toTree_shaped, hfields]

theorem ADTSort.toTree_shaped (sort : ADTSort) : sort.toTree.All Tree.Shaped := by
  have htparams := allOf_map sort.tparams fun tpd _ => tpd.toTree_shaped
  have hcons := allOf_map sort.constructors fun c _ => c.toTree_shaped
  simp [toTree, sort.id.toTree_shaped, htparams, hcons, flagsTree_shaped]

theorem FunDef.toTree_shaped (fd : FunDef) : (fd.toTree toSignedBytesBe).All Tree.Shaped := by
  have htparams := allOf_map fd.tparams fun tpd _ => tpd.toTree_shaped
  have hparams := allOf_map fd.params fun vd _ => vd.toTree_shaped
  simp [toTree, fd.id.toTree_shaped, htparams, hparams, fd.returnType.toTree_shaped,
    fd.fullBody.toTree_shaped, flagsTree_shaped]

theorem Symbols.innerTree_shaped (x : Symbols) :
    (x.innerTree toSignedBytesBe).All Tree.Shaped := by
  have hfuns := allOf_map x.sortedFunctions fun fd _ => fd.toTree_shaped toSignedBytesBe
  have hsorts := allOf_map x.sortedSorts fun sort _ => sort.toTree_shaped
  simp [innerTree, hfuns, hsorts]

end

/-! ## Unique decodability -/

/--
Two values that fit and whose serialized forms start the same stream have the same view and leave
the same rest.
-/
def UniquelyDecodable {α β : Type} (serialize : α → Ser) (Fits : α → Prop) (view : α → β) : Prop :=
  ∀ x y bx bx' r s, Fits x → Fits y → serialize x [] = .ok ((), bx) →
    serialize y [] = .ok ((), bx') → bx ++ r = bx' ++ s → r = s ∧ view x = view y

mutual

theorem Tree.All.and {p q : Tree → Prop} : ∀ {t : Tree}, t.All p → t.All q →
    t.All fun t => p t ∧ q t
  | .boolean _, hp, hq | .int _, hp, hq | .string _, hp, hq | .bigInt _, hp, hq
  | .none, hp, hq => ⟨hp, hq⟩
  | .some _, hp, hq => ⟨⟨hp.1, hq.1⟩, Tree.All.and hp.2 hq.2⟩
  | .seq _, hp, hq => ⟨⟨hp.1, hq.1⟩, Tree.AllOf.and hp.2 hq.2⟩
  | .tuple _, hp, hq => ⟨⟨hp.1, hq.1⟩, Tree.AllOf.and hp.2 hq.2⟩
  | .node _ _, hp, hq => ⟨⟨hp.1, hq.1⟩, Tree.AllOf.and hp.2 hq.2⟩

theorem Tree.AllOf.and {p q : Tree → Prop} : ∀ {ts : List Tree}, Tree.AllOf p ts →
    Tree.AllOf q ts → Tree.AllOf (fun t => p t ∧ q t) ts
  | [], _, _ => trivial
  | _ :: _, hp, hq => ⟨Tree.All.and hp.1 hq.1, Tree.AllOf.and hp.2 hq.2⟩

end

/-- A tree that is written without a failed assertion is good, if its values are in their types. -/
theorem Tree.good_of_write {t : Tree} {b : List UInt8} (htype : t.All InType)
    (hshape : t.All Shaped) (h : t.write [] = .ok ((), b)) : t.All Good ∧ b = t.bytes := by
  obtain ⟨hassert, hb⟩ := (t.writes [] () b).mp h
  exact ⟨htype.and (hassert.and hshape), by simpa using hb⟩

/-- Serializing to a shape that tells the view is uniquely decodable. -/
theorem UniquelyDecodable.of_toTree {α β : Type} {serialize : α → Ser} {toTree : α → Tree}
    {view : α → β} (hser : ∀ x, serialize x = (toTree x).write)
    (hshape : ∀ x, (toTree x).All Tree.Shaped)
    (hview : ∀ x y, toTree x = toTree y → view x = view y) :
    UniquelyDecodable serialize (fun x => (toTree x).All Tree.InType) view := by
  intro x y bx bx' r s hx hy hsx hsy h
  rw [hser] at hsx hsy
  obtain ⟨hgood, rfl⟩ := Tree.good_of_write hx (hshape x) hsx
  obtain ⟨hgood', rfl⟩ := Tree.good_of_write hy (hshape y) hsy
  obtain ⟨htree, hrs⟩ := (toTree x).splits hgood (toTree y) r s hgood' h
  exact ⟨hrs, hview x y htree⟩

/-- A shape that is read back tells what is read. -/
theorem view_of_toTree {α β : Type} {toTree : α → Tree} {ofTree : Tree → Option β} {view : α → β}
    (h : ∀ x, ofTree (toTree x) = some (view x)) (x y : α) (hxy : toTree x = toTree y) :
    view x = view y := by
  have hx := h x
  rw [hxy, h y] at hx
  exact (Option.some.inj hx).symm

theorem map_view_of_toTree {α β : Type} {toTree : α → Tree} {view : α → β}
    (h : ∀ x y, toTree x = toTree y → view x = view y) : ∀ {xs ys : List α},
    xs.map toTree = ys.map toTree → xs.map view = ys.map view
  | [], [], _ => rfl
  | [], y :: ys, hxy => by simp at hxy
  | x :: xs, [], hxy => by simp at hxy
  | x :: xs, y :: ys, hxy => by
    obtain ⟨hhead, htail⟩ := List.cons.inj hxy
    rw [List.map_cons, List.map_cons, h x y hhead, map_view_of_toTree h htail]

theorem flags_of_tree {fs gs : List Flag} (h : flagsTree fs = flagsTree gs) : fs = gs := by
  have hread : ∀ f : Flag, Flag.ofTree f.toTree = some f := fun _ => rfl
  have hmap := map_view_of_toTree (view_of_toTree hread) (Tree.seq.inj h)
  simpa using hmap

theorem valDefs_of_tree {xs ys : List ValDef} (h : xs.map ValDef.toTree = ys.map ValDef.toTree) :
    xs.map ValDef.unnamed = ys.map ValDef.unnamed :=
  map_view_of_toTree (view_of_toTree ValDef.ofTree_toTree) h

theorem tparams_of_tree {xs ys : List TypeParameterDef}
    (h : xs.map TypeParameterDef.toTree = ys.map TypeParameterDef.toTree) :
    xs.map TypeParameterDef.unnamed = ys.map TypeParameterDef.unnamed :=
  map_view_of_toTree (view_of_toTree TypeParameterDef.ofTree_toTree) h

theorem id_of_tree {i j : SymbolIdentifier} (h : i.toTree = j.toTree) : i.unnamed = j.unnamed :=
  view_of_toTree SymbolIdentifier.ofTree_toTree i j h

theorem ADTConstructor.unnamed_of_tree {c c' : ADTConstructor} (h : c.toTree = c'.toTree) :
    c.unnamed = c'.unnamed := by
  simp only [toTree, Tree.node.injEq, List.cons.injEq, Tree.seq.injEq, and_true, true_and] at h
  obtain ⟨hid, hsort, hfields⟩ := h
  rw [unnamed, unnamed, id_of_tree hid, id_of_tree hsort, valDefs_of_tree hfields]

theorem ADTSort.unnamed_of_tree {x y : ADTSort} (h : x.toTree = y.toTree) :
    x.unnamed = y.unnamed := by
  simp only [toTree, Tree.node.injEq, List.cons.injEq, Tree.seq.injEq, and_true, true_and] at h
  obtain ⟨hid, htparams, hcons, hflags⟩ := h
  have hconstructors := map_view_of_toTree (fun _ _ hc => ADTConstructor.unnamed_of_tree hc) hcons
  rw [unnamed, unnamed, id_of_tree hid, tparams_of_tree htparams, hconstructors,
    flags_of_tree hflags]

section

variable {toSignedBytesBe : Int → List UInt8} (hinj : Function.Injective toSignedBytesBe)

include hinj

theorem FunDef.unnamed_of_tree {x y : FunDef}
    (h : x.toTree toSignedBytesBe = y.toTree toSignedBytesBe) : x.unnamed = y.unnamed := by
  simp only [toTree, Tree.node.injEq, List.cons.injEq, Tree.seq.injEq, and_true, true_and] at h
  obtain ⟨hid, htparams, hparams, hret, hbody, hflags⟩ := h
  have hreturn := view_of_toTree Tpe.ofTree_toTree _ _ hret
  have hfull := view_of_toTree (Expr.ofTree_toTree hinj) _ _ hbody
  rw [unnamed, unnamed, id_of_tree hid, tparams_of_tree htparams, valDefs_of_tree hparams, hreturn,
    hfull, flags_of_tree hflags]

end

/-! ## Symbols -/

/-- The two maps of the symbols: what is found for an id. -/
def Symbols.maps (x : Symbols) (k : Int) : Option ADTSort × Option FunDef :=
  ((x.sorts.get? k).map ADTSort.unnamed, (x.functions.get? k).map FunDef.unnamed)

theorem mem_sortById {D : Type} {key : D → Int} {defs : List D} {d : D} :
    d ∈ sortById key defs ↔ d ∈ defs := (List.mergeSort_perm defs _).mem_iff

/-- Two tables with the same sorted values, up to what `view` forgets, have the same entries. -/
theorem Table.map_get?_le {D : Type} {key : D → Int} {view : D → D}
    (hkey : ∀ d, key (view d) = key d)
    {t u : Table key}
    (h : (sortById key t.values).map view = (sortById key u.values).map view) {k : Int} {d : D}
    (hd : t.get? k = some d) : ∃ d', u.get? k = some d' ∧ view d' = view d := by
  obtain ⟨hmem, hk⟩ := Table.get?_eq_some_iff.mp hd
  have hview : view d ∈ (sortById key u.values).map view := by
    rw [← h]
    exact List.mem_map_of_mem (mem_sortById.mpr hmem)
  obtain ⟨d', hd', heq⟩ := List.mem_map.mp hview
  refine ⟨d', Table.get?_eq_some_iff.mpr ⟨mem_sortById.mp hd', ?_⟩, heq⟩
  rw [← hkey d', heq, hkey d, hk]

theorem Table.map_get?_eq {D : Type} {key : D → Int} {view : D → D}
    (hkey : ∀ d, key (view d) = key d)
    {t u : Table key}
    (h : (sortById key t.values).map view = (sortById key u.values).map view) (k : Int) :
    (t.get? k).map view = (u.get? k).map view := by
  cases ht : t.get? k with
  | some d =>
    obtain ⟨d', hu, heq⟩ := Table.map_get?_le hkey h ht
    rw [hu, Option.map_some, Option.map_some, heq]
  | none =>
    cases hu : u.get? k with
    | none => rfl
    | some d' =>
      obtain ⟨d, ht', -⟩ := Table.map_get?_le hkey h.symm hu
      rw [ht] at ht'
      simp at ht'

section

variable (toSignedBytesBe : Int → List UInt8)

/-- Symbols of values in their types, with an inner buffer of fewer than `2 ^ 31` bytes. -/
def Symbols.Fits (x : Symbols) : Prop :=
  (x.innerTree toSignedBytesBe).All Tree.InType ∧
    ∀ buffer, x.serializeInner toSignedBytesBe [] = .ok ((), buffer) → buffer.length < 2 ^ 31

theorem Symbols.serialize_ok {x : Symbols} {b : List UInt8}
    (h : x.serialize toSignedBytesBe [] = .ok ((), b)) :
    ∃ buffer, x.serializeInner toSignedBytesBe [] = .ok ((), buffer) ∧
      b = 7 :: 5 :: 4 :: (beBytes 4 ((buffer.length : Int) % 2 ^ 32).toNat ++ buffer) := by
  unfold Symbols.serialize at h
  cases hinner : x.serializeInner toSignedBytesBe [] with
  | error p =>
    rw [hinner] at h
    simp at h
  | ok r =>
    obtain ⟨u, buffer⟩ := r
    rw [hinner] at h
    refine ⟨buffer, rfl, ?_⟩
    simpa [bufferHeader] using ((writes_buffer buffer [] () b).mp h).2

variable {toSignedBytesBe} (hinj : Function.Injective toSignedBytesBe)

include hinj

theorem Symbols.uniquelyDecodable : UniquelyDecodable (Symbols.serialize toSignedBytesBe)
    (Symbols.Fits toSignedBytesBe) Symbols.maps := by
  intro x y bx bx' r s hx hy hsx hsy h
  obtain ⟨buffer, hinner, rfl⟩ := Symbols.serialize_ok toSignedBytesBe hsx
  obtain ⟨buffer', hinner', rfl⟩ := Symbols.serialize_ok toSignedBytesBe hsy
  have hlen := hx.2 buffer hinner
  have hlen' := hy.2 buffer' hinner'
  -- The frame of the inner buffer.
  have hframe : ∀ n : Nat, n < 2 ^ 31 → ((n : Int) % 2 ^ 32).toNat = n := by omega
  rw [hframe _ hlen, hframe _ hlen'] at h
  simp only [List.cons_append, List.cons.injEq, true_and] at h
  obtain ⟨rfl, hrs⟩ := framed_splits (by omega) (by omega) h
  refine ⟨hrs, ?_⟩
  rw [Symbols.serializeInner_eq] at hinner hinner'
  obtain ⟨hgood, hbytes⟩ := Tree.good_of_write hx.1 (x.innerTree_shaped _) hinner
  obtain ⟨hgood', hbytes'⟩ := Tree.good_of_write hy.1 (y.innerTree_shaped _) hinner'
  obtain ⟨htree, -⟩ := (x.innerTree toSignedBytesBe).splits hgood _ [] [] hgood'
    (by rw [← hbytes, ← hbytes'])
  simp only [Symbols.innerTree, Tree.tuple.injEq, List.cons.injEq, Tree.seq.injEq, and_true]
    at htree
  have hfuns := map_view_of_toTree (fun _ _ hf => FunDef.unnamed_of_tree hinj hf) htree.1
  have hsorts := map_view_of_toTree (fun _ _ hs => ADTSort.unnamed_of_tree hs) htree.2
  have hsortKey : ∀ sort : ADTSort, sort.unnamed.id.globalId = sort.id.globalId := fun _ => rfl
  have hfunKey : ∀ fd : FunDef, fd.unnamed.id.globalId = fd.id.globalId := fun _ => rfl
  funext k
  exact Prod.ext (Table.map_get?_eq hsortKey hsorts k) (Table.map_get?_eq hfunKey hfuns k)

/-- **The serialized form is uniquely decodable**, for each sort of terms. -/
theorem serialize_uniquelyDecodable :
    UniquelyDecodable Identifier.serialize (fun i => i.toTree.All Tree.InType) id ∧
    UniquelyDecodable SymbolIdentifier.serialize (fun i => i.toTree.All Tree.InType)
      SymbolIdentifier.unnamed ∧
    UniquelyDecodable Flag.serialize (fun flag => flag.toTree.All Tree.InType) id ∧
    UniquelyDecodable Tpe.serialize (fun t => t.toTree.All Tree.InType) Tpe.unnamed ∧
    UniquelyDecodable (Pattern.serialize toSignedBytesBe)
      (fun p => (p.toTree toSignedBytesBe).All Tree.InType) Pattern.unnamed ∧
    UniquelyDecodable (Expr.serialize toSignedBytesBe)
      (fun e => (e.toTree toSignedBytesBe).All Tree.InType) Expr.unnamed ∧
    UniquelyDecodable ADTSort.serialize (fun sort => sort.toTree.All Tree.InType)
      ADTSort.unnamed ∧
    UniquelyDecodable (FunDef.serialize toSignedBytesBe)
      (fun fd => (fd.toTree toSignedBytesBe).All Tree.InType) FunDef.unnamed ∧
    UniquelyDecodable (Symbols.serialize toSignedBytesBe) (Symbols.Fits toSignedBytesBe)
      Symbols.maps := by
  refine ⟨?_, ?_, ?_, ?_, ?_, ?_, ?_, ?_, Symbols.uniquelyDecodable hinj⟩
  · exact .of_toTree Identifier.serialize_eq Identifier.toTree_shaped
      (view_of_toTree Identifier.ofTree_toTree)
  · exact .of_toTree SymbolIdentifier.serialize_eq SymbolIdentifier.toTree_shaped
      (view_of_toTree SymbolIdentifier.ofTree_toTree)
  · have hread : ∀ f : Flag, Flag.ofTree f.toTree = some (id f) := fun _ => rfl
    exact .of_toTree Flag.serialize_eq Flag.toTree_shaped (view_of_toTree hread)
  · exact .of_toTree Tpe.serialize_eq Tpe.toTree_shaped (view_of_toTree Tpe.ofTree_toTree)
  · exact .of_toTree (Pattern.serialize_eq toSignedBytesBe) (Pattern.toTree_shaped toSignedBytesBe)
      (view_of_toTree (Pattern.ofTree_toTree hinj))
  · exact .of_toTree (Expr.serialize_eq toSignedBytesBe) (Expr.toTree_shaped toSignedBytesBe)
      (view_of_toTree (Expr.ofTree_toTree hinj))
  · exact .of_toTree ADTSort.serialize_eq ADTSort.toTree_shaped
      fun _ _ h => ADTSort.unnamed_of_tree h
  · exact .of_toTree (FunDef.serialize_eq toSignedBytesBe) (FunDef.toTree_shaped toSignedBytesBe)
      fun _ _ h => FunDef.unnamed_of_tree hinj h

end

/-- With the bytes that `num_bigint` gives, such as those of the literal 123. -/
theorem serialize_uniquelyDecodable_bigint :
    Expr.serialize Rust.toSignedBytesBe (.literal (.bv true 123 32)) [] =
      .ok ((), [20, 6, 3, 5, 0, 1, 5, 9, 0, 0, 0, 1, 123, 5, 4, 0, 0, 0, 32]) ∧
    UniquelyDecodable (Expr.serialize Rust.toSignedBytesBe)
      (fun e => (e.toTree Rust.toSignedBytesBe).All Tree.InType) Expr.unnamed ∧
    UniquelyDecodable (Symbols.serialize Rust.toSignedBytesBe) (Symbols.Fits Rust.toSignedBytesBe)
      Symbols.maps := by
  have hall := serialize_uniquelyDecodable Rust.toSignedBytesBe_injective
  refine ⟨?_, hall.2.2.2.2.2.1, hall.2.2.2.2.2.2.2.2⟩
  have hbytes : Rust.toSignedBytesBe 123 = [123] := by
    simp [Rust.toSignedBytesBe, Rust.toSignedBytesLe]
  rw [Expr.serialize, Literal.serialize, hbytes]
  rfl

end St
