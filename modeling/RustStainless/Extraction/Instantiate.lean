import RustStainless.Extraction.FnImage

/-!
# Type extraction commutes with instantiation

To extract an instance of a type gives the same as to extract the type and then to replace its
type parameters, as long as every ADT met has its id already. The cases of the proof are the shapes
that the extraction tells apart: boxes and references are erased, `BigInt` and sets are special, and
a tuple of one is unsupported.
-/

namespace Stainless

open Rustc St Lib Extraction

/-! ## Substitution -/

section

variable (s : Nat → Ty)

mutual

/-- rustc's `subst`: each type parameter is replaced by the type that `s` gives to its index. -/
def instTy : Ty → Ty
  | .adt did substs => .adt did (instTys substs)
  | .tuple tys => .tuple (instTys tys)
  | .ref ty m => .ref (instTy ty) m
  | .param index => s index
  | .fnDef did substs => .fnDef did (instTys substs)
  | .closure did substs => .closure did (instTys substs)
  | .bool => .bool
  | .char => .char
  | .str => .str
  | .never => .never
  | .int t => .int t
  | .uint t => .uint t
  | .other kind => .other kind

def instTys : List Ty → List Ty
  | [] => []
  | ty :: tys => instTy ty :: instTys tys

end

end

section

variable (σ : TypeParameter → Tpe)

mutual

/-- Each type parameter of a Stainless type is replaced. -/
def instTpe : Tpe → Tpe
  | .tupleType bases => .tupleType (instTpes bases)
  | .setType base => .setType (instTpe base)
  | .adtType id tps => .adtType id (instTpes tps)
  | .typeParameter id flags => σ { id := id, flags := flags }
  | .functionType params result => .functionType (instTpes params) (instTpe result)
  | .booleanType => .booleanType
  | .integerType => .integerType
  | .unitType => .unitType
  | .stringType => .stringType
  | .bvType signed size => .bvType signed size
  | .untyped => .untyped

def instTpes : List Tpe → List Tpe
  | [] => []
  | tpe :: tpes => instTpe tpe :: instTpes tpes

end

end

mutual

theorem instTpe_self : ∀ tpe : Tpe, instTpe (fun tp => .typeParameter tp.id tp.flags) tpe = tpe
  | .tupleType bases => by rw [instTpe, instTpes_self bases]
  | .setType base => by rw [instTpe, instTpe_self base]
  | .adtType id tps => by rw [instTpe, instTpes_self tps]
  | .functionType params result => by rw [instTpe, instTpes_self params, instTpe_self result]
  | .typeParameter _ _ | .booleanType | .integerType | .unitType | .stringType | .bvType _ _
  | .untyped => rfl

theorem instTpes_self : ∀ tpes : List Tpe,
    instTpes (fun tp => .typeParameter tp.id tp.flags) tpes = tpes
  | [] => rfl
  | tpe :: tpes => by rw [instTpes, instTpe_self tpe, instTpes_self tpes]

end

/-- What replaces a type parameter, when `args` has the arguments by index. -/
def tparamArg (txtcx : TyExtractionCtxt) (args : Nat → Tpe) (tp : TypeParameter) : Tpe :=
  match txtcx.indexToTparam.find? fun e => e.2 = .extracted tp with
  | some e => args e.1
  | none => .typeParameter tp.id tp.flags

/-- No two indices have the same type parameter. -/
def TparamsDistinct (txtcx : TyExtractionCtxt) : Prop :=
  ∀ e ∈ txtcx.indexToTparam, ∀ e' ∈ txtcx.indexToTparam, ∀ tp,
    e.2 = .extracted tp → e'.2 = .extracted tp → e.1 = e'.1

theorem tparamArg_eq {txtcx : TyExtractionCtxt} (hdist : TparamsDistinct txtcx) {i : Nat}
    {tp : TypeParameter} (h : txtcx.indexToTparam.get? i = some (.extracted tp))
    (args : Nat → Tpe) : tparamArg txtcx args tp = args i := by
  have hmem := Assoc.mem_of_get? h
  unfold tparamArg
  cases hf : txtcx.indexToTparam.find? fun e => e.2 = .extracted tp with
  | none =>
    have := List.find?_eq_none.mp hf _ hmem
    simp at this
  | some e =>
    have he : e.2 = .extracted tp := by simpa using List.find?_some hf
    have hi := hdist e (List.mem_of_find?_eq_some hf) _ hmem tp he rfl
    simp only [hi]

/-- The context of a definition has a type parameter of its own for each index. -/
theorem GenericsImage.distinct {tcx : Tcx} (hok : TcxOk tcx) {st : Extraction}
    (hids : IdsOk tcx st) {d : DefId} {txtcx : TyExtractionCtxt}
    (hcl : tcx.isClosure d = false) (h : GenericsImage tcx st.didId d txtcx) :
    TparamsDistinct txtcx := by
  obtain ⟨plain, hofs, hm, hplain, hhofs⟩ := h.entries
  have hfrom : ∀ e ∈ txtcx.indexToTparam, ∀ tp, e.2 = .extracted tp →
      ∃ p ∈ allGenericParamsOf tcx d, e.1 = p.index ∧ st.didId p.defId = some tp.id := by
    intro e he tp htp
    rw [hm, List.mem_append] at he
    rcases he with he | he
    · obtain ⟨p, hp, hidx, id, hid, heq⟩ := forall₂_mem_right hplain he
      rw [heq] at htp
      cases htp
      exact ⟨p, (List.mem_filter.mp hp).1, hidx, hid⟩
    · obtain ⟨f, -, -, tpes, returnTy, tpe, -, -, -, heq⟩ := forall₂_mem_right hhofs he
      rw [heq] at htp
      cases htp
  intro e he e' he' tp htp htp'
  obtain ⟨p, hp, hidx, hid⟩ := hfrom e he tp htp
  obtain ⟨p', hp', hidx', hid'⟩ := hfrom e' he' tp htp'
  have hdid : p.defId = p'.defId := hids.did_inj _ _ _ _ hid hid' rfl
  rw [hidx, hidx', List.inj_on_of_nodup_map (hok.tparam_inj d hcl) hp hp' hdid]

theorem extractGenerics_distinct {tcx : Tcx} (hok : TcxOk tcx) {d : DefId}
    (hcl : tcx.isClosure d = false) {st st' : Extraction} (hids : IdsOk tcx st)
    {tparams : List TypeParameterDef} {txtcx : TyExtractionCtxt}
    (h : extractGenerics tcx d st = .ok ((tparams, txtcx), st')) : TparamsDistinct txtcx :=
  have hgen := extractGenericsWith_ok hok (extractAdtId_spec hok) hcl h
  hgen.image.distinct hok (hgen.moves.ids hids) hcl

/-! ## What the extraction of a type tells apart -/

/-- The kinds of types that the extraction reports as a whole. -/
def isUnsupportedKind : Ty → Bool
  | .ref _ .mut | .char | .str | .never | .fnDef _ _ | .closure _ _ | .other _ => true
  | _ => false

/-- The types that the extraction gets to, with what it looks at in each. -/
inductive TyShape (tcx : Tcx) : Ty → Prop where
  | bool : TyShape tcx .bool
  | int (t : IntTy) : TyShape tcx (.int t)
  | uint (t : UintTy) : TyShape tcx (.uint t)
  | tuple {tys : List Ty} (parts : ∀ ty ∈ tys, TyShape tcx ty) : TyShape tcx (.tuple tys)
  | bigint {did : DefId} {substs : List Ty} (hb : tcx.isBigint did = true) :
    TyShape tcx (.adt did substs)
  | box {did : DefId} {ty : Ty} {rest : List Ty} (hb : tcx.isBigint did ≠ true)
    (hx : tcx.isBox did = true) (part : TyShape tcx ty) : TyShape tcx (.adt did (ty :: rest))
  | set {did : DefId} {ty : Ty} {rest : List Ty} (hb : tcx.isBigint did ≠ true)
    (hx : tcx.isBox did ≠ true) (hs : tcx.stdItems.defToItemOpt did = some .setType)
    (part : TyShape tcx ty) : TyShape tcx (.adt did (ty :: rest))
  | adt {did : DefId} {substs : List Ty} (hb : tcx.isBigint did ≠ true)
    (hx : tcx.isBox did ≠ true) (hs : tcx.stdItems.defToItemOpt did ≠ some .setType)
    (parts : ∀ ty ∈ substs, TyShape tcx ty) : TyShape tcx (.adt did substs)
  | ref {ty : Ty} (part : TyShape tcx ty) : TyShape tcx (.ref ty .not)
  | param (index : Nat) : TyShape tcx (.param index)
  | unsupported {ty : Ty} (h : isUnsupportedKind ty = true) : TyShape tcx ty

variable {tcx : Tcx}

mutual

theorem tyShape_of_applied : ∀ ty : Ty, TyApplied tcx ty → TyShape tcx ty
  | .bool, _ => .bool
  | .int t, _ => .int t
  | .uint t, _ => .uint t
  | .tuple tys, h => .tuple (tysShape_of_applied tys (by rwa [TyApplied] at h))
  | .adt did substs, h => by
    rw [TyApplied] at h
    by_cases hb : tcx.isBigint did = true
    · exact .bigint hb
    · rw [if_neg hb] at h
      by_cases hx : tcx.isBox did = true
      · rw [if_pos hx] at h
        obtain ⟨ty, rest, rfl, hty⟩ := tyShape_of_appliedAt0 substs h
        exact .box hb hx hty
      · rw [if_neg hx] at h
        by_cases hs : tcx.stdItems.defToItemOpt did = some .setType
        · rw [if_pos hs] at h
          obtain ⟨ty, rest, rfl, hty⟩ := tyShape_of_appliedAt0 substs h
          exact .set hb hx hs hty
        · rw [if_neg hs] at h
          exact .adt hb hx hs (tysShape_of_applied substs h)
  | .ref ty .not, h => .ref (tyShape_of_applied ty (by rwa [TyApplied] at h))
  | .param index, _ => .param index
  | .ref _ .mut, _ | .char, _ | .str, _ | .never, _ | .fnDef _ _, _ | .closure _ _, _
  | .other _, _ => .unsupported rfl

theorem tysShape_of_applied : ∀ tys : List Ty, TysApplied tcx tys → ∀ ty ∈ tys, TyShape tcx ty
  | [], _, _, hty => absurd hty List.not_mem_nil
  | ty :: tys, h, u, hu => by
    rw [TysApplied] at h
    rcases List.mem_cons.mp hu with heq | hu
    · rw [heq]
      exact tyShape_of_applied ty h.1
    · exact tysShape_of_applied tys h.2 u hu

theorem tyShape_of_appliedAt0 : ∀ tys : List Ty, TyAppliedAt0 tcx tys →
    ∃ ty rest, tys = ty :: rest ∧ TyShape tcx ty
  | [], h => absurd h (by simp [TyAppliedAt0])
  | ty :: rest, h => ⟨ty, rest, rfl, tyShape_of_applied ty (by rwa [TyAppliedAt0] at h)⟩

end

/-! ## Runs that only report -/

/-- The state after reports of unsupported trees. -/
def reporting (s : Extraction) (msgs : List String) : Extraction :=
  { s with diags := s.diags ++ msgs.map fun msg => .error ("Unsupported tree: " ++ msg) }

@[simp] theorem reporting_nil (s : Extraction) : reporting s [] = s := by simp [reporting]

@[simp] theorem reporting_append (s : Extraction) (msgs msgs' : List String) :
    reporting (reporting s msgs) msgs' = reporting s (msgs ++ msgs') := by simp [reporting]

@[simp] theorem reporting_didId (s : Extraction) (msgs : List String) :
    (reporting s msgs).didId = s.didId := rfl

/-- From every state with these ids, `x` returns `a` and reports `msgs`, and does nothing else. -/
def OnlyReports {α : Type} (ids : DefId → Option SymbolIdentifier) (x : Xtor α) (a : α)
    (msgs : List String) : Prop :=
  ∀ s, s.didId = ids → x s = .ok (a, reporting s msgs)

section

variable {α β : Type} {ids : DefId → Option SymbolIdentifier}

theorem OnlyReports.pure (a : α) : OnlyReports ids (pure a : Xtor α) a [] := by
  intro s _
  rw [reporting_nil]
  rfl

theorem OnlyReports.bind {x : Xtor α} {f : α → Xtor β} {a : α} {b : β} {msgs msgs' : List String}
    (hx : OnlyReports ids x a msgs) (hf : OnlyReports ids (f a) b msgs') :
    OnlyReports ids (x >>= f) b (msgs ++ msgs') := by
  intro s hs
  rw [Run.bind_eq (hx s hs), ← reporting_append]
  exact hf _ hs

theorem OnlyReports.map {x : Xtor α} {a : α} {msgs : List String} (hx : OnlyReports ids x a msgs)
    (f : α → β) : OnlyReports ids (x >>= fun a => Pure.pure (f a)) (f a) msgs := by
  have h : OnlyReports ids (x >>= fun a => Pure.pure (f a)) (f a) (msgs ++ []) :=
    hx.bind (.pure (f a))
  rwa [List.append_nil] at h

theorem onlyReports_unsupported (msg : String) : OnlyReports ids (unsupported msg) () [msg] := by
  intro s _
  rfl

theorem onlyReports_untyped (msg : String) :
    OnlyReports ids (do unsupported msg; pure Tpe.untyped) .untyped [msg] :=
  (onlyReports_unsupported msg).map fun _ => Tpe.untyped

end

/-! ## Instances -/

section

variable {α β : Type} {ids : DefId → Option SymbolIdentifier}

/--
The run of `x` for a type next to that of `y` for its instance. The second reports something if and
only if the first does or an argument does.
-/
def BothReport (ids : DefId → Option SymbolIdentifier) (x y : Xtor α) (a b : α)
    (argReports : Prop) : Prop :=
  ∃ msgs msgs', OnlyReports ids x a msgs ∧ OnlyReports ids y b msgs' ∧
    (msgs' ≠ [] ↔ msgs ≠ [] ∨ argReports)

theorem BothReport.pure (a b : α) {p : Prop} (hp : ¬ p) :
    BothReport ids (pure a : Xtor α) (pure b) a b p :=
  ⟨[], [], .pure a, .pure b, by simp [hp]⟩

theorem BothReport.bind {x y : Xtor α} {f g : α → Xtor β} {a b : α} {c d : β} {p q : Prop}
    (h : BothReport ids x y a b p) (h' : BothReport ids (f a) (g b) c d q) :
    BothReport ids (x >>= f) (y >>= g) c d (p ∨ q) := by
  obtain ⟨m₁, m₁', hx, hy, h₁⟩ := h
  obtain ⟨m₂, m₂', hf, hg, h₂⟩ := h'
  refine ⟨m₁ ++ m₂, m₁' ++ m₂', hx.bind hf, hy.bind hg, ?_⟩
  simp only [ne_eq, List.append_eq_nil_iff] at h₁ h₂ ⊢
  tauto

theorem BothReport.map {x y : Xtor α} {a b : α} {p : Prop} (h : BothReport ids x y a b p)
    (f g : α → β) : BothReport ids (x >>= fun a => Pure.pure (f a))
      (y >>= fun b => Pure.pure (g b)) (f a) (g b) p := by
  obtain ⟨msgs, msgs', hx, hy, hiff⟩ := h
  exact ⟨msgs, msgs', hx.map f, hy.map g, hiff⟩

theorem BothReport.untyped (msg : String) {p : Prop} :
    BothReport ids (do unsupported msg; Pure.pure Tpe.untyped)
      (do unsupported msg; Pure.pure Tpe.untyped) .untyped .untyped p :=
  ⟨[msg], [msg], onlyReports_untyped msg, onlyReports_untyped msg, by simp⟩

theorem BothReport.congr {x y : Xtor α} {a b : α} {p q : Prop} (h : BothReport ids x y a b p)
    (hpq : p ↔ q) : BothReport ids x y a b q := by
  rwa [← propext hpq]

end

section

variable {ids : DefId → Option SymbolIdentifier} {adtId : DefId → Xtor SymbolIdentifier}
  {txtcx txtcx' : TyExtractionCtxt} {s : Nat → Ty} {σ : TypeParameter → Tpe}
  {argReports : Nat → Prop}

/-- What the instance of a type relies on for its parameters. -/
def ArgExtracts (tcx : Tcx) (ids : DefId → Option SymbolIdentifier)
    (adtId : DefId → Xtor SymbolIdentifier) (txtcx txtcx' : TyExtractionCtxt) (s : Nat → Ty)
    (σ : TypeParameter → Tpe) (argReports : Nat → Prop) (i : Nat) : Prop :=
  ∃ p msgs, txtcx.indexToTparam.get? i = some p ∧
    OnlyReports ids (extractTyWith tcx adtId txtcx' (s i)) (instTpe σ p.toTpe) msgs ∧
    (msgs ≠ [] ↔ argReports i)

theorem mem_tysAdts {tys : List Ty} {ty : Ty} (hty : ty ∈ tys) {d : DefId}
    (hd : d ∈ tyAdts tcx ty) : d ∈ tysAdts tcx tys := by
  induction tys with
  | nil => cases hty
  | cons u tys ih =>
    rw [tysAdts, List.mem_append]
    rcases List.mem_cons.mp hty with rfl | hty
    · exact .inl hd
    · exact .inr (ih hty)

theorem mem_tysParams {tys : List Ty} {ty : Ty} (hty : ty ∈ tys) {i : Nat}
    (hi : i ∈ tyParams tcx ty) : i ∈ tysParams tcx tys := by
  induction tys with
  | nil => cases hty
  | cons u tys ih =>
    rw [tysParams, List.mem_append]
    rcases List.mem_cons.mp hty with rfl | hty
    · exact .inl hi
    · exact .inr (ih hty)

theorem extractTysWith_instance {tys : List Ty}
    (h : ∀ ty ∈ tys, ∃ tpe, BothReport ids (extractTyWith tcx adtId txtcx ty)
      (extractTyWith tcx adtId txtcx' (instTy s ty)) tpe (instTpe σ tpe)
      (∃ i ∈ tyParams tcx ty, argReports i)) :
    ∃ tpes, BothReport ids (extractTysWith tcx adtId txtcx tys)
      (extractTysWith tcx adtId txtcx' (instTys s tys)) tpes (instTpes σ tpes)
      (∃ i ∈ tysParams tcx tys, argReports i) := by
  induction tys with
  | nil => exact ⟨[], .pure [] [] (by simp [tysParams])⟩
  | cons ty tys ih =>
    obtain ⟨tpe, hty⟩ := h ty List.mem_cons_self
    obtain ⟨tpes, htys⟩ := ih fun u hu => h u (List.mem_cons_of_mem _ hu)
    refine ⟨tpe :: tpes, ?_⟩
    simp only [extractTysWith, instTys, instTpes]
    refine (hty.bind (htys.map (tpe :: ·) (instTpe σ tpe :: ·))).congr ?_
    simp only [tysParams, List.mem_append]
    constructor
    · rintro (⟨i, hi, hr⟩ | ⟨i, hi, hr⟩)
      · exact ⟨i, .inl hi, hr⟩
      · exact ⟨i, .inr hi, hr⟩
    · rintro ⟨i, hi | hi, hr⟩
      · exact .inl ⟨i, hi, hr⟩
      · exact .inr ⟨i, hi, hr⟩

theorem instTy_unsupported {ty : Ty} (h : isUnsupportedKind ty = true) :
    isUnsupportedKind (instTy s ty) = true := by
  unfold isUnsupportedKind at h
  split at h
  all_goals first | rfl | cases h

theorem extractTyWith_unsupported {ty : Ty} (h : isUnsupportedKind ty = true) :
    extractTyWith tcx adtId txtcx ty
      = (do unsupported "Cannot extract type"; pure .untyped) := by
  unfold isUnsupportedKind at h
  split at h
  all_goals first | rfl | cases h

/-- **One shape of a type after the other, its instance is extracted to the instance.** -/
theorem extractTyWith_instance (hadt : ∀ d id, ids d = some id → OnlyReports ids (adtId d) id [])
    {ty : Ty} (hty : TyShape tcx ty) (hreg : ∀ d ∈ tyAdts tcx ty, ids d ≠ none)
    (hargs : ∀ i ∈ tyParams tcx ty, ArgExtracts tcx ids adtId txtcx txtcx' s σ argReports i) :
    ∃ tpe, BothReport ids (extractTyWith tcx adtId txtcx ty)
      (extractTyWith tcx adtId txtcx' (instTy s ty)) tpe (instTpe σ tpe)
      (∃ i ∈ tyParams tcx ty, argReports i) := by
  induction hty with
  | bool => exact ⟨_, .pure _ _ (by simp [tyParams])⟩
  | int t =>
    simp only [extractTyWith, instTy]
    cases t.bitWidth with
    | some size => exact ⟨_, .pure _ (instTpe σ (.bvType true size)) (by simp [tyParams])⟩
    | none => exact ⟨_, .untyped _⟩
  | uint t =>
    simp only [extractTyWith, instTy]
    cases t.bitWidth with
    | some size => exact ⟨_, .pure _ (instTpe σ (.bvType false size)) (by simp [tyParams])⟩
    | none => exact ⟨_, .untyped _⟩
  | @tuple tys parts ih =>
    rw [tyAdts] at hreg
    rw [tyParams] at hargs ⊢
    obtain ⟨tpes, htys⟩ := extractTysWith_instance fun ty hty => ih ty hty
      (fun d hd => hreg d (mem_tysAdts hty hd)) (fun i hi => hargs i (mem_tysParams hty hi))
    simp only [extractTyWith, instTy]
    rcases tpes with _ | ⟨t, _ | ⟨t', rest⟩⟩
    · exact ⟨_, (htys.bind (.pure .unitType (instTpe σ .unitType) id)).congr (by simp)⟩
    · exact ⟨_, (htys.bind (.untyped _ (p := False))).congr (by simp)⟩
    · exact ⟨_, (htys.bind (.pure (.tupleType (t :: t' :: rest))
        (instTpe σ (.tupleType (t :: t' :: rest))) id)).congr (by simp)⟩
  | @bigint did substs hb =>
    simp only [extractTyWith, instTy, if_pos hb]
    exact ⟨_, .pure _ _ (by simp [tyParams, hb])⟩
  | @box did ty rest hb hx part ih =>
    simp only [tyAdts, tyAdtsAt0, if_neg hb, if_pos hx] at hreg
    simp only [tyParams, tyParamsAt0, if_neg hb, if_pos hx] at hargs ⊢
    simp only [extractTyWith, instTy, instTys, extractTyAt0, if_neg hb, if_pos hx]
    exact ih hreg hargs
  | @set did ty rest hb hx hs part ih =>
    simp only [tyAdts, tyAdtsAt0, if_neg hb, if_neg hx, if_pos hs] at hreg
    simp only [tyParams, tyParamsAt0, if_neg hb, if_neg hx, if_pos hs] at hargs ⊢
    simp only [extractTyWith, instTy, instTys, extractTyAt0, if_neg hb, if_neg hx, if_pos hs]
    obtain ⟨tpe, hty⟩ := ih hreg hargs
    exact ⟨.setType tpe, hty.map Tpe.setType Tpe.setType⟩
  | @adt did substs hb hx hs parts ih =>
    simp only [tyAdts, if_neg hb, if_neg hx, if_neg hs] at hreg
    simp only [tyParams, if_neg hb, if_neg hx, if_neg hs] at hargs ⊢
    simp only [extractTyWith, instTy, if_neg hb, if_neg hx, if_neg hs]
    obtain ⟨id, hid⟩ := Option.ne_none_iff_exists'.mp (hreg did List.mem_cons_self)
    obtain ⟨tpes, htys⟩ := extractTysWith_instance fun ty hty => ih ty hty
      (fun d hd => hreg d (List.mem_cons_of_mem _ (mem_tysAdts hty hd)))
      (fun i hi => hargs i (mem_tysParams hty hi))
    have hsort : BothReport ids (adtId did) (adtId did) id id False :=
      ⟨[], [], hadt did id hid, hadt did id hid, by simp⟩
    exact ⟨.adtType id tpes,
      (hsort.bind (htys.map (Tpe.adtType id) (Tpe.adtType id))).congr (by simp)⟩
  | @ref ty part ih =>
    simp only [extractTyWith, instTy]
    exact ih hreg hargs
  | param index =>
    obtain ⟨p, msgs, hp, harg, hmsgs⟩ := hargs index (by simp [tyParams])
    simp only [extractTyWith, instTy, hp]
    exact ⟨p.toTpe, [], msgs, .pure _, harg, by simp [tyParams, hmsgs]⟩
  | @unsupported ty h =>
    rw [extractTyWith_unsupported h, extractTyWith_unsupported (instTy_unsupported h)]
    exact ⟨.untyped, .untyped _⟩

end

/-! ## The extraction of types -/

/-- Nothing that the extraction of a type looks up is missing: ids of ADTs, type parameters, and the
arguments of boxes and sets. -/
structure Ready (tcx : Tcx) (txtcx : TyExtractionCtxt) (st : Extraction) (ty : Ty) : Prop where
  applied : TyApplied tcx ty
  registered : ∀ d ∈ tyAdts tcx ty, st.didId d ≠ none
  known : ∀ i ∈ tyParams tcx ty, txtcx.indexToTparam.get? i ≠ none

/-- The computation reports an unsupported tree. -/
def ReportsUnsupported {α : Type} (x : Xtor α) (s : Extraction) : Prop :=
  ∃ a s' new msg, x s = .ok (a, s') ∧ s'.diags = s.diags ++ new ∧
    .error ("Unsupported tree: " ++ msg) ∈ new

theorem OnlyReports.reportsUnsupported {α : Type} {x : Xtor α} {a : α} {msgs : List String}
    {s : Extraction} (h : OnlyReports s.didId x a msgs) : ReportsUnsupported x s ↔ msgs ≠ [] := by
  constructor
  · rintro ⟨a', s', new, msg, hx, hnew, hmem⟩ rfl
    rw [h s rfl, reporting_nil] at hx
    cases hx
    rw [List.self_eq_append_right.mp hnew] at hmem
    cases hmem
  · intro hne
    obtain ⟨msg, hmsg⟩ := List.exists_mem_of_ne_nil msgs hne
    exact ⟨a, _, _, msg, h s rfl, rfl, List.mem_map_of_mem hmsg⟩

theorem extractAdtId_known {ids : DefId → Option SymbolIdentifier} {d : DefId}
    {id : SymbolIdentifier} (hid : ids d = some id) :
    OnlyReports ids (extractAdtId tcx d) id [] := by
  rintro s rfl
  unfold extractAdtId extractAdtIdWith
  rw [Run.bind_eq getIdFromDef_eq, hid, reporting_nil]
  rfl

/-- A type is its own instance. -/
theorem Ready.onlyReports {txtcx : TyExtractionCtxt} {st : Extraction} {ty : Ty}
    (h : Ready tcx txtcx st ty) :
    ∃ tpe msgs, OnlyReports st.didId (extractTy tcx txtcx ty) tpe msgs := by
  have hargs : ∀ i ∈ tyParams tcx ty, ArgExtracts tcx st.didId (extractAdtId tcx) txtcx txtcx .param
      (fun tp => .typeParameter tp.id tp.flags) (fun _ => False) i := by
    intro i hi
    obtain ⟨p, hp⟩ := Option.ne_none_iff_exists'.mp (h.known i hi)
    refine ⟨p, [], hp, ?_, by simp⟩
    simp only [extractTyWith, hp, instTpe_self]
    exact .pure _
  obtain ⟨tpe, msgs, -, hty, -⟩ := extractTyWith_instance
    (fun _ _ => extractAdtId_known) (tyShape_of_applied ty h.applied) h.registered hargs
  exact ⟨tpe, msgs, hty⟩

/--
**Type extraction commutes with instantiation**, when all ADTs are registered: the instance of a
type by `s` is extracted to the extracted type with every type parameter replaced by what `s` gives
to its index, and reports an unsupported tree exactly if the type or one of the `s` in it does.

A parameter that is replaced by a function type has no type parameter on the Stainless side; `s`
gives it, as the trait bounds require, a type with that function type.
-/
theorem extractTy_instTy {txtcx txtcx' : TyExtractionCtxt} {st : Extraction} {ty : Ty}
    {s : Nat → Ty} {args : Nat → Tpe} (hty : Ready tcx txtcx st ty)
    (hs : ∀ i ∈ tyParams tcx ty, Ready tcx txtcx' st (s i))
    (hargs : ∀ i ∈ tyParams tcx ty, ∃ st', extractTy tcx txtcx' (s i) st = .ok (args i, st'))
    (hdist : TparamsDistinct txtcx)
    (hhof : ∀ i ∈ tyParams tcx ty, ∀ tpe, txtcx.indexToTparam.get? i = some (.replaced tpe) →
      args i = instTpe (tparamArg txtcx args) tpe) :
    ∃ tpe st₁ st₂, extractTy tcx txtcx ty st = .ok (tpe, st₁) ∧
      extractTy tcx txtcx' (instTy s ty) st = .ok (instTpe (tparamArg txtcx args) tpe, st₂) ∧
      (ReportsUnsupported (extractTy tcx txtcx' (instTy s ty)) st ↔
        ReportsUnsupported (extractTy tcx txtcx ty) st ∨
          ∃ i ∈ tyParams tcx ty, ReportsUnsupported (extractTy tcx txtcx' (s i)) st) := by
  have hextracts : ∀ i ∈ tyParams tcx ty, ArgExtracts tcx st.didId (extractAdtId tcx) txtcx txtcx' s
      (tparamArg txtcx args) (fun i => ReportsUnsupported (extractTy tcx txtcx' (s i)) st) i := by
    intro i hi
    obtain ⟨p, hp⟩ := Option.ne_none_iff_exists'.mp (hty.known i hi)
    obtain ⟨arg, msgs, harg⟩ := (hs i hi).onlyReports
    obtain ⟨st', hrun⟩ := hargs i hi
    have heq : arg = args i := by
      rw [harg st rfl] at hrun
      exact congrArg Prod.fst (Except.ok.inj hrun)
    have hinst : instTpe (tparamArg txtcx args) p.toTpe = arg := by
      rw [heq]
      cases p with
      | replaced tpe => exact (hhof i hi tpe hp).symm
      | extracted tp => exact tparamArg_eq hdist hp args
    exact ⟨p, msgs, hp, hinst ▸ harg, harg.reportsUnsupported.symm⟩
  obtain ⟨tpe, msgs, msgs', hrun, hrun', hiff⟩ := extractTyWith_instance
    (fun _ _ => extractAdtId_known) (tyShape_of_applied ty hty.applied) hty.registered hextracts
  have hx : OnlyReports st.didId (extractTy tcx txtcx ty) tpe msgs := hrun
  have hy : OnlyReports st.didId (extractTy tcx txtcx' (instTy s ty)) _ msgs' := hrun'
  refine ⟨tpe, _, _, hx st rfl, hy st rfl, ?_⟩
  rw [hx.reportsUnsupported, hy.reportsUnsupported, hiff]

/-- The tuple `(T, &Opt<T>)` of a generic item, at `T = (U, i32)` for a parameter `U` of another. -/
theorem extractTy_instTy_pair :
    let opt : DefId := ⟨0, 1⟩
    let id (n : Int) (name : String) : SymbolIdentifier :=
      { id := { name := name, globalId := n, id := 0 }, symbolPath := [name] }
    let ctx (n : Int) (name : String) : TyExtractionCtxt :=
      { defId := ⟨0, 2⟩, indexToTparam := [(0, .extracted { id := id n name, flags := [] })] }
    let st := { Extraction.new with
      mapping := { Extraction.new.mapping with didToStid := [(opt, id 0 "Opt")] } }
    let ty : Ty := .tuple [.param 0, .ref (.adt opt [.param 0]) .not]
    let s : Nat → Ty := fun _ => .tuple [.param 0, .int .i32]
    let arg : Tpe := .tupleType [.typeParameter (id 2 "U") [], .bvType true 32]
    (∃ st', extractTy .empty (ctx 2 "U") (instTy s ty) st =
      .ok (.tupleType [arg, .adtType (id 0 "Opt") [arg]], st')) ∧
    (ReportsUnsupported (extractTy .empty (ctx 2 "U") (instTy s ty)) st ↔
      ReportsUnsupported (extractTy .empty (ctx 1 "T") ty) st ∨
        ∃ i ∈ tyParams .empty ty, ReportsUnsupported (extractTy .empty (ctx 2 "U") (s i)) st) := by
  intro opt id ctx st ty s arg
  have hready : Ready .empty (ctx 1 "T") st ty :=
    { applied := by simp [ty, TyApplied, TysApplied, TyAppliedAt0]
      registered := by decide
      known := by decide }
  have hready' : ∀ i ∈ tyParams .empty ty, Ready .empty (ctx 2 "U") st (s i) := fun _ _ =>
    { applied := by simp [s, TyApplied, TysApplied]
      registered := by decide
      known := by decide }
  have hargs : ∀ i ∈ tyParams .empty ty,
      ∃ st', extractTy .empty (ctx 2 "U") (s i) st = .ok ((fun _ => arg) i, st') :=
    fun _ _ => ⟨_, rfl⟩
  have hdist : TparamsDistinct (ctx 1 "T") := by
    intro e he e' he' tp _ _
    rw [List.mem_singleton.mp he, List.mem_singleton.mp he']
  obtain ⟨tpe, st₁, st₂, h, h', hiff⟩ :=
    extractTy_instTy hready hready' hargs hdist (by simp [ctx])
  cases h
  exact ⟨⟨_, h'⟩, hiff⟩

end Stainless
