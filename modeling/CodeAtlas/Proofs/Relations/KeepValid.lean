import CodeAtlas.Proofs.Relations.Soundness
import CodeAtlas.Proofs.Value.Firsts

/-!
# Checking relations and dropping repetitions

A check and the dropping of repetitions look at the same three fields of a relation.  So it does not matter which of
them comes first, and relations that were kept are kept again.

* `Register.IsFirstSound`, `Register.kept_isSelection`: the same by positions;
* **`Register.validate_distinct_comm`**: both orders keep the first relation of each sound triple, and nothing is
  changed by going once more through what was kept.
-/

namespace CodeAtlas.Register

open List Loose

def tripleKeys : List String := ["from", "to", "type"]

def isPlain (v : Value) : Bool := v.isRecord && tripleKeys.all fun k => (v.part k).isTextOrNull

def triple (v : Value) : Option String × Option String × Option String :=
  ((v.part "from").text?, (v.part "to").text?, (v.part "type").text?)

def allows (known : List Atom) : Option String × Option String × Option String → Bool
  | (some a, some b, some k) => passes known a b (.text k)
  | _ => false

def firstTriples (vs : List Value) : List Value := firsts triple (· == ·) vs

def kept (known : List Atom) (vs : List Value) : List Value := (firstTriples vs).filter fun v => allows known (triple v)

def IsFirstSound (known : List Atom) (vs : List Value) (i : Nat) : Prop :=
  ∃ v a b k, vs[i]? = some v ∧ Joins v a b k ∧ AllowsEnds known k a b ∧ ∀ w ∈ vs.take i, ¬ Joins w a b k

variable {known : List Atom} {v w : Value} {vs : List Value}

/-! ### Plain relations -/

theorem isPlain_iff :
    isPlain v ↔ v.isRecord ∧ ∀ k ∈ tripleKeys, v.part k = .null ∨ ∃ s, v.part k = .text s := by
  rw [isPlain, Bool.and_eq_true, all_eq_true]
  refine and_congr_right fun _ => forall₂_congr fun k _ => ⟨fun h => ?_, ?_⟩
  · rcases Value.part_cases h with ⟨hnull, _⟩ | htext
    · exact .inl hnull
    · exact .inr ⟨_, htext⟩
  · rintro (h | ⟨s, h⟩)
    · rw [h]
      rfl
    · rw [h]
      rfl

theorem ofValue_eq (h : v.isRecord) :
    RelationKey.ofValue v = .ok ⟨v.part "from", v.part "to", v.part "type"⟩ := by
  simp only [RelationKey.ofValue, Value.get_eq_part h, ok_bind]
  rfl

theorem isValid_of_null {source target kind : Value} (h : source.truthy = false ∨ target.truthy = false) :
    (RelationKey.mk source target kind).isValid known = .ok false := by
  have hincomplete : (!(source.truthy && target.truthy && kind.truthy)) := by
    rcases h with h | h <;> simp [h]
  rw [RelationKey.isValid, if_pos hincomplete]
  rfl

theorem isValid_part (h : isPlain v) :
    (RelationKey.mk (v.part "from") (v.part "to") (v.part "type")).isValid known = .ok (allows known (triple v)) := by
  obtain ⟨_, hparts⟩ := isPlain_iff.mp h
  have hnull : Value.truthy .null = false := rfl
  unfold triple
  rcases hparts "from" (by decide) with hfrom | ⟨a, hfrom⟩
  · rw [hfrom, isValid_of_null (.inl hnull)]
    rfl
  rcases hparts "to" (by decide) with hto | ⟨b, hto⟩
  · rw [hfrom, hto, isValid_of_null (.inr hnull)]
    rfl
  rw [hfrom, hto, isValid_eq]
  rcases hparts "type" (by decide) with htype | ⟨k, htype⟩
  · rw [htype]
    show Except.ok (_ && _ && false) = _
    rw [Bool.and_false]
    rfl
  · rw [htype]
    rfl

def atomsOf (v : Value) : Atom × Atom × Atom :=
  let atom := fun k => ((v.part k).text?.map Atom.text).getD .null
  (atom "from", atom "to", atom "type")

theorem atoms_eq (h : isPlain v) :
    (do return (← (← RelationKey.ofValue v).atoms, v) : Loose _) = .ok (atomsOf v, v) := by
  obtain ⟨hrecord, hparts⟩ := isPlain_iff.mp h
  have hkey : ∀ k ∈ tripleKeys, (v.part k).key = .ok (((v.part k).text?.map Atom.text).getD .null) := by
    intro k hk
    rcases hparts k hk with hpart | ⟨s, hpart⟩
    · rw [hpart]
      rfl
    · rw [hpart]
      rfl
  rw [ofValue_eq hrecord, ok_bind, RelationKey.atoms, hkey "from" (by decide), hkey "to" (by decide),
    hkey "type" (by decide)]
  rfl

theorem atomsOf_beq (v w : Value) : (atomsOf v == atomsOf w) = (triple v == triple w) := by
  have hatom : ∀ s t : Option String,
      ((s.map Atom.text).getD .null == (t.map Atom.text).getD .null) = (s == t) := by
    intro s t
    cases s <;> cases t <;> rfl
  show (_ == _ && (_ == _ && _ == _)) = _
  rw [hatom, hatom, hatom]
  rfl

/-! ### Both operations as list functions -/

theorem validate_eq (h : ∀ v ∈ vs, isPlain v) :
    validate ⟨vs, known⟩ = .ok (vs.filter fun v => allows known (triple v)) := by
  refine filterM_ok fun v hv => ?_
  rw [ofValue_eq (isPlain_iff.mp (h v hv)).1, ok_bind, isValid_part (h v hv)]

theorem distinctFrom_eq (seen vs : List Value) :
    distinctFrom (seen.map atomsOf) (vs.map fun v => (atomsOf v, v)) =
      firstsFrom triple (· == ·) (seen.map triple) vs := by
  induction vs generalizing seen with
  | nil => rfl
  | cons v vs ih =>
    have hmet : (seen.map atomsOf).contains (atomsOf v) = (seen.map triple).any (· == triple v) := by
      rw [contains_eq_any_beq, any_map, any_map]
      exact congrArg seen.any (funext fun w => (atomsOf_beq v w).trans BEq.comm)
    rw [map_cons, distinctFrom, hmet, firstsFrom, ih seen, ← map_cons, ih (v :: seen)]
    rfl

theorem distinct_eq (h : ∀ v ∈ vs, isPlain v) : distinct vs = .ok (firstTriples vs) := by
  rw [distinct, mapM_ok (g := fun v => (atomsOf v, v)) fun v hv => atoms_eq (h v hv), ok_bind]
  exact congrArg Except.ok (distinctFrom_eq [] vs)

theorem firstTriples_filter (known : List Atom) (vs : List Value) :
    firstTriples (vs.filter fun v => allows known (triple v)) = kept known vs := by
  refine (firsts_filter fun v w hsame => ?_).symm
  rw [beq_iff_eq.mp hsame]

theorem validate_then_distinct (known : List Atom) (h : ∀ v ∈ vs, isPlain v) :
    (validate ⟨vs, known⟩ >>= distinct) = .ok (kept known vs) := by
  rw [validate_eq h, ok_bind, distinct_eq fun v hv => h v (mem_of_mem_filter hv), firstTriples_filter]

theorem distinct_then_validate (known : List Atom) (h : ∀ v ∈ vs, isPlain v) :
    (distinct vs >>= fun ds => validate ⟨ds, known⟩) = .ok (kept known vs) := by
  have hfirst : ∀ v ∈ firstTriples vs, isPlain v := fun v hv => h v (mem_of_mem_firsts hv)
  rw [distinct_eq h, ok_bind, validate_eq hfirst]
  rfl

theorem keepValid_eq (known : List Atom) (h : ∀ v ∈ vs, isPlain v) :
    keepValid ⟨vs, known⟩ = .ok ⟨kept known vs, known⟩ := by
  obtain ⟨valid, hvalid, hdistinct⟩ := of_bind (validate_then_distinct known h)
  rw [keepValid, hvalid, ok_bind, hdistinct]
  rfl

/-! ### What is kept -/

theorem joins_iff (h : isPlain v) {a b : String} {k : RelationKind} :
    Joins v a b k ↔ triple v = (some a, some b, some k.name) := by
  have hrecord := (isPlain_iff.mp h).1
  have hpart : ∀ key s, v.get key = .ok (.text s) ↔ (v.part key).text? = some s := by
    intro key s
    rw [Value.get_eq_part hrecord, Value.text?_eq_some_iff, Except.ok.injEq]
  rw [triple, Prod.mk.injEq, Prod.mk.injEq, ← hpart, ← hpart, ← hpart]
  exact ⟨fun hjoins => ⟨hjoins.source, hjoins.target, hjoins.kind⟩, fun hparts => ⟨hparts.1, hparts.2.1, hparts.2.2⟩⟩

theorem allows_iff {t : Option String × Option String × Option String} :
    allows known t ↔ ∃ a b, ∃ k : RelationKind, t = (some a, some b, some k.name) ∧ AllowsEnds known k a b := by
  constructor
  · intro hallows
    unfold allows at hallows
    split at hallows
    next a b kind =>
      obtain ⟨k, hkind, hends⟩ := passes_iff.mp hallows
      have hname : kind = k.name := Option.some.inj (congrArg Value.text? hkind)
      exact ⟨a, b, k, by rw [hname], hends⟩
    · cases hallows
  · rintro ⟨a, b, k, rfl, hends⟩
    exact passes_iff.mpr ⟨k, rfl, hends⟩

/-! ### What relations show -/

section

variable {a b : String} {k : RelationKind}

theorem Joins.isPlain (h : Joins v a b k) : isPlain v := by
  simp only [Register.isPlain, tripleKeys, all_cons, all_nil, Value.part_of_get h.source, Value.part_of_get h.target,
    Value.part_of_get h.kind, Value.isRecord_of_get h.source]
  rfl

theorem IsJoin.isPlain (h : IsJoin v) : isPlain v := by
  obtain ⟨a, b, k, hjoins⟩ := h
  exact hjoins.isPlain

theorem Joins.allows_iff (h : Joins v a b k) : allows known (triple v) ↔ AllowsEnds known k a b := by
  rw [Register.allows_iff, (joins_iff h.isPlain).mp h]
  constructor
  · rintro ⟨a', b', k', heq, hends⟩
    simp only [Prod.mk.injEq, Option.some.injEq] at heq
    obtain ⟨rfl, rfl, hname⟩ := heq
    rwa [RelationKind.name_injective hname]
  · exact fun hends => ⟨a, b, k, rfl, hends⟩

/-- **Dropping repetitions loses nothing** that relations show. -/
theorem shows_firstTriples (h : ∀ v ∈ vs, Register.isPlain v) : Shows (firstTriples vs) a b k ↔ Shows vs a b k := by
  constructor
  · rintro ⟨v, hv, hjoins⟩
    exact ⟨v, mem_of_mem_firsts hv, hjoins⟩
  · rintro ⟨v, hv, hjoins⟩
    obtain ⟨w, hw, hsame⟩ := exists_mem_firsts (beq_self_eq_true (triple v)) hv
    refine ⟨w, hw, (joins_iff (h w (mem_of_mem_firsts hw))).mpr ?_⟩
    rw [beq_iff_eq.mp hsame]
    exact (joins_iff (h v hv)).mp hjoins

/-- **What a check leaves**: the relations whose ends are allowed. -/
theorem shows_kept (h : ∀ v ∈ vs, Register.isPlain v) :
    Shows (kept known vs) a b k ↔ Shows vs a b k ∧ AllowsEnds known k a b := by
  rw [← shows_firstTriples h]
  simp only [Shows, kept, mem_filter]
  constructor
  · rintro ⟨v, ⟨hv, hallows⟩, hjoins⟩
    exact ⟨⟨v, hv, hjoins⟩, hjoins.allows_iff.mp hallows⟩
  · rintro ⟨⟨v, hv, hjoins⟩, hends⟩
    exact ⟨v, ⟨hv, hjoins.allows_iff.mpr hends⟩, hjoins⟩

theorem isJoin_of_mem_kept (h : ∀ v ∈ vs, Register.isPlain v) (hv : v ∈ kept known vs) : IsJoin v := by
  obtain ⟨hmem, hallows⟩ := mem_filter.mp hv
  obtain ⟨a, b, k, htriple, _⟩ := Register.allows_iff.mp hallows
  exact ⟨a, b, k, (joins_iff (h v (mem_of_mem_firsts hmem))).mpr htriple⟩

theorem firstTriples_differ (h : ∀ v ∈ vs, Register.isPlain v) : (firstTriples vs).Pairwise Differ := by
  have hrecord : ∀ v ∈ firstTriples vs, v.isRecord := fun v hv => (isPlain_iff.mp (h v (mem_of_mem_firsts hv))).1
  refine firsts_pairwise.imp_of_mem fun {v w} hv hw hne hsame => ?_
  simp only [Value.get_eq_part (hrecord v hv), Value.get_eq_part (hrecord w hw), Except.ok.injEq] at hsame
  rw [triple, triple, hsame.1, hsame.2.1, hsame.2.2, beq_self_eq_true] at hne
  cases hne

end

/-! ### Positions -/

/-- A relation is sound and none before it has its ends and kind: the check allows its triple, and it is the first one
with it. -/
theorem isFirstSound_iff (h : ∀ v ∈ vs, isPlain v) {i : Nat} : IsFirstSound known vs i ↔
    IsFirstAt triple (· == ·) vs i ∧ (vs[i]?).any (fun v => allows known (triple v)) = true := by
  rw [Option.any_eq_true]
  constructor
  · rintro ⟨v, a, b, k, hv, hjoins, hends, hnone⟩
    have htriple := (joins_iff (h v (mem_of_getElem? hv))).mp hjoins
    refine ⟨⟨v, hv, fun w hw => ?_⟩, v, hv, allows_iff.mpr ⟨a, b, k, htriple, hends⟩⟩
    rw [beq_eq_false_iff_ne, htriple]
    exact fun heq => hnone w hw ((joins_iff (h w (mem_of_mem_take hw))).mpr heq)
  · rintro ⟨⟨v, hv, hnone⟩, v', hv', hallows⟩
    obtain rfl : v = v' := Option.some.inj (hv.symm.trans hv')
    obtain ⟨a, b, k, htriple, hends⟩ := allows_iff.mp hallows
    refine ⟨v, a, b, k, hv, (joins_iff (h v (mem_of_getElem? hv))).mpr htriple, hends, fun w hw hjoins => ?_⟩
    have heq := (joins_iff (h w (mem_of_mem_take hw))).mp hjoins
    exact beq_eq_false_iff_ne.mp (hnone w hw) (heq.trans htriple.symm)

theorem kept_isSelection (known : List Atom) (h : ∀ v ∈ vs, isPlain v) :
    IsSelection (IsFirstSound known vs) vs (kept known vs) := by
  have hfirsts : IsSelection (IsFirstAt triple (· == ·) vs) vs (firstTriples vs) := by
    refine firsts_isSelection (fun v _ => beq_self_eq_true (triple v)) fun s _ t _ u _ hst htu => ?_
    rw [beq_iff_eq] at hst htu ⊢
    exact hst.trans htu
  exact (hfirsts.filter _).congr fun i => (isFirstSound_iff h).symm

theorem kept_subset (known : List Atom) (vs : List Value) : kept known vs ⊆ vs := fun _ hv =>
  mem_of_mem_firsts (mem_of_mem_filter hv)

theorem kept_append (known : List Atom) {vs ws : List Value} (hws : ws ⊆ kept known vs) :
    kept known (kept known vs ++ ws) = kept known vs := by
  have hpair : (kept known vs).Pairwise fun v w => (triple v == triple w) = false :=
    List.Pairwise.filter _ firsts_pairwise
  have hfirst : firstTriples (kept known vs ++ ws) = kept known vs :=
    (firsts_append_of_met fun w hw => ⟨w, (firsts_eq_self hpair).symm ▸ hws hw, beq_self_eq_true (triple w)⟩).trans
      (firsts_eq_self hpair)
  rw [kept, hfirst, filter_eq_self]
  exact fun v hv => (mem_filter.mp hv).2

theorem keepValid_again (h : ∀ v ∈ vs, isPlain v) {ws : List Value} (hws : ws ⊆ kept known vs) :
    keepValid ⟨kept known vs ++ ws, known⟩ = .ok ⟨kept known vs, known⟩ := by
  have hplain : ∀ v ∈ kept known vs ++ ws, isPlain v := by
    intro v hv
    rcases mem_append.mp hv with hv | hv
    · exact h v (kept_subset known vs hv)
    · exact h v (kept_subset known vs (hws hv))
  rw [keepValid_eq known hplain, kept_append known hws]

/-- **A check and the dropping of repetitions commute.**  Both orders keep the first relation of each sound triple, in
the order of the relations; and going through what was kept once more, also with some of it repeated at the end, keeps
exactly that. -/
theorem validate_distinct_comm (known : List Atom) (rs : List Value) (h : ∀ r ∈ rs, isPlain r = true) :
    ∃ ks, (validate ⟨rs, known⟩ >>= distinct) = .ok ks ∧
      (distinct rs >>= fun ds => validate ⟨ds, known⟩) = .ok ks ∧
      IsSelection (IsFirstSound known rs) rs ks ∧
      keepValid ⟨rs, known⟩ = .ok ⟨ks, known⟩ ∧
      keepValid ⟨ks, known⟩ = .ok ⟨ks, known⟩ ∧
      ∀ vs, vs ⊆ ks → keepValid ⟨ks ++ vs, known⟩ = .ok ⟨ks, known⟩ := by
  have hagain : keepValid ⟨kept known rs ++ [], known⟩ = .ok ⟨kept known rs, known⟩ :=
    keepValid_again h (List.nil_subset _)
  rw [List.append_nil] at hagain
  exact ⟨kept known rs, validate_then_distinct known h, distinct_then_validate known h, kept_isSelection known h,
    keepValid_eq known h, hagain, fun vs hvs => keepValid_again h hvs⟩

def foundBase : Value := .ofFields [("from", .text "Shape"), ("to", .text "Square"), ("type", .text "extends")]
def guessedBase : Value := .ofFields [("from", .text "Shape"), ("to", .text "Square"), ("type", .text "extends"),
  ("source", .text "ai")]

def ownUse : Value := .ofFields [("from", .text "Shape"), ("to", .text "Shape"), ("type", .text "uses")]
def openUse : Value := .ofFields [("from", .text "Square"), ("type", .text "uses")]
def ownDependency : Value := .ofFields [("from", .text "os"), ("to", .text "os"), ("type", .text "dependency")]

theorem validate_distinct_comm_shapes :
    let known := [.text "Shape", .text "Square"]
    let rs := [foundBase, ownUse, openUse, guessedBase, ownDependency]
    (∀ r ∈ rs, isPlain r = true) ∧
      (validate ⟨rs, known⟩ >>= distinct) = .ok [foundBase, ownDependency] ∧
      (distinct rs >>= fun ds => validate ⟨ds, known⟩) = .ok [foundBase, ownDependency] ∧
      IsSelection (IsFirstSound known rs) rs [foundBase, ownDependency] ∧
      keepValid ⟨[foundBase, ownDependency, foundBase], known⟩ = .ok ⟨[foundBase, ownDependency], known⟩ := by
  intro known rs
  have hplain : ∀ r ∈ rs, isPlain r = true := by
    simp only [rs, List.forall_mem_cons]
    exact ⟨rfl, rfl, rfl, rfl, rfl, by simp⟩
  obtain ⟨ks, hvalidate, hdistinct, hselection, hkeep, _, hagain⟩ := validate_distinct_comm known rs hplain
  have hvalue : keepValid ⟨rs, known⟩ = .ok ⟨[foundBase, ownDependency], known⟩ := rfl
  obtain rfl : ks = [foundBase, ownDependency] := congrArg Register.relations (Except.ok.inj (hkeep.symm.trans hvalue))
  exact ⟨hplain, hvalidate, hdistinct, hselection, hagain [foundBase] (by simp)⟩

end CodeAtlas.Register
