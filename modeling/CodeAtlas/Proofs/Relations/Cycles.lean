import CodeAtlas.Proofs.Relations.Components
import CodeAtlas.Proofs.Value.Loose
import CodeAtlas.Relations.Register

/-!
# Cycles of dependency among classes

What `Register.cycles` answers for relations whose ends are texts, whatever else they hold.

* The answer is the list of cycles of the graph of dependencies (`cycles_eq`), and never a fault.
* Each strong component that holds a cycle has a listed one, and without cycles nothing is listed.
* What is listed is a closed chain of dependencies, and no cycle is listed twice, rotated or not.

The search is by recursion, and how deep its calls may go is not modelled: a chain of dependencies of any length is
followed here.
-/

namespace CodeAtlas

theorem RelationKind.ofName?_eq_some_iff {s : String} {k : RelationKind} : ofName? s = some k ↔ k.name = s := by
  constructor
  · intro h
    simpa using List.find?_some h
  · rintro rfl
    cases k <;> rfl

theorem RelationKind.eq_text_of_ofName? {t : Value} {k : RelationKind} (h : t.text?.bind ofName? = some k) :
    t = .text k.name := by
  obtain ⟨s, hs, hk⟩ := Option.bind_eq_some_iff.mp h
  rw [ofName?_eq_some_iff.mp hk]
  cases t with
  | atom a =>
    cases a <;> cases hs
    rfl
  | _ => cases hs

namespace Register

def bindingWords : List String := ["extends", "implements", "composition", "dependency"]

def HasTextEnds (v : Value) : Prop := ∃ a b, v.get "from" = .ok (.text a) ∧ v.get "to" = .ok (.text b)

def Depends (r : Register) (a b : String) : Prop :=
  ∃ v ∈ r.relations, v.get "from" = .ok (.text a) ∧ v.get "to" = .ok (.text b) ∧
    ∃ k ∈ bindingWords, v.get "type" = .ok (.text k)

def textArrow? (v : Value) : Option (String × String) :=
  match v.get "from", v.get "to", v.get "type" with
  | .ok (.atom (.text a)), .ok (.atom (.text b)), .ok (.atom (.text k)) =>
    if k ∈ bindingWords then some (a, b) else none
  | _, _, _ => none

theorem binds_iff (kind : Value) :
    ((kind.text?.bind RelationKind.ofName?).map RelationKind.binds).getD false ↔
      ∃ k ∈ bindingWords, kind = .text k := by
  constructor
  · intro h
    cases hk : kind.text?.bind RelationKind.ofName? with
    | none => simp [hk] at h
    | some k =>
      have hb : k.binds := by simpa [hk] using h
      refine ⟨k.name, ?_, RelationKind.eq_text_of_ofName? hk⟩
      cases k <;> revert hb <;> decide
  · rintro ⟨k, hk, rfl⟩
    have : ∀ k ∈ bindingWords, ((RelationKind.ofName? k).map RelationKind.binds).getD false := by decide
    exact this k hk

theorem exists_type_of_get_from {v a : Value} (h : v.get "from" = .ok a) : ∃ t, v.get "type" = .ok t := by
  cases v with
  | record fs => exact ⟨_, rfl⟩
  | _ => cases h

theorem arrow?_eq {v : Value} (h : HasTextEnds v) :
    arrow? v = .ok ((textArrow? v).map fun e => (.text e.1, .text e.2)) := by
  obtain ⟨a, b, ha, hb⟩ := h
  obtain ⟨t, ht⟩ := exists_type_of_get_from ha
  simp only [arrow?, ha, hb, ht, Loose.ok_bind, Value.key, Value.text]
  split
  next hbind =>
    obtain ⟨k, hk, rfl⟩ := (binds_iff t).mp hbind
    simp only [textArrow?, ha, hb, ht, Value.text, if_pos hk]
    rfl
  next hbind =>
    have hnone : textArrow? v = none := by
      unfold textArrow?
      split
      next hk =>
        rw [ht] at hk
        rw [if_neg fun hmem => hbind ((binds_iff t).mpr ⟨_, hmem, Except.ok.inj hk⟩)]
      next => rfl
    rw [hnone]
    rfl

def textArrows (r : Register) : List (String × String) := r.relations.filterMap textArrow?

theorem textArrow?_eq_some_iff {v : Value} {a b : String} :
    textArrow? v = some (a, b) ↔ v.get "from" = .ok (.text a) ∧ v.get "to" = .ok (.text b) ∧
      ∃ k ∈ bindingWords, v.get "type" = .ok (.text k) := by
  constructor
  · intro h
    unfold textArrow? at h
    split at h
    next ha hb hk =>
      split at h
      next hmem =>
        cases h
        exact ⟨ha, hb, _, hmem, hk⟩
      next => cases h
    next => cases h
  · rintro ⟨ha, hb, k, hk, ht⟩
    simp only [textArrow?, ha, hb, ht, Value.text, if_pos hk]

theorem arrow_textArrows_iff (r : Register) (a b : String) : Graph.Arrow r.textArrows a b ↔ r.Depends a b := by
  simp only [Graph.Arrow, textArrows, List.mem_filterMap, textArrow?_eq_some_iff, Depends]

theorem arrow_textArrows (r : Register) : Graph.Arrow r.textArrows = r.Depends := by
  funext a b
  exact propext (r.arrow_textArrows_iff a b)

theorem cycles_eq {r : Register} (h : ∀ v ∈ r.relations, HasTextEnds v) :
    ∃ cs, Graph.cycles? r.textArrows = some cs ∧ r.cycles = .ok (cs.map fun c => c.map .text) := by
  obtain ⟨cs, hcs⟩ := Graph.cycles?_total r.textArrows
  refine ⟨cs, hcs, ?_⟩
  have harrows : r.relations.mapM arrow? =
      .ok (r.relations.map fun v => (textArrow? v).map fun e => (.text e.1, .text e.2)) :=
    Loose.mapM_ok fun v hv => arrow?_eq (h v hv)
  have hfilter : (r.relations.map fun v => (textArrow? v).map fun e => (Atom.text e.1, Value.text e.2)).filterMap id =
      r.textArrows.map fun e => (.text e.1, .text e.2) := by
    rw [List.filterMap_map, textArrows, List.map_filterMap]
    rfl
  have hkeys : (r.textArrows.map fun e => (Atom.text e.1, Value.text e.2)).mapM
      (fun a => do return (a.1, ← a.2.key)) = (.ok (r.textArrows.map (Prod.map .text .text)) : Loose _) := by
    rw [List.mapM_map]
    exact Loose.mapM_ok fun e _ => rfl
  have hcycles : Graph.cycles? (r.textArrows.map (Prod.map Atom.text Atom.text)) =
      some (cs.map fun c => c.map .text) := by
    rw [Graph.cycles?_map Atom.text_beq, hcs]
    rfl
  simp only [cycles, harrows, Loose.ok_bind, hfilter, hkeys, hcycles]
  rfl

/-! ### What is listed -/

/-- **The cycles of a register are complete.**  For relations whose ends are texts, every strong component of the graph
of dependencies that holds a cycle holds all the classes of a listed chain, and nothing is listed exactly when no class
depends on itself through any number of steps. -/
theorem cycles_complete (r : Register) (h : ∀ v ∈ r.relations, HasTextEnds v) :
    ∃ cs : List (List String), r.cycles = .ok (cs.map fun c => c.map .text) ∧
      (∀ k : Set String, Graph.IsComponent r.Depends k → Graph.IsCyclic r.Depends k →
        ∃ c ∈ cs, c ≠ [] ∧ ∀ a ∈ c, a ∈ k) ∧
      (cs = [] ↔ ∀ a, ¬ Relation.TransGen r.Depends a a) := by
  obtain ⟨cs, hcs, hcycles⟩ := cycles_eq h
  refine ⟨cs, hcycles, ?_, ?_⟩
  · intro k hk hcyc
    rw [← arrow_textArrows] at hk hcyc
    exact Graph.cycles?_meets_component hcs hk hcyc
  · rw [← arrow_textArrows]
    exact Graph.cycles?_eq_nil_iff hcs

/-- **The cycles of a register are sound, and none is listed twice.**  For relations whose ends are texts the answer is
never a fault.  A listed chain has at least two places, ends where it starts, repeats no other class, and leads from
class to class by relations that are held; no two listed chains are equal or go round the same cycle. -/
theorem cycles_sound (r : Register) (h : ∀ v ∈ r.relations, HasTextEnds v) :
    ∃ cs : List (List String), r.cycles = .ok (cs.map fun c => c.map .text) ∧
      (∀ c ∈ cs, 2 ≤ c.length ∧ c.head? = c.getLast? ∧ c.dropLast.Nodup ∧ c.IsChain r.Depends) ∧
      cs.Pairwise fun c d => c ≠ d ∧ ¬ c.dropLast ~r d.dropLast := by
  obtain ⟨cs, hcs, hcycles⟩ := cycles_eq h
  refine ⟨cs, hcycles, ?_, ?_⟩
  · obtain ⟨order, hnodup, hclosed⟩ := Graph.cycles?_closed hcs
    intro c hc
    obtain ⟨b, rest, rfl, hsub, hchain⟩ := hclosed c hc
    refine ⟨by simp, by rw [List.getLast?_concat]; rfl, ?_, ?_⟩
    · rw [List.dropLast_concat]
      exact hsub.nodup hnodup
    · rw [← arrow_textArrows]
      exact hchain
  · refine (Graph.cycles?_no_rotation hcs).imp ?_
    intro c d hrot
    exact ⟨fun heq => hrot (heq ▸ List.IsRotated.refl _), hrot⟩

def entangled : Register where
  relations :=
    [("A", "B", "extends"), ("B", "A", "composition"), ("A", "B", "dependency"), ("C", "C", "dependency")].map
    fun e => .ofFields [("from", .text e.1), ("to", .text e.2.1), ("type", .text e.2.2)]

theorem entangled_hasTextEnds : ∀ v ∈ entangled.relations, HasTextEnds v := by
  simp only [entangled, List.map_cons, List.map_nil, List.forall_mem_cons]
  exact ⟨⟨_, _, rfl, rfl⟩, ⟨_, _, rfl, rfl⟩, ⟨_, _, rfl, rfl⟩, ⟨_, _, rfl, rfl⟩, by simp⟩

theorem cycles_complete_entangled :
    (∀ v ∈ entangled.relations, HasTextEnds v) ∧ ∃ cs : List (List String),
      entangled.cycles = .ok (cs.map fun c => c.map .text) ∧
      ∃ c ∈ cs, c ≠ [] ∧ ∀ a ∈ c, Graph.Connected entangled.Depends "A" a := by
  refine ⟨entangled_hasTextEnds, ?_⟩
  obtain ⟨cs, hcs, hall, _⟩ := cycles_complete entangled entangled_hasTextEnds
  refine ⟨cs, hcs, hall {a | Graph.Connected entangled.Depends "A" a} ⟨"A", rfl⟩ ?_⟩
  have hab : entangled.Depends "A" "B" := ⟨_, .head _, rfl, rfl, "extends", by decide, rfl⟩
  have hba : entangled.Depends "B" "A" := ⟨_, .tail _ (.head _), rfl, rfl, "composition", by decide, rfl⟩
  exact Graph.isCyclic_of_transGen (.tail (.single hab) hba)

theorem cycles_sound_entangled :
    (∀ v ∈ entangled.relations, HasTextEnds v) ∧
      entangled.cycles = .ok [[.text "A", .text "B", .text "A"], [.text "C", .text "C"]] ∧
      ∃ cs : List (List String), entangled.cycles = .ok (cs.map fun c => c.map .text) ∧
        (∀ c ∈ cs, 2 ≤ c.length ∧ c.head? = c.getLast? ∧ c.dropLast.Nodup ∧ c.IsChain entangled.Depends) ∧
        cs.Pairwise fun c d => c ≠ d ∧ ¬ c.dropLast ~r d.dropLast :=
  ⟨entangled_hasTextEnds, by rfl, cycles_sound entangled entangled_hasTextEnds⟩

end Register

end CodeAtlas
