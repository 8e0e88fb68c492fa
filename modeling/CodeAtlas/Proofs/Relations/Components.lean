import CodeAtlas.Proofs.Relations.DepthFirst
import Mathlib.Data.List.Rotate
import Mathlib.Data.Set.Subsingleton
import Mathlib.Logic.Relation

/-!
# Listed cycles and strong components

What the invariant of the search says about the cycles that it lists, for any graph:

* `cycles?_total`: the search of a graph always ends with a list of cycles;
* `cycles?_closed`, `cycles?_no_rotation`: they are closed chains of arrows, and none is a rotation of another;
* `cycles?_meets_component`: each component that holds a cycle has a listed one;
* `cycles?_eq_nil_iff`: the list is empty exactly if no node leads back to itself;
* `cycles?_map`: the list does not depend on what the nodes are.

Completeness needs no account of which nodes are reachable when a component is first entered.  Suppose no listed cycle
lies in a component.  Each arrow inside the component then leads to a node that was left **before** its source, so the
node of the component that was left first has no arrow inside the component.
-/

namespace CodeAtlas.Graph

open List

variable {α β : Type}

/-! ### Strong components -/

/-- Each of two nodes is reached from the other. -/
def Connected (r : α → α → Prop) (a b : α) : Prop := Relation.ReflTransGen r a b ∧ Relation.ReflTransGen r b a

/-- The nodes that are connected with a given one. -/
def IsComponent (r : α → α → Prop) (k : Set α) : Prop := ∃ a, k = {b | Connected r a b}

/-- A component that holds a cycle: it has two nodes, or one that leads to itself. -/
def IsCyclic (r : α → α → Prop) (k : Set α) : Prop := k.Nontrivial ∨ ∃ a ∈ k, r a a

variable {r : α → α → Prop} {a b : α} {k : Set α}

theorem Connected.symm (h : Connected r a b) : Connected r b a := ⟨h.2, h.1⟩

theorem Connected.trans {c : α} (h : Connected r a b) (h' : Connected r b c) :
    Connected r a c := ⟨h.1.trans h'.1, h'.2.trans h.2⟩

theorem IsComponent.connected (h : IsComponent r k) (ha : a ∈ k) (hb : b ∈ k) : Connected r a b := by
  obtain ⟨x, rfl⟩ := h
  exact ha.symm.trans hb

theorem IsComponent.mem_of_connected (h : IsComponent r k) (ha : a ∈ k) (hab : Connected r a b) : b ∈ k := by
  obtain ⟨x, rfl⟩ := h
  exact Connected.trans ha hab

theorem IsComponent.exists_arrow_of_ne (h : IsComponent r k) (ha : a ∈ k)
    (hb : b ∈ k) (hne : a ≠ b) : ∃ c ∈ k, r a c := by
  obtain ⟨hab, hba⟩ := h.connected ha hb
  rcases hab.cases_head with rfl | ⟨c, hac, hcb⟩
  · exact absurd rfl hne
  · exact ⟨c, h.mem_of_connected ha ⟨.single hac, hcb.trans hba⟩, hac⟩

theorem IsComponent.exists_arrow (h : IsComponent r k) (hk : IsCyclic r k) (ha : a ∈ k) : ∃ b ∈ k, r a b := by
  rcases hk with hk | ⟨x, hx, hxx⟩
  · obtain ⟨b, hb, hne⟩ := hk.exists_ne a
    exact h.exists_arrow_of_ne ha hb hne.symm
  · by_cases hax : a = x
    · subst hax
      exact ⟨a, ha, hxx⟩
    · exact h.exists_arrow_of_ne ha hx hax

theorem isCyclic_of_transGen (h : Relation.TransGen r a a) : IsCyclic r {b | Connected r a b} := by
  obtain ⟨b, hab, hba⟩ := Relation.TransGen.head'_iff.mp h
  by_cases hne : b = a
  · subst hne
    exact .inr ⟨b, ⟨.refl, .refl⟩, hab⟩
  · exact .inl ⟨b, ⟨.single hab, hba⟩, a, ⟨.refl, .refl⟩, hne⟩

/-! ### Closed chains -/

section Chains

variable {arrows : List (α × α)} {order c : List α}

theorem reflTransGen_of_isChain {r : α → α → Prop} {x y : α} (middle : List α)
    (h : (x :: (middle ++ [y])).IsChain r) : Relation.ReflTransGen r x y :=
  relationReflTransGen_of_exists_isChain_cons (middle ++ [y]) h (by simp)

theorem ClosedChain.connected_head {rest : List α} (h : (b :: rest ++ [b]).IsChain (Arrow arrows))
    (ha : a ∈ b :: rest ++ [b]) : Connected (Arrow arrows) b a := by
  by_cases hab : a = b
  · subst hab
    exact ⟨.refl, .refl⟩
  · have ha : a ∈ rest := by simpa [hab] using ha
    obtain ⟨front, back, rfl⟩ := append_of_mem ha
    have hsplit : b :: (front ++ a :: back) ++ [b] = (b :: (front ++ [a])) ++ (back ++ [b]) := by simp
    constructor
    · exact reflTransGen_of_isChain front (hsplit ▸ h).left_of_append
    · exact reflTransGen_of_isChain back (h.suffix ⟨b :: front, by simp⟩)

theorem ClosedChain.connected (h : ClosedChain arrows order c) (ha : a ∈ c) (hb : b ∈ c) :
    Connected (Arrow arrows) a b := by
  obtain ⟨x, rest, rfl, _, hchain⟩ := h
  exact (ClosedChain.connected_head hchain ha).symm.trans (ClosedChain.connected_head hchain hb)

theorem ClosedChain.exists_transGen (h : ClosedChain arrows order c) :
    ∃ a, Relation.TransGen (Arrow arrows) a a := by
  obtain ⟨b, rest, rfl, _, hchain⟩ := h
  cases rest with
  | nil => exact ⟨b, .single (by simpa using hchain)⟩
  | cons x rest =>
    have hbx : Arrow arrows b x := (isChain_cons_cons.mp hchain).1
    have hxb : Connected (Arrow arrows) b x := ClosedChain.connected_head hchain (by simp)
    exact ⟨b, Relation.TransGen.head' hbx hxb.2⟩

theorem ClosedChain.ne_nil (h : ClosedChain arrows order c) : c ≠ [] := by
  obtain ⟨b, rest, rfl, _⟩ := h
  simp

theorem ClosedChain.eq_of_isRotated {d : List α} (horder : order.Nodup) (hc : ClosedChain arrows order c)
    (hd : ClosedChain arrows order d) (h : c.dropLast ~r d.dropLast) : c = d := by
  obtain ⟨a, as, rfl, has, _⟩ := hc
  obtain ⟨b, bs, rfl, hbs, _⟩ := hd
  simp only [dropLast_concat] at h
  have heq : a :: as = b :: bs := (horder.perm_iff_eq_of_sublist has hbs).mp h.perm
  rw [heq, (List.cons.inj heq).1]

theorem Settled.not_mem_of_component {cs : List (List α)} {left : List α} {k : Set α} (hs : Settled arrows cs left)
    (hclosed : ∀ c ∈ cs, ClosedChain arrows order c) (hk : IsComponent (Arrow arrows) k)
    (hcyc : IsCyclic (Arrow arrows) k) (hnone : ∀ c ∈ cs, ∃ a ∈ c, a ∉ k) {a : α} (ha : a ∈ k) : a ∉ left := by
  -- The induction is on the order of leaving: the first node of the component to be left has an arrow to another one.
  induction left generalizing a with
  | nil => simp
  | cons x left ih =>
    intro hmem
    rcases mem_cons.mp hmem with rfl | hmem
    · obtain ⟨b, hb, hab⟩ := hk.exists_arrow hcyc ha
      rcases hs.1 b hab with hleft | ⟨c, hc, hac, _⟩
      · exact ih hs.2 hb hleft
      · obtain ⟨y, hy, hout⟩ := hnone c hc
        exact hout (hk.mem_of_connected ha ((hclosed c hc).connected hac hy))
    · exact ih hs.2 ha hmem

end Chains

/-! ### The cycles of a graph -/

section Lawful

variable [BEq α] [LawfulBEq α] {arrows : List (α × α)} {cs : List (List α)}

theorem cycles?_total (arrows : List (α × α)) : ∃ cs, cycles? arrows = some cs := by
  obtain ⟨s, _, hs, _⟩ := cycles?_leads arrows
  exact ⟨s.cycles, hs⟩

theorem cycles?_closed (h : cycles? arrows = some cs) :
    ∃ order : List α, order.Nodup ∧ ∀ c ∈ cs, ClosedChain arrows order c := by
  obtain ⟨s, left, hs, hinv, _⟩ := cycles?_leads arrows
  obtain rfl : cs = s.cycles := Option.some.inj (h.symm.trans hs)
  exact ⟨s.visited.reverse, nodup_reverse.mpr hinv.nodup, hinv.closed⟩

theorem cycles?_no_rotation (h : cycles? arrows = some cs) :
    cs.Pairwise fun c d => ¬ c.dropLast ~r d.dropLast := by
  obtain ⟨s, left, hs, hinv, _⟩ := cycles?_leads arrows
  obtain rfl : cs = s.cycles := Option.some.inj (h.symm.trans hs)
  refine hinv.distinct.imp_of_mem ?_
  intro c d hc hd hne hrot
  exact hne (ClosedChain.eq_of_isRotated (nodup_reverse.mpr hinv.nodup) (hinv.closed c hc) (hinv.closed d hd) hrot)

theorem cycles?_meets_component (h : cycles? arrows = some cs) {k : Set α} (hk : IsComponent (Arrow arrows) k)
    (hcyc : IsCyclic (Arrow arrows) k) : ∃ c ∈ cs, c ≠ [] ∧ ∀ a ∈ c, a ∈ k := by
  obtain ⟨s, left, hs, hinv, hleft⟩ := cycles?_leads arrows
  obtain rfl : cs = s.cycles := Option.some.inj (h.symm.trans hs)
  by_contra hnone
  have hout : ∀ c ∈ s.cycles, ∃ a ∈ c, a ∉ k := by
    intro c hc
    by_contra hin
    push Not at hin
    exact hnone ⟨c, hc, (hinv.closed c hc).ne_nil, hin⟩
  obtain ⟨a, ha⟩ : ∃ a, a ∈ k := by
    obtain ⟨a, rfl⟩ := hk
    exact ⟨a, .refl, .refl⟩
  obtain ⟨b, _, hab⟩ := hk.exists_arrow hcyc ha
  exact hinv.settled.not_mem_of_component hinv.closed hk hcyc hout ha (hleft a b hab)

theorem cycles?_eq_nil_iff (h : cycles? arrows = some cs) :
    cs = [] ↔ ∀ a, ¬ Relation.TransGen (Arrow arrows) a a := by
  constructor
  · rintro rfl a ha
    obtain ⟨c, hc, _⟩ := cycles?_meets_component h ⟨a, rfl⟩ (isCyclic_of_transGen ha)
    cases hc
  · intro hacyclic
    obtain ⟨order, _, hclosed⟩ := cycles?_closed h
    refine eq_nil_iff_forall_not_mem.mpr fun c hc => ?_
    obtain ⟨a, ha⟩ := (hclosed c hc).exists_transGen
    exact hacyclic a ha

end Lawful

/-! ### Renaming -/

section Renaming

/-- What a search has seen and found, with its nodes renamed. -/
def Search.rename (f : α → β) (s : Search α) : Search β :=
  ⟨s.visited.map f, s.active.map f, s.cycles.map (List.map f)⟩

variable [BEq α] [BEq β] {f : α → β} (hf : ∀ a b, (f a == f b) = (a == b))

include hf

theorem contains_map (l : List α) (a : α) :
    (l.map f).contains (f a) = l.contains a := by
  induction l with
  | nil => rfl
  | cons x l ih => simp only [map_cons, contains_cons, hf, ih]

theorem beq_map (l m : List α) : (l.map f == m.map f) = (l == m) := by
  induction l generalizing m with
  | nil => cases m <;> rfl
  | cons x l ih =>
    cases m with
    | nil => rfl
    | cons y m => simp only [map_cons, cons_beq_cons, hf, ih]

theorem erase_map (l : List α) (a : α) :
    (l.map f).erase (f a) = (l.erase a).map f := by
  induction l with
  | nil => rfl
  | cons x l ih =>
    simp only [map_cons, erase_cons, hf, ih]
    split <;> rfl

theorem distinctFrom_map (seen as : List α) :
    distinctFrom (seen.map f) (as.map f) = (distinctFrom seen as).map f := by
  induction as generalizing seen with
  | nil => rfl
  | cons a as ih =>
    have hrest := ih (a :: seen)
    rw [map_cons] at hrest
    simp only [map_cons, distinctFrom, contains_map hf, ih, hrest]
    split <;> rfl

theorem sources_map (arrows : List (α × α)) :
    sources (arrows.map (Prod.map f f)) = (sources arrows).map f := by
  have h := distinctFrom_map hf [] (arrows.map (·.1))
  simpa [sources, Function.comp_def] using h

theorem targets_map (arrows : List (α × α)) (a : α) :
    targets (arrows.map (Prod.map f f)) (f a) = (targets arrows a).map f := by
  simp [targets, filter_map, Function.comp_def, hf]

theorem fromNode?_map (a : α) (path : List α) :
    fromNode? (f a) (path.map f) = (fromNode? a path).map (List.map f) := by
  induction path with
  | nil => rfl
  | cons b path ih =>
    simp only [map_cons, fromNode?, hf, ih]
    split <;> rfl

theorem leave?_rename (s : Search α) (a : α) :
    (s.rename f).leave? (f a) = (s.leave? a).map (Search.rename f) := by
  simp only [Search.leave?, Search.rename, contains_map hf, erase_map hf]
  split <;> rfl

theorem close?_rename (s : Search α) (path : List α) (b : α) :
    (s.rename f).close? (path.map f) (f b) = (s.close? path b).map (Search.rename f) := by
  simp only [Search.close?, fromNode?_map hf, Option.map_map]
  congr 1
  funext c
  show (s.rename f).addCycle (c.map f ++ [f b]) = (s.addCycle (c ++ [b])).rename f
  have hc : c.map f ++ [f b] = (c ++ [b]).map f := by simp
  simp only [Search.addCycle, Search.rename, hc, contains_map (beq_map hf)]
  split <;> simp

theorem follow_rename {visit : α → Search α → Option (Search α)}
    {visit' : β → Search β → Option (Search β)}
    (hv : ∀ b s, visit' (f b) (s.rename f) = (visit b s).map (Search.rename f)) (path : List α) (s : Search α) (b : α) :
    follow visit' (path.map f) (s.rename f) (f b) = (follow visit path s b).map (Search.rename f) := by
  have hvisited : (s.rename f).visited.contains (f b) = s.visited.contains b := contains_map hf _ _
  have hactive : (s.rename f).active.contains (f b) = s.active.contains b := contains_map hf _ _
  simp only [follow, hvisited, hactive]
  split
  · exact hv b s
  · split
    · exact close?_rename hf s path b
    · rfl

omit [BEq α] [BEq β] hf in
theorem foldlM_rename {step : Search α → α → Option (Search α)} {step' : Search β → β → Option (Search β)}
    (hstep : ∀ s a, step' (s.rename f) (f a) = (step s a).map (Search.rename f)) (as : List α) (s : Search α) :
    (as.map f).foldlM step' (s.rename f) = (as.foldlM step s).map (Search.rename f) := by
  induction as generalizing s with
  | nil => rfl
  | cons a as ih =>
    simp only [map_cons, foldlM_cons, hstep]
    cases step s a with
    | none => rfl
    | some s => exact ih s

theorem search_rename (arrows : List (α × α)) (fuel : Nat) (path : List α)
    (a : α) (s : Search α) :
    search (arrows.map (Prod.map f f)) fuel (path.map f) (f a) (s.rename f) =
      (search arrows fuel path a s).map (Search.rename f) := by
  induction fuel generalizing path a s with
  | zero => rfl
  | succ fuel ih =>
    have hpath : path.map f ++ [f a] = (path ++ [a]).map f := by simp
    have hfold := foldlM_rename (follow_rename hf (ih (path ++ [a])) (path ++ [a])) (targets arrows a) (s.enter a)
    simp only [search, targets_map hf, hpath]
    rw [show (s.rename f).enter (f a) = (s.enter a).rename f from rfl, hfold]
    cases (targets arrows a).foldlM (follow (search arrows fuel (path ++ [a])) (path ++ [a])) (s.enter a) with
    | none => rfl
    | some s => exact leave?_rename hf s a

theorem cycles?_map (arrows : List (α × α)) :
    cycles? (arrows.map (Prod.map f f)) = (cycles? arrows).map (List.map (List.map f)) := by
  have hstep : ∀ s a, searchSource (arrows.map (Prod.map f f)) (s.rename f) (f a) =
      (searchSource arrows s a).map (Search.rename f) := by
    intro s a
    have hbound : bound (arrows.map (Prod.map f f)) = bound arrows := by simp [bound]
    simp only [searchSource, hbound]
    rw [show (s.rename f).visited.contains (f a) = s.visited.contains a from contains_map hf _ _]
    split
    · rfl
    · exact search_rename hf arrows (bound arrows) [] a s
  have hfold := foldlM_rename hstep (sources arrows) {}
  rw [cycles?, sources_map hf, cycles?]
  rw [show ({} : Search β) = ({} : Search α).rename f from rfl, hfold]
  simp only [Option.map_map]
  rfl

end Renaming

end CodeAtlas.Graph
