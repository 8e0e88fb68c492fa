import CodeAtlas.Relations.Cycles
import Mathlib.Data.List.Chain
import Mathlib.Data.List.Nodup
import Mathlib.Data.List.Perm.Subperm

/-!
# What a depth-first search keeps

The search of `Graph.cycles?` carries three things: the nodes it has seen, those it has entered and not left, and the
cycles it has listed.  This file says what ties them to the path and shows that no step of the search breaks it:

* `Search.Inv`: the invariant.  The nodes entered and not left are **exactly** the path, the latest first;
* `Search.Inv.enter`, `Search.Inv.leave`, `Search.Inv.close`: what each step of the search preserves.

No search is cut short: a path holds no node twice, so it is never longer than `bound` allows.
-/

namespace CodeAtlas.Graph

open List

variable {α : Type}

def Arrow (arrows : List (α × α)) (a b : α) : Prop := (a, b) ∈ arrows

def nodes (arrows : List (α × α)) : List α := arrows.flatMap fun e => [e.1, e.2]

theorem length_nodes (arrows : List (α × α)) : (nodes arrows).length = 2 * arrows.length := by
  simp [nodes, length_flatMap, Nat.mul_comm]

variable {arrows : List (α × α)} {a b : α} {left : List α} {cs cs' : List (List α)}

theorem Arrow.source_mem (h : Arrow arrows a b) : a ∈ nodes arrows := mem_flatMap.mpr ⟨(a, b), h, by simp⟩

theorem Arrow.target_mem (h : Arrow arrows a b) : b ∈ nodes arrows := mem_flatMap.mpr ⟨(a, b), h, by simp⟩

theorem isChain_concat {l : List α} (h : l.IsChain (Arrow arrows))
    (hlast : l.getLast? = some a) (hab : Arrow arrows a b) : (l ++ [b]).IsChain (Arrow arrows) := by
  refine List.IsChain.append h (isChain_singleton b) fun x hx y hy => ?_
  obtain rfl : a = x := by simpa [hlast] using hx
  obtain rfl : b = y := by simpa using hy
  exact hab

/-! ### Nodes that were left -/

def Handled (left : List α) (cs : List (List α)) (a b : α) : Prop := b ∈ left ∨ ∃ c ∈ cs, a ∈ c ∧ b ∈ c

theorem Handled.mono {left' : List α} (h : Handled left cs a b)
    (hl : left ⊆ left') (hc : cs ⊆ cs') : Handled left' cs' a b := by
  rcases h with h | ⟨c, hcs, hab⟩
  · exact .inl (hl h)
  · exact .inr ⟨c, hc hcs, hab⟩

def Settled (arrows : List (α × α)) (cs : List (List α)) : List α → Prop
  | [] => True
  | a :: left => (∀ b, Arrow arrows a b → Handled left cs a b) ∧ Settled arrows cs left

theorem Settled.mono (h : Settled arrows cs left) (hc : cs ⊆ cs') : Settled arrows cs' left := by
  induction left with
  | nil => trivial
  | cons a left ih => exact ⟨fun b hb => (h.1 b hb).mono (List.Subset.refl _) hc, ih h.2⟩

def ClosedChain (arrows : List (α × α)) (order c : List α) : Prop :=
  ∃ b rest, c = b :: rest ++ [b] ∧ (b :: rest).Sublist order ∧ c.IsChain (Arrow arrows)

theorem ClosedChain.mono {order order' c : List α} (h : ClosedChain arrows order c)
    (ho : order.Sublist order') : ClosedChain arrows order' c := by
  obtain ⟨b, rest, hc, hs, hchain⟩ := h
  exact ⟨b, rest, hc, hs.trans ho, hchain⟩

/-! ### The invariant -/

/-- What holds of a search that is at the end of a path and has left some nodes, the latest first. -/
structure Search.Inv (arrows : List (α × α)) (path left : List α) (s : Search α) : Prop where
  active_eq : s.active = path.reverse
  nodup : s.visited.Nodup
  sublist : path.Sublist s.visited.reverse
  mem_visited : ∀ a, a ∈ s.visited ↔ a ∈ path ∨ a ∈ left
  subset : s.visited ⊆ nodes arrows
  chain : path.IsChain (Arrow arrows)
  settled : Settled arrows s.cycles left
  closed : ∀ c ∈ s.cycles, ClosedChain arrows s.visited.reverse c
  distinct : s.cycles.Nodup

theorem Search.Inv.init (arrows : List (α × α)) : Search.Inv arrows [] [] {} where
  active_eq := rfl
  nodup := nodup_nil
  sublist := List.Sublist.refl _
  mem_visited := by simp
  subset := by simp
  chain := isChain_nil
  settled := trivial
  closed := by simp
  distinct := nodup_nil

namespace Search.Inv

variable {path : List α} {s : Search α}

theorem mem_active (h : s.Inv arrows path left) : b ∈ s.active ↔ b ∈ path := by
  rw [h.active_eq, mem_reverse]

theorem path_nodup (h : s.Inv arrows path left) : path.Nodup := h.sublist.nodup (nodup_reverse.mpr h.nodup)

theorem length_path_lt (h : s.Inv arrows path left) (ha : a ∉ s.visited) (hn : a ∈ nodes arrows) :
    path.length < 2 * arrows.length := by
  have hap : a ∉ path := fun hp => ha ((h.mem_visited a).mpr (.inl hp))
  have hnodup : (a :: path).Nodup := nodup_cons.mpr ⟨hap, h.path_nodup⟩
  have hsub : a :: path ⊆ nodes arrows := by
    refine cons_subset.mpr ⟨hn, fun x hx => ?_⟩
    exact h.subset ((h.mem_visited x).mpr (.inl hx))
  have hlen := (subperm_of_subset hnodup hsub).length_le
  rw [length_nodes] at hlen
  exact hlen

theorem enter [BEq α] (h : s.Inv arrows path left) (ha : a ∉ s.visited) (hn : a ∈ nodes arrows)
    (hc : (path ++ [a]).IsChain (Arrow arrows)) : (s.enter a).Inv arrows (path ++ [a]) left where
  active_eq := by simp [Search.enter, h.active_eq]
  nodup := nodup_cons.mpr ⟨ha, h.nodup⟩
  sublist := by
    show (path ++ [a]).Sublist (a :: s.visited).reverse
    rw [reverse_cons]
    exact h.sublist.append (List.Sublist.refl _)
  mem_visited x := by
    show x ∈ a :: s.visited ↔ x ∈ path ++ [a] ∨ x ∈ left
    rw [mem_cons, h.mem_visited, mem_append, mem_singleton]
    tauto
  subset := cons_subset.mpr ⟨hn, h.subset⟩
  chain := hc
  settled := h.settled
  closed c hcs := (h.closed c hcs).mono (by
    show s.visited.reverse.Sublist (a :: s.visited).reverse
    rw [reverse_cons]
    exact sublist_append_left _ _)
  distinct := h.distinct

theorem leave [BEq α] [LawfulBEq α] (h : s.Inv arrows (path ++ [a]) left)
    (hall : ∀ b, Arrow arrows a b → Handled left s.cycles a b) :
    ∃ s', s.leave? a = some s' ∧ s'.Inv arrows path (a :: left) ∧ s'.cycles = s.cycles := by
  have hact : s.active = a :: path.reverse := by rw [h.active_eq]; simp
  refine ⟨{ s with active := path.reverse }, ?_, ?_, rfl⟩
  · simp [Search.leave?, hact]
  · exact { h with
      active_eq := rfl
      sublist := (sublist_append_left path [a]).trans h.sublist
      mem_visited := fun x => by
        rw [h.mem_visited, mem_append, mem_singleton, mem_cons]
        tauto
      chain := h.chain.left_of_append
      settled := ⟨hall, h.settled⟩ }

theorem addCycle [BEq α] [LawfulBEq α] {c : List α} (h : s.Inv arrows path left)
    (hc : ClosedChain arrows s.visited.reverse c) :
    (s.addCycle c).Inv arrows path left ∧ s.cycles ⊆ (s.addCycle c).cycles ∧ c ∈ (s.addCycle c).cycles := by
  unfold Search.addCycle
  split
  next hin => exact ⟨h, List.Subset.refl _, contains_iff_mem.mp hin⟩
  next hout =>
    have hnew : c ∉ s.cycles := fun hm => hout (contains_iff_mem.mpr hm)
    have hsub : s.cycles ⊆ s.cycles ++ [c] := subset_append_left _ _
    refine ⟨{ h with settled := h.settled.mono hsub, closed := ?_, distinct := ?_ }, hsub, by simp⟩
    · rw [forall_mem_append, forall_mem_singleton]
      exact ⟨h.closed, hc⟩
    · simpa using h.distinct.concat hnew

end Search.Inv

/-! ### Closing a cycle -/

section Lawful

variable [BEq α] [LawfulBEq α] {path : List α} {s : Search α}

theorem fromNode?_of_mem (h : b ∈ path) :
    ∃ front rest, path = front ++ b :: rest ∧ fromNode? b path = some (b :: rest) := by
  induction path with
  | nil => cases h
  | cons x path ih =>
    unfold fromNode?
    by_cases hx : x = b
    · subst hx
      exact ⟨[], path, rfl, by simp⟩
    · have hb : b ∈ path := (mem_cons.mp h).resolve_left fun e => hx e.symm
      obtain ⟨front, rest, hpath, hfrom⟩ := ih hb
      exact ⟨x :: front, rest, by rw [hpath]; rfl, by simp [hx, hfrom]⟩

/-- An arrow from the end of the path to a node of the path closes a cycle: looking that node up on the path always
succeeds, and the cycle is listed afterwards. -/
theorem Search.Inv.close (h : s.Inv arrows (path ++ [a]) left) (hb : b ∈ path ++ [a]) (hab : Arrow arrows a b) :
    ∃ s', s.close? (path ++ [a]) b = some s' ∧ s'.Inv arrows (path ++ [a]) left ∧ s.cycles ⊆ s'.cycles ∧
      Handled left s'.cycles a b := by
  obtain ⟨front, rest, hpath, hfrom⟩ := fromNode?_of_mem hb
  have hend : (b :: rest).getLast? = some a := by
    rw [← getLast?_append_of_ne_nil front (by simp), ← hpath]
    simp
  have hchain : (b :: rest ++ [b]).IsChain (Arrow arrows) :=
    isChain_concat (h.chain.suffix ⟨front, hpath.symm⟩) hend hab
  have hclosed : ClosedChain arrows s.visited.reverse (b :: rest ++ [b]) := by
    refine ⟨b, rest, rfl, List.Sublist.trans ?_ h.sublist, hchain⟩
    rw [hpath]
    exact sublist_append_right _ _
  obtain ⟨hinv, hsub, hmem⟩ := h.addCycle hclosed
  refine ⟨s.addCycle (b :: rest ++ [b]), ?_, hinv, hsub, .inr ⟨_, hmem, ?_, ?_⟩⟩
  · simp [Search.close?, hfrom]
  · exact mem_append_left _ (mem_of_getLast? hend)
  · simp

/-! ### Runs of the search -/

def Leads (arrows : List (α × α)) (path left : List α) (s : Search α) (r : Option (Search α))
    (P : List α → List (List α) → Prop) : Prop :=
  ∃ s' left', r = some s' ∧ s'.Inv arrows path left' ∧ left ⊆ left' ∧ s.cycles ⊆ s'.cycles ∧ P left' s'.cycles

def Visits (arrows : List (α × α)) (path : List α) (visit : α → Search α → Option (Search α)) : Prop :=
  ∀ b s left, s.Inv arrows path left → b ∉ s.visited → b ∈ nodes arrows → (path ++ [b]).IsChain (Arrow arrows) →
    Leads arrows path left s (visit b s) fun left' _ => b ∈ left'

theorem follow_leads {visit : α → Search α → Option (Search α)} (hv : Visits arrows (path ++ [a]) visit)
    (h : s.Inv arrows (path ++ [a]) left) (hab : Arrow arrows a b) :
    Leads arrows (path ++ [a]) left s (follow visit (path ++ [a]) s b) fun left' cs => Handled left' cs a b := by
  unfold follow
  by_cases hseen : b ∈ s.visited
  · rw [if_neg (by simpa using hseen)]
    by_cases hact : b ∈ path ++ [a]
    · rw [if_pos (contains_iff_mem.mpr (h.mem_active.mpr hact))]
      obtain ⟨s', hs', hinv, hsub, hhandled⟩ := h.close hact hab
      exact ⟨s', left, hs', hinv, List.Subset.refl _, hsub, hhandled⟩
    · rw [if_neg fun hc => hact (h.mem_active.mp (contains_iff_mem.mp hc))]
      have hleft : b ∈ left := ((h.mem_visited b).mp hseen).resolve_left hact
      exact ⟨s, left, rfl, h, List.Subset.refl _, List.Subset.refl _, .inl hleft⟩
  · rw [if_pos (by simpa using hseen)]
    have hchain : (path ++ [a] ++ [b]).IsChain (Arrow arrows) := isChain_concat h.chain (by simp) hab
    obtain ⟨s', left', hs', hinv, hl, hc, hb⟩ := hv b s left h hseen hab.target_mem hchain
    exact ⟨s', left', hs', hinv, hl, hc, .inl hb⟩

omit [BEq α] [LawfulBEq α] in
/-- What each step of a fold leads to, and later steps cannot undo, the fold leads to for all items. -/
theorem foldlM_leads {step : Search α → α → Option (Search α)} {P : α → List α → List (List α) → Prop}
    (hmono : ∀ b left left' cs cs', P b left cs → left ⊆ left' → cs ⊆ cs' → P b left' cs') (bs : List α)
    (hstep : ∀ b ∈ bs, ∀ s left, s.Inv arrows path left → Leads arrows path left s (step s b) (P b))
    (h : s.Inv arrows path left) :
    Leads arrows path left s (bs.foldlM step s) fun left' cs => ∀ b ∈ bs, P b left' cs := by
  induction bs generalizing s left with
  | nil => exact ⟨s, left, rfl, h, List.Subset.refl _, List.Subset.refl _, by simp⟩
  | cons b bs ih =>
    obtain ⟨s₁, left₁, hs₁, hinv₁, hl₁, hc₁, hb⟩ := hstep b (by simp) s left h
    obtain ⟨s₂, left₂, hs₂, hinv₂, hl₂, hc₂, hrest⟩ := ih (fun x hx => hstep x (by simp [hx])) hinv₁
    refine ⟨s₂, left₂, ?_, hinv₂, List.Subset.trans hl₁ hl₂, List.Subset.trans hc₁ hc₂, ?_⟩
    · rw [foldlM_cons, hs₁]
      exact hs₂
    · exact forall_mem_cons.mpr ⟨hmono b left₁ left₂ s₁.cycles s₂.cycles hb hl₂ hc₂, hrest⟩

theorem foldlM_follow_leads {visit : α → Search α → Option (Search α)} (hv : Visits arrows (path ++ [a]) visit)
    (bs : List α) (h : s.Inv arrows (path ++ [a]) left) (hbs : ∀ b ∈ bs, Arrow arrows a b) :
    Leads arrows (path ++ [a]) left s (bs.foldlM (follow visit (path ++ [a])) s)
      fun left' cs => ∀ b ∈ bs, Handled left' cs a b := by
  refine foldlM_leads ?_ bs ?_ h
  · intro b left left' cs cs' hb hl hc
    exact hb.mono hl hc
  · intro b hb s left h
    exact follow_leads hv h (hbs b hb)

theorem mem_targets : b ∈ targets arrows a ↔ Arrow arrows a b := by
  simp [targets, Arrow]

/-- A search from a node that was not seen ends with the node left, if its depth and the path make up the bound. -/
theorem search_leads (fuel : Nat) (path : List α) (hf : bound arrows ≤ fuel + path.length) :
    Visits arrows path (search arrows fuel path) := by
  -- The path grows by a node for each level of depth, so the sum in `hf` stays the same.
  induction fuel generalizing path with
  | zero =>
    intro a s left h ha hn _
    have := h.length_path_lt ha hn
    simp only [bound] at hf
    omega
  | succ fuel ih =>
    intro a s left h ha hn hchain
    have hv : Visits arrows (path ++ [a]) (search arrows fuel (path ++ [a])) := by
      apply ih
      rw [length_append, length_singleton]
      omega
    obtain ⟨s₁, left₁, hs₁, hinv₁, hl₁, hc₁, hall⟩ :=
      foldlM_follow_leads hv (targets arrows a) (h.enter ha hn hchain) fun b hb => mem_targets.mp hb
    obtain ⟨s₂, hs₂, hinv₂, hcycles⟩ := hinv₁.leave fun b hb => hall b (mem_targets.mpr hb)
    refine ⟨s₂, a :: left₁, ?_, hinv₂, subset_cons_of_subset a hl₁, ?_, by simp⟩
    · show ((targets arrows a).foldlM (follow (search arrows fuel (path ++ [a])) (path ++ [a])) (s.enter a)).bind
        (fun s => s.leave? a) = some s₂
      rw [hs₁]
      exact hs₂
    · rw [hcycles]
      exact hc₁

/-! ### The whole graph -/

theorem mem_distinctFrom {seen as : List α} : a ∈ distinctFrom seen as ↔ a ∈ as ∧ a ∉ seen := by
  induction as generalizing seen with
  | nil => simp [distinctFrom]
  | cons x as ih =>
    unfold distinctFrom
    split <;> grind

theorem mem_sources : a ∈ sources arrows ↔ ∃ b, Arrow arrows a b := by
  simp [sources, mem_distinctFrom, Arrow]

theorem searchSource_leads (h : s.Inv arrows [] left) (ha : a ∈ nodes arrows) :
    Leads arrows [] left s (searchSource arrows s a) fun left' _ => a ∈ left' := by
  unfold searchSource
  by_cases hseen : a ∈ s.visited
  · rw [if_pos (by simpa using hseen)]
    have hleft : a ∈ left := ((h.mem_visited a).mp hseen).resolve_left (by simp)
    exact ⟨s, left, rfl, h, List.Subset.refl _, List.Subset.refl _, hleft⟩
  · rw [if_neg (by simpa using hseen)]
    exact search_leads (bound arrows) [] (by simp) a s left h hseen ha (isChain_singleton a)

theorem foldlM_searchSource_leads (as : List α) (h : s.Inv arrows [] left) (has : ∀ a ∈ as, a ∈ nodes arrows) :
    Leads arrows [] left s (as.foldlM (searchSource arrows) s) fun left' _ => ∀ a ∈ as, a ∈ left' := by
  refine foldlM_leads ?_ as ?_ h
  · intro a left left' _ _ ha hl _
    exact hl ha
  · intro a ha s left h
    exact searchSource_leads h (has a ha)

theorem cycles?_leads (arrows : List (α × α)) :
    ∃ (s : Search α) (left : List α), cycles? arrows = some s.cycles ∧ s.Inv arrows [] left ∧
      ∀ a b, Arrow arrows a b → a ∈ left := by
  have hsources : ∀ a ∈ sources arrows, a ∈ nodes arrows := by
    intro a ha
    obtain ⟨b, hb⟩ := mem_sources.mp ha
    exact hb.source_mem
  obtain ⟨s, left, hs, hinv, _, _, hall⟩ := foldlM_searchSource_leads (sources arrows) (Search.Inv.init arrows) hsources
  refine ⟨s, left, ?_, hinv, fun a b hab => hall a (mem_sources.mpr ⟨b, hab⟩)⟩
  rw [cycles?, hs]
  rfl

end Lawful

end CodeAtlas.Graph
