import CodeAtlas.Diagram.UseCase
import CodeAtlas.Proofs.Diagram.Scope
import CodeAtlas.Proofs.Value.Loose

/-!
# Use case diagrams declare actors and use cases before their use

The actors and use cases that a schema lists are declared first.  A use case that is only mentioned by another one is
declared where it is first mentioned, one line above the line that was written last, and so above the arrow to it.
-/

namespace CodeAtlas.UseCaseDiagram

open List Names

open Loose (of_bind of_pure)

variable {useCase schema : Value} {actors first names : Names} {label : Atom} {identifier : String} {d e : Draft}
  {l : Line} {ls : List Line}

/-! ### Names -/

theorem Names.mem_of_find? (h : Names.find? names label = some identifier) : ∃ n ∈ names, n.2 = identifier := by
  obtain ⟨n, hn, rfl⟩ := Option.map_eq_some_iff.mp h
  exact ⟨n, mem_of_find?_eq_some hn, rfl⟩

theorem Names.find?_add (names : Names) (label : Atom) (identifier : String) :
    (Names.find? (names.add label identifier) label).isSome := by
  unfold Names.add
  split
  next hfound => exact hfound
  next =>
    unfold Names.find?
    rw [Option.isSome_map, find?_isSome]
    exact ⟨(label, identifier), by simp, label.same_self⟩

theorem Names.find?_add_of_isSome {other : Atom} (h : (Names.find? names label).isSome) :
    (Names.find? (names.add other identifier) label).isSome := by
  unfold Names.add
  split
  · exact h
  · unfold Names.find? at h ⊢
    rw [Option.isSome_map, find?_isSome] at h ⊢
    obtain ⟨n, hn, hsame⟩ := h
    exact ⟨n, mem_append_left _ hn, hsame⟩

theorem Names.mem_add {n : Atom × String} (h : n ∈ names.add label identifier) :
    n ∈ names ∨ n = (label, identifier) := by
  unfold Names.add at h
  split at h
  · exact .inl h
  · rcases mem_append.mp h with h | h
    · exact .inl h
    · exact .inr (mem_singleton.mp h)

/-! ### Drafts -/

theorem Draft.mem_addAboveLast {m : Line} : m ∈ (d.addAboveLast l).lines ↔ m ∈ d.lines ∨ m = l := by
  have hlines : m ∈ d.lines ↔ m ∈ d.lines.dropLast ∨ m ∈ d.lines.drop (d.lines.length - 1) := by
    rw [dropLast_eq_take, ← mem_append, take_append_drop]
  simp only [Draft.addAboveLast, mem_append, mem_singleton, hlines]
  exact or_right_comm

/-- A draft is in order: its lines declare names before they are used, the actors and the use cases that it knows are
declared, and it still knows those that were declared first. -/
structure Draft.InOrder (actors first : Names) (d : Draft) : Prop where
  lines : IsScoped [] d.lines
  actors : ∀ n ∈ actors, n.2 ∈ declaredNames d.lines
  cases : ∀ n ∈ d.cases, n.2 ∈ declaredNames d.lines
  known : ∀ k, (first.find? k).isSome = true → (d.cases.find? k).isSome = true

namespace Draft.InOrder

theorem add (h : d.InOrder actors first) (hl : l.ends ⊆ declaredNames d.lines) : (d.add l).InOrder actors first := by
  have hmore : declaredNames d.lines ⊆ declaredNames (d.add l).lines := declaredNames_subset (subset_append_left _ _)
  refine ⟨?_, fun n hn => hmore (h.actors n hn), fun n hn => hmore (h.cases n hn), h.known⟩
  refine isScoped_append.mpr ⟨h.lines, .of_ends fun m hm => ?_⟩
  rw [mem_singleton.mp hm, append_nil]
  exact hl

theorem lines_addAboveLast (d : Draft) : d.lines ⊆ (d.addAboveLast l).lines :=
  fun _ hm => mem_addAboveLast.mpr (.inl hm)

/-- A line that joins nothing may be written above the last line. -/
theorem addAboveLast (h : d.InOrder actors first) (hl : l.ends = []) : (d.addAboveLast l).InOrder actors first := by
  have hmore := declaredNames_subset (lines_addAboveLast (l := l) d)
  refine ⟨?_, fun n hn => hmore (h.actors n hn), fun n hn => hmore (h.cases n hn), h.known⟩
  refine IsScoped.insert ?_ hl
  rw [dropLast_eq_take, take_append_drop]
  exact h.lines

variable {v : Value} {source word : String}

theorem refer (h : d.InOrder actors first) (hrefer : d.refer v = .ok (identifier, e)) :
    e.InOrder actors first ∧ identifier ∈ declaredNames e.lines ∧ declaredNames d.lines ⊆ declaredNames e.lines := by
  obtain ⟨key, _, hrefer⟩ := of_bind hrefer
  split at hrefer
  next found hfound =>
    cases of_pure hrefer
    obtain ⟨n, hn, rfl⟩ := mem_of_find? hfound
    exact ⟨h, h.cases n hn, List.Subset.refl _⟩
  next =>
    obtain ⟨own, _, hrefer⟩ := of_bind hrefer
    cases of_pure hrefer
    have habove := h.addAboveLast (l := caseLine identifier v.display) rfl
    have hdeclared : identifier ∈ declaredNames (d.addAboveLast (caseLine identifier v.display)).lines :=
      mem_declaredNames (l := caseLine identifier v.display) (by simp [Draft.addAboveLast]) rfl
    refine ⟨⟨habove.lines, habove.actors, fun n hn => ?_, fun a ha => ?_⟩, hdeclared,
      declaredNames_subset (lines_addAboveLast d)⟩
    · rcases mem_add hn with hn | rfl
      · exact habove.cases n hn
      · exact hdeclared
    · exact find?_add_of_isSome (h.known a ha)

theorem link (h : d.InOrder actors first) (hsource : source ∈ declaredNames d.lines)
    (hlink : Draft.link source word d v = .ok e) :
    e.InOrder actors first ∧ declaredNames d.lines ⊆ declaredNames e.lines := by
  obtain ⟨⟨target, f⟩, hrefer, hlink⟩ := of_bind hlink
  cases hlink
  obtain ⟨hf, htarget, hmore⟩ := h.refer hrefer
  refine ⟨hf.add ?_, List.Subset.trans hmore (declaredNames_subset (subset_append_left _ _))⟩
  exact pair_subset (hmore hsource) htarget

theorem foldlM_link {vs : List Value} (h : d.InOrder actors first)
    (hsource : source ∈ declaredNames d.lines) (hlinks : vs.foldlM (Draft.link source word) d = .ok e) :
    e.InOrder actors first ∧ source ∈ declaredNames e.lines := by
  refine Loose.foldlM_invariant (fun d => d.InOrder actors first ∧ source ∈ declaredNames d.lines) ?_
    ⟨h, hsource⟩ hlinks
  intro b v c _ hb hstep
  obtain ⟨hc, hmore⟩ := hb.1.link hb.2 hstep
  exact ⟨hc, hmore hb.2⟩

theorem foldl_add {ids : List String} (h : d.InOrder actors first)
    (hsource : source ∈ declaredNames d.lines) (hids : ∀ a ∈ ids, ∃ n ∈ actors, n.2 = a) :
    (ids.foldl (fun d a => d.add (.joins a " --> " source "")) d).InOrder actors first ∧
      source ∈ declaredNames (ids.foldl (fun d a => d.add (.joins a " --> " source "")) d).lines := by
  induction ids generalizing d with
  | nil => exact ⟨h, hsource⟩
  | cons a ids ih =>
    obtain ⟨n, hn, rfl⟩ := hids a mem_cons_self
    have hends : (Line.joins n.2 " --> " source "").ends ⊆ declaredNames d.lines :=
      pair_subset (h.actors n hn) hsource
    refine ih (h.add hends) ?_ fun b hb => hids b (mem_cons_of_mem _ hb)
    exact declaredNames_subset (subset_append_left _ _) hsource

/-- **A listed use case keeps a draft in order.** -/
theorem addCase (h : d.InOrder actors first) (hlabel : labelOf useCase = .ok v)
    (hkey : v.key = .ok label) (hknown : (first.find? label).isSome)
    (hadd : Draft.addCase actors d useCase = .ok e) : e.InOrder actors first := by
  obtain ⟨w, hw, hadd⟩ := of_bind hadd
  obtain rfl : w = v := Except.ok.inj (hw.symm.trans hlabel)
  obtain ⟨k, hk, hadd⟩ := of_bind hadd
  obtain rfl : k = label := Except.ok.inj (hk.symm.trans hkey)
  obtain ⟨actor, _, hadd⟩ := of_bind hadd
  obtain ⟨supporting, _, hadd⟩ := of_bind hadd
  obtain ⟨keys, _, hadd⟩ := of_bind hadd
  obtain ⟨includes, _, hadd⟩ := of_bind hadd
  obtain ⟨linked, hlinked, hadd⟩ := of_bind hadd
  obtain ⟨extended, _, hadd⟩ := of_bind hadd
  -- the use case itself was declared at the start
  obtain ⟨source, hfound⟩ := Option.isSome_iff_exists.mp (h.known k hknown)
  rw [hfound, Option.getD_some] at hlinked hadd
  obtain ⟨n, hn, rfl⟩ := mem_of_find? hfound
  have hids : ∀ a ∈ keys.filterMap actors.find?, ∃ m ∈ actors, m.2 = a := by
    intro a ha
    obtain ⟨b, _, hb⟩ := mem_filterMap.mp ha
    exact mem_of_find? hb
  obtain ⟨hjoined, hsource⟩ := h.foldl_add (h.cases n hn) hids
  obtain ⟨hincluded, hsource⟩ := hjoined.foldlM_link hsource hlinked
  exact (hincluded.foldlM_link hsource hadd).1

end Draft.InOrder

/-! ### Listed use cases -/

theorem declare_ok {a b : Declared} (h : declare a useCase = .ok b) :
    (∀ k, (a.cases.find? k).isSome → (b.cases.find? k).isSome) ∧
      ∃ v k, labelOf useCase = .ok v ∧ v.key = .ok k ∧ (b.cases.find? k).isSome := by
  obtain ⟨actor, _, h⟩ := of_bind h
  obtain ⟨actors, _, h⟩ := of_bind h
  obtain ⟨supporting, _, h⟩ := of_bind h
  obtain ⟨all, _, h⟩ := of_bind h
  obtain ⟨v, hv, h⟩ := of_bind h
  obtain ⟨identifier, _, h⟩ := of_bind h
  obtain ⟨k, hk, h⟩ := of_bind h
  cases h
  exact ⟨fun j hj => find?_add_of_isSome hj, v, k, hv, hk, find?_add _ k identifier⟩

theorem foldlM_declare {useCases : List Value} {a b : Declared} (h : useCases.foldlM declare a = .ok b) :
    (∀ k, (a.cases.find? k).isSome → (b.cases.find? k).isSome) ∧
      ∀ u ∈ useCases, ∃ v k, labelOf u = .ok v ∧ v.key = .ok k ∧ (b.cases.find? k).isSome := by
  induction useCases generalizing a with
  | nil =>
    cases h
    exact ⟨fun _ hk => hk, fun u hu => absurd hu not_mem_nil⟩
  | cons u useCases ih =>
    rw [foldlM_cons] at h
    obtain ⟨c, hc, h⟩ := of_bind h
    obtain ⟨hkeep, v, k, hv, hk, hfound⟩ := declare_ok hc
    obtain ⟨hlater, hall⟩ := ih h
    refine ⟨fun j hj => hlater j (hkeep j hj), fun w hw => ?_⟩
    rcases mem_cons.mp hw with rfl | hw
    · exact ⟨v, k, hv, hk, hlater k hfound⟩
    · exact hall w hw

theorem isScoped_ofListed {start : List Line} {useCases : List Value} (hstart : ∀ l ∈ start, l.ends = [])
    (h : ofListed start schema useCases = .ok ls) : IsScoped [] ls := by
  obtain ⟨known, hknown, h⟩ := of_bind h
  obtain ⟨system, _, h⟩ := of_bind h
  dsimp only at h
  obtain ⟨draft, hdraft, h⟩ := of_bind h
  cases h
  have hall := (foldlM_declare hknown).2
  refine (Loose.foldlM_invariant (fun d : Draft => d.InOrder known.actors known.cases) ?_ ?_ hdraft).lines
  · intro b u c hu hb hstep
    obtain ⟨v, k, hv, hkey, hfound⟩ := hall u hu
    exact hb.addCase hv hkey hfound hstep
  · refine ⟨.of_ends_nil fun l hl => ?_, fun n hn => ?_, fun n hn => ?_, fun _ hk => hk⟩
    · simp only [mem_append, mem_map, mem_cons, not_mem_nil, or_false] at hl
      rcases hl with (((hl | ⟨n, _, rfl⟩) | rfl | rfl) | ⟨n, _, rfl⟩) | rfl
      · exact hstart l hl
      · rfl
      · rfl
      · rfl
      · rfl
      · rfl
    · refine mem_declaredNames (l := .declares .actor n.2 (" as \"" ++ n.1.display ++ "\"")) ?_ rfl
      simp only [mem_append, mem_map]
      exact .inl (.inl (.inl (.inr ⟨n, hn, rfl⟩)))
    · refine mem_declaredNames (l := caseLine n.2 n.1.display) ?_ rfl
      simp only [mem_append, mem_map]
      exact .inl (.inr ⟨n, hn, rfl⟩)

/-! ### The diagram -/

theorem isScoped_ofEndpoints {endpoints : List Value} (h : ofEndpoints endpoints = .ok ls) : IsScoped [] ls := by
  obtain ⟨actions, _, h⟩ := of_bind h
  cases h
  refine isScoped_append.mpr ⟨.of_ends_nil (by simp), .flatMap fun a _ => ?_⟩
  simp [IsScoped, declaredNames, Line.declared?, Line.empty]

theorem isScoped_ofDerived (h : ofDerived schema = .ok ls) : IsScoped [] ls := by
  obtain ⟨derived, _, h⟩ := of_bind h
  obtain ⟨system, _, h⟩ := of_bind h
  cases h
  rw [isScoped_append, isScoped_append]
  refine ⟨⟨.of_ends_nil (by simp), .flatMap fun u _ => ?_⟩, .of_ends_nil (by simp)⟩
  simp [IsScoped, declaredNames, caseLine, Line.declared?, Line.empty]

/-- **A use case diagram declares actors and use cases before their use.** -/
theorem isScoped_lines {style : Style} (h : lines style schema = .ok ls) : IsScoped [] ls := by
  have hstart : ∀ l ∈ style.opening ++ [.plain "left to right direction", .plain "' Use Case Diagram", .empty],
      l.ends = [] := by
    simp [Style.opening]
  have hclose : ∀ {ls : List Line}, IsScoped [] ls → IsScoped [] (ls ++ [.close]) := fun h =>
    isScoped_append.mpr ⟨h, .of_ends_nil (by simp)⟩
  have hafter : ∀ {start body : List Line}, (∀ l ∈ start, l.ends = []) → IsScoped [] body →
      IsScoped [] (start ++ body ++ [.close]) := fun hstart hbody =>
    hclose (isScoped_append.mpr ⟨.of_ends_nil hstart, hbody.mono (nil_subset _)⟩)
  unfold lines at h
  generalize style.opening ++ [.plain "left to right direction", .plain "' Use Case Diagram", .empty] = start
    at h hstart
  obtain ⟨useCases, _, h⟩ := of_bind h
  obtain ⟨endpoints, _, h⟩ := of_bind h
  dsimp only at h
  split at h
  · obtain ⟨some, _, h⟩ := of_bind h
    obtain ⟨items, _, h⟩ := of_bind h
    obtain ⟨body, hbody, h⟩ := of_bind h
    cases h
    exact hclose (isScoped_ofListed hstart hbody)
  · split at h
    · obtain ⟨some, _, h⟩ := of_bind h
      obtain ⟨items, _, h⟩ := of_bind h
      obtain ⟨body, hbody, h⟩ := of_bind h
      obtain ⟨body', hbody', h⟩ := of_bind h
      obtain rfl := of_pure hbody'
      cases h
      exact hafter hstart (isScoped_ofEndpoints hbody)
    · obtain ⟨body, hbody, h⟩ := of_bind h
      obtain ⟨body', hbody', h⟩ := of_bind h
      obtain rfl := of_pure hbody'
      cases h
      exact hafter hstart (isScoped_ofDerived hbody)

end CodeAtlas.UseCaseDiagram
