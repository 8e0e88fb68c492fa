import CodeAtlas.Proofs.Diagram.MessageScope
import CodeAtlas.Proofs.Diagram.UseCaseScope

/-!
# Identifiers and labels

Sequence and use case diagrams give every label an identifier in which a low line stands for whatever is neither a
letter nor a number, and arrows join identifiers.  Two labels have one identifier if and only if they have one role and
are alike.
-/

namespace CodeAtlas

open List

open Loose (of_bind of_pure foldlM_invariant)

namespace Identifier

/-- Texts that differ only in characters that are neither letters nor numbers. -/
def Alike (s t : String) : Prop :=
  Forall₂ (fun c d => c = d ∨ isAlnum c = false ∧ isAlnum d = false) s.toList t.toList

theorem plain_eq_iff {s t : String} : plain s = plain t ↔ Alike s t := by
  have hchar : ∀ c d : Char, (if isAlnum c then c else '_') = (if isAlnum d then d else '_') ↔
      c = d ∨ isAlnum c = false ∧ isAlnum d = false := by
    have hlow : isAlnum '_' = false := by decide
    intro c d
    cases hc : isAlnum c <;> cases hd : isAlnum d <;> grind
  rw [plain, plain, String.ofList_inj, ← forall₂_eq_eq_eq, forall₂_map_left_iff, forall₂_map_right_iff]
  simp only [hchar]
  rfl

theorem ofValue_text (s : String) : ofValue (.text s) = .ok (plain s) := by
  have hparts : ∀ cs : List Char, (cs.map fun c => Value.text (String.singleton c)).mapM part =
      .ok (cs.map fun c => String.singleton (if isAlnum c then c else '_')) := by
    intro cs
    induction cs with
    | nil => rfl
    | cons c cs ih =>
      have hpart : part (.text (String.singleton c)) = .ok (String.singleton (if isAlnum c then c else '_')) := by
        cases hc : isAlnum c <;> simp [part, Value.textFor, Value.text, hc, pure, Except.pure]
      rw [map_cons, mapM_cons, hpart, Loose.ok_bind, ih]
      rfl
  rw [ofValue, show (Value.text s).items = .ok _ from rfl, Loose.ok_bind, hparts, Loose.ok_bind]
  refine congrArg Except.ok (String.toList_inj.mp ?_)
  have hempty : "".toList = [] := rfl
  rw [Text.toList_join, hempty, Chars.join_nil, map_map, plain, String.toList_ofList, ← flatMap_def]
  simp only [Function.comp_def, String.toList_singleton]
  exact map_eq_flatMap.symm

end Identifier

/-! ### Labels -/

/-- A line declares an identifier for a label. -/
def Line.Labels (l : Line) (d : Declarator) (identifier label : String) : Prop :=
  l = .declares d identifier (" as \"" ++ label ++ "\"") ∨
    l = .inner (.declares d identifier (" as \"" ++ label ++ "\""))

/-- Every identifier that is joined is declared for a label, and two labels are declared by one identifier if and only
if they have one role and are alike. -/
structure IdentifiesBy (alike : String → String → Prop) (ls : List Line) : Prop where
  labelled : ∀ l ∈ ls, ∀ i ∈ l.ends, ∃ m ∈ ls, ∃ d a, m.Labels d i a
  eq_iff : ∀ l ∈ ls, ∀ m ∈ ls, ∀ d e i j a b, l.Labels d i a → m.Labels e j b → (i = j ↔ d = e ∧ alike a b)

variable {R : Declarator → String → String → Prop} {alike : String → String → Prop} {l : Line} {ls : List Line}
  {d e : Declarator} {i j a b : String}

/-- What a line declares is a label with a role and an identifier that `R` allows. -/
def Line.IsEntry (R : Declarator → String → String → Prop) (l : Line) : Prop :=
  ∀ i, l.declared? = some i → ∃ d a, R d i a ∧ l.Labels d i a

theorem Line.isEntry_of_none (h : l.declared? = none) : l.IsEntry R := by
  intro i hi
  cases h.symm.trans hi

theorem Line.Labels.declared? (h : l.Labels d i a) : l.declared? = some i := by
  rcases h with rfl | rfl <;> rfl

theorem Line.Labels.unique (h : l.Labels d i a) (h' : l.Labels e i b) : d = e ∧ a = b := by
  have hquoted : ∀ {s t : String}, " as \"" ++ s ++ "\"" = " as \"" ++ t ++ "\"" → s = t := fun heq =>
    (String.append_right_inj _).mp ((String.append_left_inj _).mp heq)
  rcases h with rfl | rfl <;> rcases h' with h' | h' <;> injection h'
  next hd _ hrest => exact ⟨hd, hquoted hrest⟩
  next h' =>
    injection h' with hd _ hrest
    exact ⟨hd, hquoted hrest⟩

theorem IdentifiesBy.of_isEntry (hR : ∀ d e i j a b, R d i a → R e j b → (i = j ↔ d = e ∧ alike a b))
    (hends : ∀ l ∈ ls, l.ends ⊆ declaredNames ls) (h : ∀ l ∈ ls, l.IsEntry R) : IdentifiesBy alike ls := by
  refine ⟨fun l hl i hi => ?_, fun l hl m hm d e i j a b hfirst hsecond => ?_⟩
  · obtain ⟨m, hm, hname⟩ := mem_filterMap.mp (hends l hl hi)
    obtain ⟨d, a, _, hlabels⟩ := h m hm i hname
    exact ⟨m, hm, d, a, hlabels⟩
  · obtain ⟨d', a', hi, hl⟩ := h l hl i hfirst.declared?
    obtain ⟨e', b', hj, hm⟩ := h m hm j hsecond.declared?
    obtain ⟨rfl, rfl⟩ := hl.unique hfirst
    obtain ⟨rfl, rfl⟩ := hm.unique hsecond
    exact hR _ _ _ _ _ _ hi hj

/-! ### Sequence diagrams -/

namespace Sequence

def IsOwn (d : Declarator) (i label : String) : Prop :=
  d = (if isActor label then .actor else .participant) ∧ i = identifier label

theorem isOwn_eq_iff (ha : IsOwn d i a) (hb : IsOwn e j b) : i = j ↔ d = e ∧ Identifier.Alike a b := by
  have hmarks : ∀ s t : String, "ACT" ++ "_" ++ s ≠ "P" ++ "_" ++ t := by
    intro s t h
    have hlist := congrArg String.toList h
    simp only [String.toList_append] at hlist
    cases hlist
  rw [ha.1, ha.2, hb.1, hb.2, identifier, identifier, ← Identifier.plain_eq_iff]
  cases isActor a <;> cases isActor b
  · simp [String.append_right_inj]
  · simpa using (hmarks _ _).symm
  · simpa using hmarks _ _
  · simp [String.append_right_inj]

theorem identifiesBy_ofFlows {fs : List Value} {opening : List Line} (hopening : ∀ l ∈ opening, ∃ s, l = .plain s)
    (h : ofFlows fs = .ok ls) : IdentifiesBy Identifier.Alike (opening ++ ls ++ [.close]) := by
  obtain ⟨names, messages, rfl, _, hmessages⟩ := ofFlows_ok h
  -- a line is plain, declares a participant, or is one of a message between participants
  have hlines : ∀ l ∈ opening ++ (names.map declaration ++ [.empty] ++ messages.flatten) ++ [.close],
      (∃ s, l = .plain s) ∨ (∃ s, l = declaration s) ∨ ∃ flow, ∃ s ∈ names, ∃ t ∈ names, FlowLine flow s t l := by
    intro l hl
    simp only [mem_append, mem_singleton, mem_map, mem_flatten] at hl
    rcases hl with (hl | (⟨s, _, rfl⟩ | rfl) | ⟨own, hown, hl⟩) | rfl
    · exact .inl (hopening l hl)
    · exact .inr (.inl ⟨s, rfl⟩)
    · exact .inl ⟨_, rfl⟩
    · obtain ⟨f, _, flow, _, s, hs, t, ht, hall, _⟩ := hmessages own hown
      exact .inr (.inr ⟨flow, s, hs, t, ht, hall l hl⟩)
    · exact .inl ⟨_, rfl⟩
  refine .of_isEntry (fun _ _ _ _ _ _ => isOwn_eq_iff) (fun l hl => ?_) fun l hl => ?_
  · rcases hlines l hl with ⟨s, rfl⟩ | ⟨s, rfl⟩ | ⟨flow, s, hs, t, ht, hline⟩
    · exact nil_subset _
    · exact nil_subset _
    · have hdeclared : ∀ s ∈ names, identifier s ∈
          declaredNames (opening ++ (names.map declaration ++ [.empty] ++ messages.flatten) ++ [.close]) := fun s hs =>
        mem_declaredNames (l := declaration s) (by simp [mem_map_of_mem hs]) rfl
      have hboth := pair_subset (hdeclared s hs) (hdeclared t ht)
      exact List.Subset.trans hline.ends_subset hboth
  · rcases hlines l hl with ⟨s, rfl⟩ | ⟨s, rfl⟩ | ⟨flow, s, hs, t, ht, hline⟩
    · exact Line.isEntry_of_none rfl
    · intro i hi
      cases hi
      exact ⟨_, s, ⟨rfl, rfl⟩, .inl rfl⟩
    · exact Line.isEntry_of_none (by cases hline <;> rfl)

end Sequence

/-! ### Use case diagrams -/

namespace UseCaseDiagram

/-- What the identifier of a label is made of. -/
def named (label : String) : String := if label = "" then "UseCase" else label

def identifier (mark label : String) : String := mark ++ "_" ++ Identifier.plain (named label)

theorem marked_text (mark label : String) :
    Identifier.marked mark "UseCase" (.text label) = .ok (identifier mark label) := by
  have htext : (Value.text label).orText "UseCase" = .text (named label) := by
    unfold named
    split
    next h =>
      cases h
      rfl
    next h => simp [Value.orText, Value.orElse, Value.truthy, Value.text, Atom.truthy, h]
  rw [Identifier.marked, htext, Identifier.ofValue_text]
  rfl

def IsOwn (d : Declarator) (i label : String) : Prop :=
  d = .actor ∧ i = identifier "ACT" label ∨ d = .useCase ∧ i = identifier "UC" label

def Alike (s t : String) : Prop := Identifier.Alike (named s) (named t)

theorem isOwn_eq_iff (ha : IsOwn d i a) (hb : IsOwn e j b) : i = j ↔ d = e ∧ Alike a b := by
  have hmarks : ∀ s t : String, "ACT" ++ "_" ++ s ≠ "UC" ++ "_" ++ t := by
    intro s t h
    have hlist := congrArg String.toList h
    simp only [String.toList_append] at hlist
    cases hlist
  unfold Alike
  rw [← Identifier.plain_eq_iff]
  rcases ha with ⟨rfl, rfl⟩ | ⟨rfl, rfl⟩ <;> rcases hb with ⟨rfl, rfl⟩ | ⟨rfl, rfl⟩ <;> unfold identifier
  · simp [String.append_right_inj]
  · simpa using hmarks _ _
  · simpa using (hmarks _ _).symm
  · simp [String.append_right_inj]

/-- A use case mentions an actor, its own label or a use case that it refers to. -/
def Mentions (useCase v : Value) : Prop := actorOf useCase = .ok v ∨ labelOf useCase = .ok v ∨
  ∃ key ∈ ["supportingActors", "includes", "extends"], ∃ vs, listed useCase key = .ok vs ∧ v ∈ vs

/-- All labels of some use cases are texts. -/
def HaveTexts (useCases : List Value) : Prop := ∀ u ∈ useCases, ∀ v, Mentions u v → ∃ s, v = .text s

/-- Every label of a table is a text and has its own identifier. -/
def Names.AreOwn (mark : String) (names : Names) : Prop := ∀ n ∈ names, ∃ a, n = (.text a, identifier mark a)

variable {mark : String} {names : Names} {u v : Value}

theorem Names.AreOwn.add (h : names.AreOwn mark) : (names.add (.text a) (identifier mark a)).AreOwn mark := fun n hn =>
  (Names.mem_add hn).elim (h n) fun heq => ⟨a, heq⟩

theorem areOwn_addActor {names' : Names} (hv : ∃ s, v = .text s) (h : names.AreOwn "ACT")
    (hadd : addActor names v = .ok names') : names'.AreOwn "ACT" := by
  obtain ⟨s, rfl⟩ := hv
  obtain ⟨i, hi, hadd⟩ := of_bind hadd
  cases (marked_text "ACT" s).symm.trans hi
  cases hadd
  exact h.add

theorem areOwn_declare {x y : Declared} (htexts : ∀ v, Mentions u v → ∃ s, v = .text s)
    (hx : x.actors.AreOwn "ACT" ∧ x.cases.AreOwn "UC") (h : declare x u = .ok y) :
    y.actors.AreOwn "ACT" ∧ y.cases.AreOwn "UC" := by
  obtain ⟨actor, hactor, h⟩ := of_bind h
  obtain ⟨first, hfirst, h⟩ := of_bind h
  obtain ⟨supporting, hsupporting, h⟩ := of_bind h
  obtain ⟨all, hall, h⟩ := of_bind h
  obtain ⟨label, hlabel, h⟩ := of_bind h
  obtain ⟨i, hi, h⟩ := of_bind h
  obtain ⟨k, hk, h⟩ := of_bind h
  cases h
  obtain ⟨t, rfl⟩ := htexts label (.inr (.inl hlabel))
  cases hk
  cases (marked_text "UC" t).symm.trans hi
  refine ⟨foldlM_invariant (Names.AreOwn "ACT") (fun _ v _ hv => areOwn_addActor (htexts v ?_))
    (areOwn_addActor (htexts actor (.inl hactor)) hx.1 hfirst) hall, hx.2.add⟩
  exact .inr (.inr ⟨_, by simp, supporting, hsupporting, hv⟩)

/-- A line of a draft that declares nothing but labels with their own identifiers. -/
abbrev IsOwnLine (l : Line) : Prop := l.IsEntry IsOwn

variable {x y : Draft} {source word : String}

theorem isOwnLine_link (hv : ∃ s, v = .text s) (hx : ∀ l ∈ x.lines, IsOwnLine l)
    (h : Draft.link source word x v = .ok y) : ∀ l ∈ y.lines, IsOwnLine l := by
  obtain ⟨s, rfl⟩ := hv
  obtain ⟨⟨target, z⟩, hrefer, h⟩ := of_bind h
  cases h
  have hz : ∀ l ∈ z.lines, IsOwnLine l := by
    obtain ⟨k, hk, hrefer⟩ := of_bind hrefer
    cases hk
    split at hrefer
    · cases of_pure hrefer
      exact hx
    · obtain ⟨i, hi, hrefer⟩ := of_bind hrefer
      cases (marked_text "UC" s).symm.trans hi
      cases of_pure hrefer
      intro l hl
      rcases Draft.mem_addAboveLast.mp hl with hl | rfl
      · exact hx l hl
      · intro i hi
        cases hi
        exact ⟨_, s, .inr ⟨rfl, rfl⟩, .inr rfl⟩
  intro l hl
  rcases mem_append.mp hl with hl | hl
  · exact hz l hl
  · cases mem_singleton.mp hl
    exact Line.isEntry_of_none rfl

theorem isOwnLine_foldl_add {ids : List String} (hx : ∀ l ∈ x.lines, IsOwnLine l) :
    ∀ l ∈ (ids.foldl (fun d a => d.add (.joins a " --> " source "")) x).lines, IsOwnLine l := by
  induction ids generalizing x with
  | nil => exact hx
  | cons a ids ih =>
    refine ih fun l hl => ?_
    rcases mem_append.mp hl with hl | hl
    · exact hx l hl
    · cases mem_singleton.mp hl
      exact Line.isEntry_of_none rfl

theorem isOwnLine_addCase {actors : Names} (htexts : ∀ v, Mentions u v → ∃ s, v = .text s)
    (hx : ∀ l ∈ x.lines, IsOwnLine l) (h : Draft.addCase actors x u = .ok y) : ∀ l ∈ y.lines, IsOwnLine l := by
  obtain ⟨_, _, h⟩ := of_bind h
  obtain ⟨_, _, h⟩ := of_bind h
  obtain ⟨_, _, h⟩ := of_bind h
  obtain ⟨_, _, h⟩ := of_bind h
  obtain ⟨_, _, h⟩ := of_bind h
  obtain ⟨includes, hincludes, h⟩ := of_bind h
  obtain ⟨linked, hlinked, h⟩ := of_bind h
  obtain ⟨extended, hextended, h⟩ := of_bind h
  have hlinks : ∀ {source word key vs x y}, key ∈ ["supportingActors", "includes", "extends"] → listed u key = .ok vs →
      (∀ l ∈ x.lines, IsOwnLine l) → vs.foldlM (Draft.link source word) x = .ok y → ∀ l ∈ y.lines, IsOwnLine l :=
    fun hkey hvs hx h => foldlM_invariant (fun x : Draft => ∀ l ∈ x.lines, IsOwnLine l)
      (fun _ v _ hv => isOwnLine_link (htexts v (.inr (.inr ⟨_, hkey, _, hvs, hv⟩)))) hx h
  exact hlinks (by simp) hextended (hlinks (by simp) hincludes (isOwnLine_foldl_add hx) hlinked) h

theorem isOwnLine_ofListed {start : List Line} {schema : Value} {useCases : List Value}
    (hstart : ∀ l ∈ start, l.declared? = none) (htexts : HaveTexts useCases)
    (h : ofListed start schema useCases = .ok ls) : ∀ l ∈ ls, IsOwnLine l := by
  obtain ⟨known, hknown, h⟩ := of_bind h
  obtain ⟨system, _, h⟩ := of_bind h
  obtain ⟨draft, hdraft, h⟩ := of_bind h
  cases h
  have hempty : Names.AreOwn "ACT" ({} : Declared).actors ∧ Names.AreOwn "UC" ({} : Declared).cases :=
    ⟨forall_mem_nil _, forall_mem_nil _⟩
  obtain ⟨hactors, hcases⟩ := foldlM_invariant (fun x : Declared => x.actors.AreOwn "ACT" ∧ x.cases.AreOwn "UC")
    (fun _ u _ hu => areOwn_declare (htexts u hu)) hempty hknown
  refine foldlM_invariant (fun x : Draft => ∀ l ∈ x.lines, IsOwnLine l)
    (fun _ u _ hu => isOwnLine_addCase (htexts u hu)) (fun l hl => ?_) hdraft
  simp only [mem_append, mem_map, mem_cons, not_mem_nil, or_false] at hl
  rcases hl with (((hl | ⟨n, hn, rfl⟩) | rfl | rfl) | ⟨n, hn, rfl⟩) | rfl
  · exact Line.isEntry_of_none (hstart l hl)
  · obtain ⟨a, rfl⟩ := hactors n hn
    intro i hi
    cases hi
    exact ⟨_, a, .inl ⟨rfl, rfl⟩, .inl rfl⟩
  · exact Line.isEntry_of_none rfl
  · exact Line.isEntry_of_none rfl
  · obtain ⟨a, rfl⟩ := hcases n hn
    intro i hi
    cases hi
    exact ⟨_, a, .inr ⟨rfl, rfl⟩, .inr rfl⟩
  · exact Line.isEntry_of_none rfl

end UseCaseDiagram

/-! ### Diagrams -/

/-- **When two labels have one identifier.**  In a sequence diagram of flows, and in a diagram of listed use cases whose
labels are texts, every end of an arrow is the identifier of a label, and two labels have one identifier if and only if
they have one role and differ only in characters that are neither letters nor numbers. -/
theorem identifiesBy_lines (style : Style) (schema : Value) :
    (∀ fs ls, Sequence.flows schema = .ok fs → fs ≠ [] → Sequence.lines style schema = .ok ls →
      IdentifiesBy Identifier.Alike ls) ∧
    ∀ useCases ls, schema.firstOf ["usecases"] (.list []) = .ok (.list useCases) → useCases ≠ [] →
      UseCaseDiagram.HaveTexts (useCases.take UseCaseDiagram.listedLimit) → UseCaseDiagram.lines style schema = .ok ls →
      IdentifiesBy UseCaseDiagram.Alike ls := by
  refine ⟨fun fs ls hfs hne h => ?_, fun useCases ls hlisted hne htexts h => ?_⟩
  · rw [Sequence.lines, hfs, Loose.ok_bind] at h
    obtain ⟨_, _, h⟩ := of_bind h
    simp only [isEmpty_eq_false_iff.mpr hne, Bool.not_false, if_true] at h
    obtain ⟨body, hbody, h⟩ := of_bind h
    cases h
    exact Sequence.identifiesBy_ofFlows (by simp [Style.opening, Line.empty]) hbody
  · have hscoped := declaredBeforeUse_iff.mpr (UseCaseDiagram.isScoped_lines h)
    have htruthy : (Value.list useCases).truthy = true := by
      rw [Value.truthy, isEmpty_eq_false_iff.mpr hne]
      rfl
    rw [UseCaseDiagram.lines, hlisted, Loose.ok_bind] at h
    obtain ⟨_, _, h⟩ := of_bind h
    simp only [htruthy, if_true] at h
    obtain ⟨_, hfirst, h⟩ := of_bind h
    cases hfirst
    obtain ⟨_, hitems, h⟩ := of_bind h
    cases hitems
    obtain ⟨body, hbody, h⟩ := of_bind h
    cases h
    have hown := UseCaseDiagram.isOwnLine_ofListed (by simp [Style.opening, Line.declared?, Line.empty]) htexts hbody
    refine .of_isEntry (fun _ _ _ _ _ _ => UseCaseDiagram.isOwn_eq_iff) (fun l hl i hi => ?_) fun l hl => ?_
    · obtain ⟨earlier, later, heq⟩ := append_of_mem hl
      rw [heq]
      exact declaredNames_subset (subset_append_left _ _) (hscoped earlier l later heq i hi)
    · rcases mem_append.mp hl with hl | hl
      · exact hown l hl
      · cases mem_singleton.mp hl
        exact Line.isEntry_of_none rfl

/-- Labels that differ in a mark only. -/
def markedSchema : Value := .ofFields [
  ("sequence_flows", .list [.ofFields [("from", .text "A-B"), ("to", .text "A_B")]]),
  ("usecases", .list [.ofFields [("name", .text "A-B")], .ofFields [("name", .text "A_B")]])]

theorem identifiesBy_lines_marked : (∃ ls, Sequence.lines {} markedSchema = .ok ls ∧ IdentifiesBy Identifier.Alike ls) ∧
    ∃ ls, UseCaseDiagram.lines {} markedSchema = .ok ls ∧ IdentifiesBy UseCaseDiagram.Alike ls := by
  obtain ⟨hflows, hcases⟩ := identifiesBy_lines {} markedSchema
  refine ⟨⟨_, rfl, hflows [_] _ rfl (by simp) rfl⟩, _, rfl, hcases [_, _] _ rfl (by simp) ?_ rfl⟩
  intro u hu v hv
  have hu : u = .ofFields [("name", .text "A-B")] ∨ u = .ofFields [("name", .text "A_B")] := by
    simpa [UseCaseDiagram.listedLimit] using hu
  rcases hu with rfl | rfl <;> rcases hv with hv | hv | ⟨key, hkey, vs, hvs, hv⟩
  all_goals first
    | exact ⟨_, (Except.ok.inj hv).symm⟩
    | simp only [mem_cons, not_mem_nil, or_false] at hkey
      rcases hkey with rfl | rfl | rfl <;> cases hvs <;> cases hv

/-- Two participants have one identifier, and so have two use cases. -/
theorem identifiers_clash :
    (∃ ls, Sequence.lines {} markedSchema = .ok ls ∧ ∃ l ∈ ls, ∃ m ∈ ls,
      l.Labels .participant "P_A_B" "A-B" ∧ m.Labels .participant "P_A_B" "A_B") ∧
    ∃ ls, UseCaseDiagram.lines {} markedSchema = .ok ls ∧ ∃ l ∈ ls, ∃ m ∈ ls,
      l.Labels .useCase "UC_A_B" "A-B" ∧ m.Labels .useCase "UC_A_B" "A_B" := by
  refine ⟨⟨_, rfl, .declares .participant "P_A_B" (" as \"" ++ "A-B" ++ "\""), by decide,
    .declares .participant "P_A_B" (" as \"" ++ "A_B" ++ "\""), by decide, .inl rfl, .inl rfl⟩, _, rfl, ?_⟩
  exact ⟨UseCaseDiagram.caseLine "UC_A_B" "A-B", by decide, UseCaseDiagram.caseLine "UC_A_B" "A_B", by decide,
    .inr rfl, .inr rfl⟩

end CodeAtlas
