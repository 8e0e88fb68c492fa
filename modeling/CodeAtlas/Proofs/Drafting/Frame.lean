import CodeAtlas.Drafting.Reply
import CodeAtlas.Proofs.Text.Pattern
import CodeAtlas.Proofs.Text.Trim

/-!
# Frames of diagrams

A diagram stands between an opening and a closing word.  `Reply.framed` puts a text into that frame, the cleaning of
each kind then works on lines, and only some kinds are replaced when they have lost the frame.

* **`Reply.isFramed_normal_iff`**: when the diagram of a reply is in its frame.
-/

namespace CodeAtlas.Reply

open List Chars

/-- Blanks aside, a text starts with the opening word. -/
def IsOpened (text : String) : Prop := Text.startsWith (Text.trim text) "@startuml" = true

def IsClosed (text : String) : Prop := Text.endsWith (Text.trim text) "@enduml" = true

/-- Blanks aside, a diagram starts with the opening word and ends with the closing word. -/
def IsFramed (diagram : String) : Prop := IsOpened diagram ∧ IsClosed diagram

instance (text : String) : Decidable (IsOpened text) :=
  inferInstanceAs (Decidable (Text.startsWith (Text.trim text) "@startuml" = true))

instance (text : String) : Decidable (IsClosed text) :=
  inferInstanceAs (Decidable (Text.endsWith (Text.trim text) "@enduml" = true))

instance (diagram : String) : Decidable (IsFramed diagram) :=
  inferInstanceAs (Decidable (IsOpened diagram ∧ IsClosed diagram))

/-! ### The words of the frame -/

theorem isWord_opening : Chars.IsWord "@startuml".toList := .of_all (by decide) (by decide)

theorem isWord_closing : Chars.IsWord "@enduml".toList := .of_all (by decide) (by decide)

variable {text line : String} {kind : DiagramKind} (lines : List String) (first second : String)

theorem isOpened_iff : IsOpened text ↔ Chars.Opens "@startuml".toList text.toList := by
  rw [IsOpened, Text.startsWith, Text.toList_trim, startsWith_iff]
  exact isWord_opening.prefix_trim_iff

theorem isClosed_iff : IsClosed text ↔ Chars.Closes "@enduml".toList text.toList := by
  rw [IsClosed, Text.endsWith, Text.toList_trim, endsWith_iff]
  exact isWord_closing.suffix_trim_iff

theorem isFilled_eq (line : String) : isFilled line = !isBlankOnly line.toList := by
  rw [isFilled, Bool.eq_iff_iff, bne_iff_ne, Bool.not_eq_true', ← Bool.not_eq_true, ← trim_eq_nil_iff,
    ← Text.toList_trim, ne_eq, String.toList_eq_nil_iff]

theorem map_toList_filter : (lines.filter isFilled).map String.toList = Chars.filled (lines.map String.toList) := by
  rw [Chars.filled, filter_map, filter_congr fun l _ => isFilled_eq l]
  rfl

/-! ### Diagrams and their lines -/

/-- The first of some lines opens a diagram and the last closes it, blank lines aside. -/
def Frames (lines : List String) : Prop :=
  (∃ l ∈ (lines.filter isFilled).head?, IsOpened l) ∧ ∃ l ∈ (lines.filter isFilled).getLast?, IsClosed l

theorem isOpened_iff_of_isLaid {lines : List String} (h : Chars.IsLaid (lines.map String.toList) text.toList) :
    IsOpened text ↔ ∃ l ∈ (lines.filter isFilled).head?, IsOpened l := by
  rw [isOpened_iff, h.opens_iff isWord_opening, ← map_toList_filter, head?_map]
  simp [isOpened_iff]

theorem isClosed_iff_of_isLaid {lines : List String} (h : Chars.IsLaid (lines.map String.toList) text.toList) :
    IsClosed text ↔ ∃ l ∈ (lines.filter isFilled).getLast?, IsClosed l := by
  rw [isClosed_iff, h.closes_iff isWord_closing, ← map_toList_filter, getLast?_map]
  simp [isClosed_iff]

theorem isLaid_lines (text : String) : Chars.IsLaid ((Text.lines text).map String.toList) text.toList := by
  rw [Text.map_toList_lines]
  exact Chars.isLaid_lines text.toList

theorem isLaid_join : Chars.IsLaid (lines.map String.toList) (Text.join "\n" lines).toList := by
  rw [Text.toList_join]
  exact Chars.isLaid_join (by decide) (by decide) _

/-- **Lines make a diagram in its frame if the first of them opens it and the last closes it**, blank lines aside. -/
theorem isFramed_join_iff : IsFramed (Text.join "\n" lines) ↔ Frames lines :=
  and_congr (isOpened_iff_of_isLaid (isLaid_join lines)) (isClosed_iff_of_isLaid (isLaid_join lines))

/-! ### Frames that are put around a text -/

theorem isOpened_of_startsWith (h : "@startuml".toList <+: text.toList) : IsOpened text := by
  obtain ⟨rest, hrest⟩ := h
  rw [isOpened_iff, ← hrest]
  exact prefix_append _ rest

theorem isClosed_of_endsWith (h : "@enduml".toList <:+ text.toList) : IsClosed text := by
  rw [isClosed_iff, ← opens_reverse_iff]
  obtain ⟨rest, hrest⟩ := reverse_prefix.mpr h
  rw [← hrest]
  exact prefix_append _ rest

theorem prefix_append {word : String} (h : word.toList <+: text.toList) (more : String) :
    word.toList <+: (text ++ more).toList := by
  rw [String.toList_append]
  exact h.trans (List.prefix_append ..)

theorem isFramed_append {first last : String} (hfirst : "@startuml".toList <+: first.toList)
    (hlast : "@enduml".toList <:+ last.toList) : IsFramed (first ++ last) := by
  refine ⟨isOpened_of_startsWith (prefix_append hfirst last), isClosed_of_endsWith ?_⟩
  rw [String.toList_append]
  exact hlast.trans (suffix_append ..)

theorem prefix_opened (text : String) :
    "@startuml".toList <+: (if Text.startsWith text "@startuml" then text else "@startuml\n" ++ text).toList := by
  split
  next h => exact startsWith_iff.mp h
  next => exact prefix_append (by decide) text

theorem isFramed_closed (h : "@startuml".toList <+: text.toList) :
    IsFramed (if Text.endsWith text "@enduml" then text else Text.trimEnd text ++ "\n@enduml") := by
  split
  next hends => exact ⟨isOpened_of_startsWith h, isClosed_of_endsWith (endsWith_iff.mp hends)⟩
  next =>
    refine isFramed_append ?_ (by decide)
    rw [Text.toList_trimEnd]
    exact isWord_opening.prefix_trimEnd_iff.mpr h

theorem isFramed_withFrame (text : String) : IsFramed (withFrame text) := by
  unfold withFrame
  exact isFramed_closed (prefix_opened _)

/-- A text without both words of the frame, in letters of any case, is put into its frame. -/
theorem isFramed_framed (h : Text.find? (Text.lower text) "@startuml" = none ∨
    Text.findLast? (Text.lower text) "@enduml" = none) : IsFramed (framed text) := by
  simp only [framed]
  split
  next hfirst hlast =>
    rcases h with h | h
    · cases h.symm.trans hfirst
    · cases h.symm.trans hlast
  next => exact isFramed_withFrame text

/-! ### Diagrams that stand in -/

theorem isFramed_oneState (name : String) : IsFramed (oneState name) :=
  isFramed_append (prefix_append (by decide) name) (by decide)

theorem isFramed_plainActivity (reply name : String) : IsFramed (plainActivity reply name) := by
  unfold plainActivity
  split
  · exact ⟨isOpened_of_startsWith (by decide), isClosed_of_endsWith (endsWith_iff.mp rfl)⟩
  · exact isFramed_append (prefix_append (by decide) name) (by decide)

/-- The kinds whose diagrams are replaced when they are not valid. -/
def isRepaired : DiagramKind → Bool
  | .state | .activity | .component | .deployment => true
  | .class | .sequence | .usecase | .communication => false

theorem isFramed_replacement (h : isRepaired kind) (reply diagram : String) :
    IsFramed (replacement (some kind) reply diagram) := by
  cases kind with
  | state => exact isFramed_oneState _
  | activity => exact isFramed_plainActivity reply _
  | deployment | component =>
    refine isFramed_append ?_ (by decide)
    exact prefix_append (prefix_append (prefix_append (prefix_append (prefix_append (by decide) _) _) _) _) _
  | «class» | sequence | usecase | communication => cases h

theorem isFramed_of_isValid {kind : Option DiagramKind} {diagram : String} (h : isValid kind diagram) :
    IsFramed diagram := by
  unfold isValid at h
  exact Bool.and_eq_true_iff.mp (Bool.and_eq_true_iff.mp h).1

theorem isFramed_normal_of_isRepaired (h : isRepaired kind)
    (htext : Text.trim text ≠ "") : IsFramed (normal (some kind) text) := by
  simp only [normal, beq_iff_eq, htext, if_false]
  split
  next hvalid => exact isFramed_of_isValid hvalid
  next => exact isFramed_replacement h _ _

/-! ### Class diagrams -/

theorem isFilled_of_declared? {name : String} (h : declared? line = some name) : isFilled line := by
  obtain ⟨m, hm, -⟩ := Option.map_eq_some_iff.mp h
  obtain ⟨u, -, hmatch, -⟩ := Pattern.findFirstFrom_eq_some hm
  obtain ⟨w, hw, hpre, -⟩ := Pattern.matchAt_spells hmatch
  have hc : 'c' ∈ w := by
    obtain ⟨_, _, _, _, hword, _, rfl, _⟩ := hw
    simp [(Pattern.spells_word_iff.mp hword).1]
  replace hc : 'c' ∈ line.toList := mem_of_mem_drop (hpre.subset hc)
  rw [isFilled_eq, Bool.not_eq_true', isBlankOnly, all_eq_false]
  exact ⟨'c', hc, by decide⟩

theorem isFilled_inherits : isFilled (first ++ " <|-- " ++ second) := by
  rw [isFilled_eq, Bool.not_eq_true', isBlankOnly, all_eq_false]
  exact ⟨'<', by simp, by decide⟩

/-- The line that is put after the others closes a diagram if the name at its end does. -/
theorem isClosed_inherits : IsClosed (first ++ " <|-- " ++ second) ↔ IsClosed second := by
  have hsplit : (first ++ " <|-- " ++ second).toList =
      first.toList ++ ([' '] ++ ("<|--".toList ++ ([' '] ++ second.toList))) := by simp
  have hfilled : isBlankOnly ("<|--".toList ++ ([' '] ++ second.toList)) = false :=
    all_eq_false.mpr ⟨'<', by simp, by decide⟩
  have harrow : ¬ Chars.Closes "@enduml".toList "<|--".toList := by
    rw [Chars.Closes, ← endsWith_iff]
    decide
  rw [isClosed_iff, hsplit, isWord_closing.closes_append_iff _ _ _ rfl (by simp), hfilled, if_neg (by simp),
    isWord_closing.closes_append_iff _ _ _ rfl (by simp), isClosed_iff]
  split
  next hblank => exact iff_of_false harrow (isWord_closing.not_closes hblank)
  next => rfl

theorem frames_concat_iff {lines : List String} (hline : isFilled line) (h : ∃ l ∈ lines, isFilled l) :
    Frames (lines ++ [line]) ↔ (∃ l ∈ (lines.filter isFilled).head?, IsOpened l) ∧ IsClosed line := by
  obtain ⟨l, hl, hfilled⟩ := h
  have hne : lines.filter isFilled ≠ [] := ne_nil_of_mem (mem_filter.mpr ⟨hl, hfilled⟩)
  have hlast : List.filter isFilled [line] = [line] := by simp [hline]
  rw [Frames, filter_append, hlast, getLast?_concat, head?_append_of_ne_nil _ hne]
  simp

/-! ### The diagram of a reply -/

def isMarked (line : String) : Bool := Text.startsWith (Text.trim line) "!invalid!"

/-- When a kind of diagram keeps the frame of the text that was taken out of a reply.  Kinds that are repaired always
do.  A class diagram keeps what opens it; where no line relates classes, the name of a class is put at its end.  Of the
other kinds the lines count that are not marked as invalid. -/
def KeepsFrame (diagram : String) : DiagramKind → Prop
  | .state | .activity | .component | .deployment => True
  | .class =>
    match (Text.lines diagram).filterMap declared? with
    | [] => True
    | first :: others =>
      IsOpened diagram ∧
        if (Text.lines diagram).any relates then IsClosed diagram else IsClosed (others.headD first)
  | .sequence | .usecase | .communication => Frames ((Text.lines diagram).filter (!isMarked ·))

theorem isFramed_classDiagram_iff (reply diagram : String) :
    IsFramed (classDiagram reply diagram) ↔ KeepsFrame diagram .class := by
  cases hnames : (Text.lines diagram).filterMap declared? with
  | nil =>
    simp only [classDiagram, KeepsFrame, hnames, iff_true]
    exact isFramed_append (prefix_append (by decide) _) (by decide)
  | cons first others =>
    have hfilled : ∃ l ∈ Text.lines diagram, isFilled l := by
      have hmem : first ∈ (Text.lines diagram).filterMap declared? := hnames ▸ mem_cons_self ..
      obtain ⟨l, hl, hdeclared⟩ := mem_filterMap.mp hmem
      exact ⟨l, hl, isFilled_of_declared? hdeclared⟩
    simp only [classDiagram, KeepsFrame, hnames]
    split
    next => rfl
    next =>
      rw [isFramed_join_iff, frames_concat_iff (isFilled_inherits ..) hfilled, isClosed_inherits,
        isOpened_iff_of_isLaid (isLaid_lines diagram)]

theorem isFramed_plainDiagram_iff (diagram : String) :
    IsFramed (plainDiagram diagram) ↔ Frames ((Text.lines diagram).filter (!isMarked ·)) := by
  rw [plainDiagram, isFramed_join_iff, Frames, Frames, filter_filter, filter_filter]
  simp only [Bool.and_self_left, isMarked]

theorem replacement_of_not_isRepaired (h : isRepaired kind = false) (reply diagram : String) :
    replacement (some kind) reply diagram = diagram := by
  cases kind with
  | state | activity | component | deployment => cases h
  | «class» | sequence | usecase | communication => rfl

theorem normal_of_not_isRepaired (h : isRepaired kind = false) (htext : Text.trim text ≠ "") :
    normal (some kind) text = cleaned (some kind) (Text.trim text) (framed (unfenced (Text.trim text))) := by
  simp only [normal, beq_iff_eq, htext, if_false, replacement_of_not_isRepaired h, ite_self]

theorem isFramed_cleaned_iff (h : isRepaired kind = false) (reply diagram : String) :
    IsFramed (cleaned (some kind) reply diagram) ↔ KeepsFrame diagram kind := by
  cases kind with
  | state | activity | component | deployment => cases h
  | «class» =>
    have heq : cleaned (some .class) reply diagram = classDiagram reply diagram := rfl
    rw [heq, isFramed_classDiagram_iff]
  | sequence | usecase | communication => exact isFramed_plainDiagram_iff diagram

/-- **When the diagram of a reply is in its frame.**  A text without both words of the frame is put into it; then the
frame is lost where cleaning takes a line of it away or puts another after it, and the kind is not repaired. -/
theorem isFramed_normal_iff (kind : DiagramKind) (text : String) (h : Text.trim text ≠ "") :
    (IsFramed (normal (some kind) text) ↔ KeepsFrame (framed (unfenced (Text.trim text))) kind) ∧
      ∀ t, Text.find? (Text.lower t) "@startuml" = none ∨ Text.findLast? (Text.lower t) "@enduml" = none →
        IsFramed (framed t) := by
  refine ⟨?_, fun t ht => isFramed_framed ht⟩
  cases hkind : isRepaired kind with
  | false => rw [normal_of_not_isRepaired hkind h, isFramed_cleaned_iff hkind]
  | true =>
    refine iff_of_true (isFramed_normal_of_isRepaired hkind h) ?_
    cases kind with
    | state | activity | component | deployment => trivial
    | «class» | sequence | usecase | communication => cases hkind

theorem isFramed_normal_iff_message :
    Text.trim "A -> B" ≠ "" ∧ KeepsFrame (framed (unfenced (Text.trim "A -> B"))) .sequence ∧
      IsFramed (normal (some .sequence) "A -> B") := by
  have hfilled : Text.trim "A -> B" ≠ "" := by decide
  have hframed : IsFramed (normal (some .sequence) "A -> B") := by decide
  exact ⟨hfilled, (isFramed_normal_iff .sequence "A -> B" hfilled).1.mp hframed, hframed⟩

/-- A class diagram whose classes are not related loses its frame: the line that relates them is put after the closing
word. -/
theorem normal_unrelated_not_isFramed :
    Text.trim "@startuml\nclass A\nclass B\n@enduml" ≠ "" ∧
      normal (some .class) "@startuml\nclass A\nclass B\n@enduml" =
        "@startuml\nclass A\nclass B\n@enduml\nA <|-- B" ∧
      ¬ IsFramed (normal (some .class) "@startuml\nclass A\nclass B\n@enduml") := by
  have hnormal : normal (some .class) "@startuml\nclass A\nclass B\n@enduml" =
      "@startuml\nclass A\nclass B\n@enduml\nA <|-- B" := by decide
  refine ⟨by decide, hnormal, ?_⟩
  rw [hnormal]
  decide

end CodeAtlas.Reply
