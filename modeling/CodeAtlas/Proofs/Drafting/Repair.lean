import CodeAtlas.Proofs.Drafting.Frame
import CodeAtlas.Proofs.Text.Occurrence
import CodeAtlas.Proofs.Text.OneLine

/-!
# Repaired diagrams

State, activity, component and deployment diagrams are checked after they were cleaned, and another diagram stands in
for one that fails.  It may hold the first word of the reply and is not checked again: that it passes, whatever the word
is, is shown here, and so every diagram of these kinds passes.

* `Reply.isValid_state_iff` and its siblings: what the check asks of each kind;
* **`Reply.normal_suits`**: the diagram of a reply that is not blank passes the check and suits its kind.
-/

namespace CodeAtlas.Reply

open List Chars

/-- What a diagram of a kind holds, blanks at the start of its lines aside: a state diagram a line that starts at the
initial state, and no foreign word anywhere; an activity diagram an action or an arrow; a deployment diagram a node and
a relation. -/
def Suits (diagram : String) : DiagramKind → Prop
  | .state => (∃ l ∈ Text.lines diagram, Text.startsWith (Text.trim l) "[*] -->" = true) ∧
      ∀ w ∈ foreignWords, Text.contains diagram w = false
  | .activity => ∃ l ∈ Text.lines diagram, Text.contains l ":" = true ∨ isArrow l = true
  | .deployment => (∃ l ∈ Text.lines diagram, Text.startsWith (Text.trim l) "node " = true) ∧
      ∃ l ∈ Text.lines diagram, holdsAny ["-->", "<--", "..>", "<.."] l = true
  | .component | .class | .sequence | .usecase | .communication => True

/-! ### What the check asks -/

section Check

variable {diagram : String}

/-- Something that does not hold of the empty text holds of a trimmed line that is not empty if it holds of a trimmed
line. -/
theorem any_trimmed_iff {p : String → Bool} (hp : p "" = false) :
    (((Text.lines diagram).map Text.trim).filter (· != "")).any p ↔
      ∃ l ∈ Text.lines diagram, p (Text.trim l) := by
  rw [any_eq_true]
  constructor
  · rintro ⟨m, hm, hpm⟩
    obtain ⟨l, hl, rfl⟩ := mem_map.mp (mem_filter.mp hm).1
    exact ⟨l, hl, hpm⟩
  · rintro ⟨l, hl, hpl⟩
    refine ⟨Text.trim l, mem_filter.mpr ⟨mem_map_of_mem hl, ?_⟩, hpl⟩
    rw [bne_iff_ne]
    intro hempty
    rw [hempty, hp] at hpl
    cases hpl

theorem isValid_state_iff : isValid (some .state) diagram ↔ IsFramed diagram ∧
    (∃ l ∈ Text.lines diagram, Text.contains (Text.trim l) "-->") ∧
    (∃ l ∈ Text.lines diagram, Text.startsWith (Text.trim l) "[*] -->") ∧
    ¬ ∃ l ∈ Text.lines diagram, holdsAny foreignWords (Text.trim l) := by
  unfold isValid
  simp only [Bool.and_eq_true, Bool.not_eq_true', ← Bool.not_eq_true]
  rw [any_trimmed_iff (by decide), any_trimmed_iff (by decide), any_trimmed_iff (by decide)]
  simp only [IsFramed, IsOpened, IsClosed, and_assoc]

theorem isValid_activity_iff : isValid (some .activity) diagram ↔ IsFramed diagram ∧
    ∃ l ∈ Text.lines diagram, (Text.contains (Text.trim l) ":" || isArrow (Text.trim l)) := by
  unfold isValid
  simp only [Bool.and_eq_true]
  rw [any_trimmed_iff (by decide)]
  rfl

theorem isValid_deployment_iff : isValid (some .deployment) diagram ↔ IsFramed diagram ∧
    (∃ l ∈ Text.lines diagram, Text.startsWith (Text.trim l) "node ") ∧
    ∃ l ∈ Text.lines diagram, holdsAny ["-->", "<--", "..>", "<.."] (Text.trim l) := by
  unfold isValid
  simp only [Bool.and_eq_true]
  rw [any_trimmed_iff (by decide), any_trimmed_iff (by decide)]
  rfl

theorem isValid_component_iff : isValid (some .component) diagram ↔ IsFramed diagram := by
  unfold isValid
  simp only [Bool.and_eq_true, and_true]
  rfl

end Check

/-! ### Words that occur -/

variable {w line diagram : String} {ws : List String}

theorem contains_iff {s : String} : Text.contains s w ↔ w.toList <:+: s.toList := Chars.contains_iff

theorem holdsAny_iff : holdsAny ws line ↔ ∃ w ∈ ws, w.toList <:+: line.toList := by
  simp only [holdsAny, any_eq_true, contains_iff]

theorem trim_isInfix (line : String) : (Text.trim line).toList <:+: line.toList := by
  rw [Text.toList_trim]
  exact Chars.trim_isInfix line.toList

theorem infix_of_mem_lines (h : line ∈ Text.lines diagram) : line.toList <:+: diagram.toList :=
  (isLaid_lines diagram).infix_of_mem (mem_map_of_mem h)

theorem contains_of_trim (h : Text.contains (Text.trim line) w) : Text.contains line w :=
  contains_iff.mpr ((contains_iff.mp h).trans (trim_isInfix line))

theorem holdsAny_of_trim (h : holdsAny ws (Text.trim line)) : holdsAny ws line := by
  obtain ⟨w, hw, hpart⟩ := holdsAny_iff.mp h
  exact holdsAny_iff.mpr ⟨w, hw, hpart.trans (trim_isInfix line)⟩

/-- A diagram that passes the check suits its kind; that a state diagram holds no foreign word at the end of a line is
not checked. -/
theorem suits_of_isValid {kind : DiagramKind} (h : isValid (some kind) diagram)
    (hforeign : kind = .state → ∀ w ∈ foreignWords, Text.contains diagram w = false) : Suits diagram kind := by
  cases kind with
  | state =>
    obtain ⟨_, _, hstart, _⟩ := isValid_state_iff.mp h
    exact ⟨hstart, hforeign rfl⟩
  | activity =>
    obtain ⟨_, l, hl, hline⟩ := isValid_activity_iff.mp h
    refine ⟨l, hl, ?_⟩
    rcases (Bool.or_eq_true ..).mp hline with haction | harrow
    · exact .inl (contains_of_trim haction)
    · exact .inr (holdsAny_of_trim harrow)
  | deployment =>
    obtain ⟨_, hnode, l, hl, hrelation⟩ := isValid_deployment_iff.mp h
    exact ⟨hnode, l, hl, holdsAny_of_trim hrelation⟩
  | component | «class» | sequence | usecase | communication => trivial

/-! ### The first word of a reply -/

theorem isWord_firstWord {text : String} (h : Text.trim text ≠ "") : Chars.IsWord (firstWord text).toList := by
  have hfilled : isBlankOnly text.toList = false := by
    rw [← Bool.not_eq_true, ← trim_eq_nil_iff, ← Text.toList_trim, String.toList_eq_nil_iff]
    exact h
  obtain ⟨w, ws, hws⟩ := exists_cons_of_ne_nil (words_ne_nil hfilled)
  have hfirst : firstWord text = String.ofList w := by
    rw [firstWord, Text.words, hws]
    rfl
  rw [hfirst, String.toList_ofList]
  exact isWord_of_mem_words (hws ▸ mem_cons_self)

theorem isOneLine_of_isWord {name : String} (h : Chars.IsWord name.toList) : Text.isOneLine name := by
  rw [Text.isOneLine, isOneLine_iff]
  intro c hc
  by_contra hbreak
  have hblank := isBlank_of_isLineBreak ((Bool.not_eq_false _).mp hbreak)
  rw [h.solid c hc] at hblank
  cases hblank

/-! ### State diagrams of one word -/

theorem toList_oneState (name : String) : (oneState name).toList =
    "@startuml".toList ++ '\n' :: (("[*] --> ".toList ++ name.toList) ++ '\n' :: "@enduml".toList) := by
  have hopening : "@startuml\n[*] --> ".toList = "@startuml".toList ++ '\n' :: "[*] --> ".toList := by decide
  have hclosing : "\n@enduml".toList = '\n' :: "@enduml".toList := by decide
  unfold oneState
  rw [String.toList_append, String.toList_append, hopening, hclosing, append_assoc, append_assoc,
    append_assoc, cons_append]

section OneState

variable {name : String} (hname : Chars.IsWord name.toList)

include hname

theorem lines_oneState : Text.lines (oneState name) = ["@startuml", "[*] --> " ++ name, "@enduml"] := by
  have hjoin : oneState name = Text.join "\n" ["@startuml", "[*] --> " ++ name, "@enduml"] := by
    rw [← String.toList_inj, toList_oneState, Text.toList_join]
    simp only [map_cons, map_nil, String.toList_append, Chars.join, append_assoc]
    rfl
  rw [hjoin]
  refine Text.lines_join (l := "@enduml") ?_ rfl (by decide)
  simp only [forall_mem_cons, Text.isOneLine_append, isOneLine_of_isWord hname]
  decide

theorem not_foreign_transition {w : String} (hw : w ∈ foreignWords) :
    ¬ w.toList <:+: "[*] --> ".toList ++ name.toList := by
  have hends :
      foreignWords.all (fun w => ['s', 'e', 't', 'd'].any fun x => Chars.contains [x, ' '] w.toList) = true := by
    decide
  obtain ⟨x, hx, hpart⟩ := any_eq_true.mp (all_eq_true.mp hends w hw)
  intro h
  have hpair : [x, ' '] <:+: "[*] --> ".toList ++ name.toList := (Chars.contains_iff.mp hpart).trans h
  have hblank : ' ' ∉ name.toList := fun hmem => by cases hname.solid ' ' hmem
  have hafter : ¬ [x, ' '] <:+: name.toList := fun h => hblank (h.subset (by simp))
  have hbefore : x = ']' ∨ x = '>' ∨ x = ' ' := by
    have hchars : "[*] --> ".toList = ['[', '*', ']', ' ', '-', '-', '>', ' '] := rfl
    rw [hchars] at hpair
    simp only [cons_append, nil_append, infix_cons_iff, cons_prefix_cons, hafter, or_false] at hpair
    tauto
  rcases hbefore with rfl | rfl | rfl <;> simp at hx

theorem not_foreign_oneState : ∀ w ∈ foreignWords, Text.contains (oneState name) w = false := by
  intro w hw
  rw [← Bool.not_eq_true, contains_iff]
  have hbreak : '\n' ∉ w.toList := by
    have hall : foreignWords.all (fun w => !w.toList.contains '\n') = true := by decide
    simpa using all_eq_true.mp hall w hw
  have houter : foreignWords.all (fun w => !Chars.contains w.toList "@startuml".toList &&
      !Chars.contains w.toList "@enduml".toList) = true := by decide +kernel
  have hends := all_eq_true.mp houter w hw
  simp only [Bool.and_eq_true, Bool.not_eq_true', ← Bool.not_eq_true, Chars.contains_iff] at hends
  rw [toList_oneState, infix_append_cons_iff hbreak, infix_append_cons_iff hbreak]
  rintro (h | h | h)
  · exact hends.1 h
  · exact not_foreign_transition hname hw h
  · exact hends.2 h

/-- **A state diagram of one word is valid, whatever the word is.** -/
theorem isValid_oneState : isValid (some .state) (oneState name) := by
  have hline : "[*] --> " ++ name ∈ Text.lines (oneState name) := by
    rw [lines_oneState hname]
    exact mem_cons_of_mem _ mem_cons_self
  have htrim : Text.trim ("[*] --> " ++ name) = "[*] --> " ++ name := by
    rw [← String.toList_inj, Text.toList_trim]
    refine trim_eq_self ?_ ?_
    · intro c hc
      rw [String.toList_append] at hc
      cases hc
      decide
    · intro c hc
      rw [String.toList_append, getLast?_append_of_ne_nil _ hname.ne_nil] at hc
      exact hname.solid c (mem_of_getLast? hc)
  have hstart : Text.startsWith ("[*] --> " ++ name) "[*] -->" := by
    rw [Text.startsWith, startsWith_iff, String.toList_append]
    exact List.IsPrefix.trans (by decide) (List.prefix_append ..)
  have harrow : Text.contains ("[*] --> " ++ name) "-->" := by
    rw [contains_iff]
    exact List.IsInfix.trans (by decide) (startsWith_iff.mp hstart).isInfix
  refine isValid_state_iff.mpr ⟨isFramed_oneState name, ⟨_, hline, by rw [htrim]; exact harrow⟩,
    ⟨_, hline, by rw [htrim]; exact hstart⟩, ?_⟩
  rintro ⟨l, hl, hholds⟩
  obtain ⟨w, hw, hpart⟩ := holdsAny_iff.mp (holdsAny_of_trim hholds)
  have hcontains := contains_iff.mpr (hpart.trans (infix_of_mem_lines hl))
  rw [not_foreign_oneState hname w hw] at hcontains
  cases hcontains

end OneState

/-! ### Cleaned state diagrams -/

theorem not_foreign_join {ls : List String} (h : ∀ l ∈ ls, holdsAny foreignWords l = false) :
    ∀ w ∈ foreignWords, Text.contains (Text.join "\n" ls) w = false := by
  intro w hw
  have hplain : foreignWords.all (fun w => !w.toList.contains '\n' && !w.toList.isEmpty) = true := by decide
  have hbreak := all_eq_true.mp hplain w hw
  simp only [Bool.and_eq_true, Bool.not_eq_true', contains_eq_mem, decide_eq_false_iff_not, isEmpty_eq_false_iff]
    at hbreak
  rw [← Bool.not_eq_true, contains_iff, Text.toList_join, show ("\n" : String).toList = ['\n'] from rfl,
    infix_join_iff hbreak.1 hbreak.2]
  rintro ⟨m, hm, hpart⟩
  obtain ⟨l, hl, rfl⟩ := mem_map.mp hm
  have hholds := holdsAny_iff.mpr ⟨w, hw, hpart⟩
  rw [h l hl] at hholds
  cases hholds

variable {reply text : String} {kind : DiagramKind}

theorem not_foreign_stateDiagram (h : Text.trim reply ≠ "") (diagram : String) :
    ∀ w ∈ foreignWords, Text.contains (stateDiagram reply diagram) w = false := by
  simp only [stateDiagram]
  split
  · refine not_foreign_join fun l hl => ?_
    simpa using (mem_filter.mp hl).2
  · exact not_foreign_oneState (isWord_firstWord h)

/-! ### Diagrams that stand in -/

theorem isWord_standIn (h : Text.trim reply ≠ "") :
    Chars.IsWord (if speaksOfCash reply then "State" else firstWord reply).toList := by
  split
  · exact .of_all (by decide) (by decide)
  · exact isWord_firstWord h

theorem isValid_plainActivity (reply : String) : isValid (some .activity) (plainActivity reply "Main process") := by
  refine isValid_activity_iff.mpr ⟨isFramed_plainActivity reply _, ?_⟩
  unfold plainActivity
  split
  · exact ⟨":Insert card;", by decide +kernel, by decide⟩
  · exact ⟨":Main process;", by decide +kernel, by decide⟩

/-- **What stands in for a diagram is valid**, whatever the first word of the reply is. -/
theorem isValid_replacement (hkind : isRepaired kind) (h : Text.trim reply ≠ "") (diagram : String) :
    isValid (some kind) (replacement (some kind) reply diagram) := by
  cases kind with
  | state => exact isValid_oneState (isWord_standIn h)
  | activity => exact isValid_plainActivity reply
  | deployment =>
    have hname : ∀ cash : Bool, isValid (some .deployment) ("@startuml\nnode " ++ (if cash then "ATM" else "System") ++
        "\n" ++ (if cash then "ATM" else "System") ++ " --> " ++ (if cash then "ATM" else "System") ++
        "\n@enduml") = true := by decide +kernel
    exact hname (speaksOfCash reply)
  | component => exact isValid_component_iff.mpr (isFramed_replacement hkind reply diagram)
  | «class» | sequence | usecase | communication => cases hkind

/-! ### The diagram of a reply -/

theorem trim_trim (text : String) : Text.trim (Text.trim text) = Text.trim text := by
  rw [← String.toList_inj, Text.toList_trim, Text.toList_trim, Chars.trim_trim]

theorem trim_trim_ne (h : Text.trim text ≠ "") : Text.trim (Text.trim text) ≠ "" := by
  rwa [trim_trim]

theorem normal_eq {kind : Option DiagramKind} (h : Text.trim text ≠ "") : normal kind text =
    if isValid kind (cleaned kind (Text.trim text) (framed (unfenced (Text.trim text)))) then
      cleaned kind (Text.trim text) (framed (unfenced (Text.trim text)))
    else replacement kind (Text.trim text) (cleaned kind (Text.trim text) (framed (unfenced (Text.trim text)))) := by
  simp only [normal, beq_iff_eq, h, if_false]

theorem isValid_normal (hkind : isRepaired kind) (h : Text.trim text ≠ "") :
    isValid (some kind) (normal (some kind) text) := by
  rw [normal_eq h]
  split
  next hvalid => exact hvalid
  next => exact isValid_replacement hkind (trim_trim_ne h) _

theorem not_foreign_normal (h : Text.trim text ≠ "") :
    ∀ w ∈ foreignWords, Text.contains (normal (some .state) text) w = false := by
  have hreply := trim_trim_ne h
  have hcleaned : ∀ diagram, cleaned (some .state) (Text.trim text) diagram = stateDiagram (Text.trim text) diagram :=
    fun _ => rfl
  have hstandIn : ∀ diagram, replacement (some .state) (Text.trim text) diagram =
      oneState (if speaksOfCash (Text.trim text) then "State" else firstWord (Text.trim text)) := fun _ => rfl
  rw [normal_eq h, hcleaned, hstandIn]
  split
  · exact not_foreign_stateDiagram hreply _
  · exact not_foreign_oneState (isWord_standIn hreply)

/-- **Diagrams of replies are valid.**  Of the kinds that are repaired, the diagram of every text that is not blank
passes the check: it is in its frame and holds what its kind needs.  So do the diagrams that stand in, which may hold
the first word of the text. -/
theorem normal_suits (kind : DiagramKind) (hkind : isRepaired kind = true) (text : String) (h : Text.trim text ≠ "") :
    isValid (some kind) (normal (some kind) text) = true ∧ IsFramed (normal (some kind) text) ∧
      Suits (normal (some kind) text) kind ∧
      isValid (some .state) (oneState (firstWord (Text.trim text))) = true ∧
      ∀ diagram, isValid (some kind) (replacement (some kind) (Text.trim text) diagram) = true := by
  have hvalid := isValid_normal hkind h
  have hreply := trim_trim_ne h
  refine ⟨hvalid, isFramed_of_isValid hvalid, suits_of_isValid hvalid ?_, isValid_oneState (isWord_firstWord hreply),
    isValid_replacement hkind hreply⟩
  rintro rfl
  exact not_foreign_normal h

/-- A reply whose first word is a foreign word without its blank. -/
theorem normal_suits_class :
    isRepaired .state = true ∧ Text.trim "class diagram of a shop" ≠ "" ∧
      normal (some .state) "class diagram of a shop" = "@startuml\n[*] --> class\n@enduml" ∧
      isValid (some .state) (normal (some .state) "class diagram of a shop") = true ∧
      Suits (normal (some .state) "class diagram of a shop") .state := by
  have hfilled : Text.trim "class diagram of a shop" ≠ "" := by decide
  obtain ⟨hvalid, _, hsuits, _⟩ := normal_suits .state rfl "class diagram of a shop" hfilled
  exact ⟨rfl, hfilled, by decide +kernel, hvalid, hsuits⟩

end CodeAtlas.Reply
