import CodeAtlas.Proofs.Drafting.Repair
import CodeAtlas.Proofs.Text.Folding

/-!
# Diagrams between fences

A model may put a diagram between fences and other words before it.  The diagram is looked for in the first part between
fences that is not empty, and words before the first fence are such a part: unless they are blank, or one line that
starts like the name of the notation, they are taken in place of the diagram.

* **`Reply.normal_chat`**: the diagram of such a reply.
-/

namespace CodeAtlas.Reply

open List Text Chars

/-- A reply in which a diagram stands between fences, after some words. -/
def chat (prose diagram : String) : String :=
  Text.join "\n" [prose, "\x60\x60\x60plantuml", diagram, "\x60\x60\x60"]

/-- A diagram on lines of its own, of which the first is the opening word and the last the closing word; no fence is in
it. -/
structure IsDrawn (diagram : String) : Prop where
  inLines : ∃ ls, diagram = Text.join "\n" ("@startuml" :: (ls ++ ["@enduml"]))
  noFence : Text.contains diagram "\x60\x60\x60" = false

def relined (text : String) : String := Text.join "\n" (Text.lines text)

/-- The diagram that is made of a text in its frame: cleaned, or replaced if it is not valid then. -/
def settled (kind : Option DiagramKind) (reply diagram : String) : String :=
  if isValid kind (cleaned kind reply diagram) then cleaned kind reply diagram
  else replacement kind reply (cleaned kind reply diagram)

theorem normal_eq_settled {kind : Option DiagramKind} {text : String} (h : Text.trim text ≠ "") :
    normal kind text = settled kind (Text.trim text) (framed (unfenced (Text.trim text))) := normal_eq h

/-! ### Texts from the opening to the closing word -/

/-- A text starts with the opening word and ends with the closing word. -/
structure IsBounded (text : String) : Prop where
  opens : "@startuml".toList <+: text.toList
  closes : "@enduml".toList <:+ text.toList

namespace IsBounded

variable {text : String}

theorem ne_empty (h : IsBounded text) : text ≠ "" := by
  rintro rfl
  have hnil := prefix_nil.mp h.opens
  cases hnil

theorem head?_eq (h : IsBounded text) : text.toList.head? = some '@' := by
  obtain ⟨rest, hrest⟩ := h.opens
  rw [← hrest]
  rfl

theorem getLast?_eq (h : IsBounded text) : text.toList.getLast? = some 'l' := by
  obtain ⟨rest, hrest⟩ := h.closes
  rw [← hrest, getLast?_append_of_ne_nil _ (by decide)]
  rfl

theorem isFramed (h : IsBounded text) : IsFramed text := ⟨isOpened_of_startsWith h.opens, isClosed_of_endsWith h.closes⟩

theorem trim_eq (h : IsBounded text) : Text.trim text = text := by
  rw [← String.toList_inj, toList_trim]
  refine trim_eq_self ?_ ?_
  · rw [h.head?_eq]
    intro c hc
    cases hc
    decide
  · rw [h.getLast?_eq]
    intro c hc
    cases hc
    decide

theorem framed_eq (h : IsBounded text) : framed text = text := by
  have hfirst : Text.find? (Text.lower text) "@startuml" = some 0 := by
    rw [Text.find?, toList_lower]
    exact find?_of_prefix (prefix_lowerAfter (by decide) h.opens [])
  have hlast : Text.findLast? (Text.lower text) "@enduml" = some ((lowerAfter [] text.toList).length - 7) := by
    rw [Text.findLast?, toList_lower]
    exact findLast?_of_suffix (suffix_lowerAfter (by decide) h.closes [])
  have hlength := length_le_lowerAfter [] text.toList
  have hwhole : slice text 0 ((lowerAfter [] text.toList).length - 7 + 7) = text := by
    rw [slice, drop_zero, take_of_length_le (by omega), String.ofList_toList]
  simp only [framed, hfirst, hlast, hwhole, h.trim_eq]

end IsBounded

theorem join_bounded (ls : List String) : IsBounded (Text.join "\n" ("@startuml" :: (ls ++ ["@enduml"]))) := by
  have hne : ("@startuml" :: ls).map String.toList ≠ [] := by simp
  have hclosing : ["@enduml"].map String.toList ≠ [] := by simp
  constructor
  · rw [toList_join, List.map_cons, join_cons _ _ (by simp), List.append_assoc]
    exact List.prefix_append ..
  · rw [toList_join, ← List.cons_append, List.map_append, join_append _ hne hclosing]
    exact List.suffix_append ..

/-! ### The lines of a diagram -/

theorem join_linesFrom {acc s : List Char} (hfeeds : ∀ c ∈ s, isLineBreak c → c = '\n')
    (hlast : s.getLast? ≠ some '\n') : Chars.join ['\n'] (linesFrom acc s) = acc.reverse ++ s := by
  fun_induction linesFrom acc s with
  | case1 acc hacc => rw [isEmpty_iff.mp hacc]; rfl
  | case2 acc => rw [append_nil]; rfl
  | case3 acc cs => cases hfeeds '\r' mem_cons_self rfl
  | case4 acc c cs _ hbreak ih =>
    obtain rfl := hfeeds c mem_cons_self hbreak
    have hcs : cs ≠ [] := by
      rintro rfl
      exact hlast rfl
    have hrest := ih (fun d hd => hfeeds d (mem_cons_of_mem _ hd)) (by rwa [getLast?_cons_of_ne_nil hcs] at hlast)
    have hlines : linesFrom [] cs ≠ [] := by
      intro hnil
      rw [hnil] at hrest
      exact hcs hrest.symm
    rw [join_cons _ _ hlines, hrest, append_assoc]
    rfl
  | case5 acc c cs _ hbreak ih =>
    have hlast' : cs.getLast? ≠ some '\n' := by
      cases cs with
      | nil => simp
      | cons d cs => rwa [getLast?_cons_cons] at hlast
    rw [ih (fun d hd => hfeeds d (mem_cons_of_mem _ hd)) hlast', reverse_cons, append_assoc, singleton_append]

namespace IsDrawn

variable {diagram : String}

theorem bounded (h : IsDrawn diagram) : IsBounded diagram := by
  obtain ⟨ls, rfl⟩ := h.inLines
  exact join_bounded ls

theorem exists_lines (h : IsDrawn diagram) : ∃ ls, Text.lines diagram = "@startuml" :: (ls ++ ["@enduml"]) := by
  have hopening : Text.lines ("@startuml" ++ "\n") = ["@startuml"] := lines_of_isOneLine (by decide)
  have hclosing : Text.lines "@enduml" = ["@enduml"] := lines_singleton (by decide) (by decide)
  have hrest : ∀ ls : List String, Text.lines (Text.join "\n" (ls ++ ["@enduml"])) =
      ls.flatMap (fun l => Text.lines (l ++ "\n")) ++ ["@enduml"] := by
    intro ls
    induction ls with
    | nil => exact hclosing
    | cons l ls ih =>
      obtain ⟨m, rest, hcons⟩ := exists_cons_of_ne_nil (append_ne_nil_of_right_ne_nil ls (cons_ne_nil "@enduml" []))
      rw [cons_append, hcons, join_cons_cons, lines_append_break, ← hcons, ih, flatMap_cons, append_assoc]
  obtain ⟨ls, rfl⟩ := h.inLines
  have hlines := hrest ("@startuml" :: ls)
  rw [flatMap_cons, hopening] at hlines
  exact ⟨_, hlines⟩

theorem relined_bounded (h : IsDrawn diagram) : IsBounded (relined diagram) := by
  obtain ⟨ls, hls⟩ := h.exists_lines
  rw [relined, hls]
  exact join_bounded ls

theorem lines_relined (h : IsDrawn diagram) : Text.lines (relined diagram) = Text.lines diagram := by
  obtain ⟨ls, hls⟩ := h.exists_lines
  refine lines_join (l := "@enduml") (fun m => isOneLine_of_mem_lines) ?_ (by decide)
  rw [hls, ← cons_append, getLast?_concat]

theorem relined_eq (h : IsDrawn diagram) (hfeeds : ∀ c ∈ diagram.toList, isLineBreak c → c = '\n') :
    relined diagram = diagram := by
  have hlast : diagram.toList.getLast? ≠ some '\n' := by
    rw [h.bounded.getLast?_eq]
    decide
  rw [← String.toList_inj, relined, toList_join, map_toList_lines]
  exact join_linesFrom hfeeds hlast

end IsDrawn

/-! ### Parts without their tag -/

theorem untagged_congr {s t : String} (h : Text.trim s = Text.trim t) : untagged s = untagged t := by
  simp only [untagged, h]

variable {text : String} {kind : DiagramKind} (prose : String)

theorem trim_eq_empty_iff : Text.trim text = "" ↔ isBlankOnly text.toList := by
  rw [← String.toList_eq_nil_iff, toList_trim, trim_eq_nil_iff]

theorem exists_drop_linesFrom (acc : List Char) {s : List Char} (h : Chars.isOneLine s = false) :
    ∃ a sep b, s = a ++ (sep ++ b) ∧ isBlankOnly sep ∧ sep ≠ [] ∧ (linesFrom acc s).drop 1 = Chars.lines b := by
  fun_induction linesFrom acc s with
  | case1 => cases h
  | case2 => cases h
  | case3 acc cs => exact ⟨[], ['\r', '\n'], cs, rfl, rfl, by simp, rfl⟩
  | case4 acc c cs _ hbreak =>
    refine ⟨[], [c], cs, rfl, ?_, by simp, rfl⟩
    simp [isBlankOnly, isBlank_of_isLineBreak hbreak]
  | case5 acc c cs _ hbreak ih =>
    have hcs : Chars.isOneLine cs = false := by
      rw [Chars.isOneLine, all_cons, Bool.and_eq_false_iff] at h
      exact h.resolve_left (by simpa using hbreak)
    obtain ⟨a, sep, b, rfl, hblank, hne, hdrop⟩ := ih hcs
    exact ⟨c :: a, sep, b, rfl, hblank, hne, hdrop⟩

theorem trim_drop_lines_eq_empty_iff (h : Text.trim text = text) (hne : text ≠ "") :
    Text.trim (Text.join "\n" ((Text.lines text).drop 1)) = "" ↔ Text.isOneLine text := by
  cases hone : Text.isOneLine text with
  | true =>
    rw [lines_singleton hone hne, trim_eq_empty_iff, toList_join]
    exact iff_of_true rfl rfl
  | false =>
    refine iff_of_false ?_ Bool.false_ne_true
    obtain ⟨a, sep, b, hsplit, hblank, hsep, hdrop⟩ := exists_drop_linesFrom [] hone
    have hlaid : Chars.IsLaid (Chars.lines b) (Chars.join ['\n'] (Chars.lines b)) :=
      Chars.isLaid_join (by decide) (by decide) _
    rw [trim_eq_empty_iff, toList_join, map_drop, map_toList_lines, Chars.lines, hdrop]
    show ¬ isBlankOnly (Chars.join ['\n'] (Chars.lines b)) = true
    rw [hlaid.isBlankOnly_iff, ← (Chars.isLaid_lines b).isBlankOnly_iff]
    intro hb
    -- the last character is not blank, and stands after the first end of a line
    have hrest : sep ++ b ≠ [] := append_ne_nil_of_left_ne_nil hsep b
    have hlast : text.toList.getLast? = some ((sep ++ b).getLast hrest) := by
      rw [hsplit, getLast?_append_of_ne_nil _ hrest, getLast?_eq_getLast_of_ne_nil hrest]
    have hmem := getLast_mem hrest
    rw [← h, toList_trim] at hlast
    have hsolid := not_isBlank_getLast?_trimEnd hlast
    have hall : isBlankOnly (sep ++ b) := by
      rw [isBlankOnly, all_append, Bool.and_eq_true]
      exact ⟨hblank, hb⟩
    rw [all_eq_true.mp hall _ hmem] at hsolid
    cases hsolid

/-- **Nothing is left of a part** that is blank, or one line that starts with the name of the notation. -/
theorem untagged_eq_empty_iff (part : String) : untagged part = "" ↔ Text.trim part = "" ∨
    Text.startsWith (Text.lower (Text.trim part)) "plantuml" ∧ Text.isOneLine (Text.trim part) := by
  by_cases hempty : Text.trim part = ""
  · refine iff_of_true ?_ (.inl hempty)
    simp only [untagged, hempty]
    rfl
  · have htrim := trim_drop_lines_eq_empty_iff (trim_trim part) hempty
    simp only [untagged, hempty, false_or]
    split
    next htag => rw [htrim, htag]; simp
    next htag => simp [hempty, htag]

/-! ### What is taken out of a reply -/

def fence : List Char := ['\x60', '\x60', '\x60']

def fenced (diagram : String) : List Char :=
  fence ++ (("plantuml\n".toList ++ diagram.toList) ++ '\n' :: (fence ++ []))

theorem toList_chat (diagram : String) : (chat prose diagram).toList = (prose.toList ++ ['\n']) ++ fenced diagram := by
  have htag : "\x60\x60\x60plantuml".toList = fence ++ "plantuml".toList := by decide
  have hbreak : "plantuml\n".toList = "plantuml".toList ++ ['\n'] := by decide
  have hfence : "\x60\x60\x60".toList = fence := by decide
  have hfeed : "\n".toList = ['\n'] := by decide
  rw [chat, toList_join, fenced, hbreak, hfeed, map_cons, map_cons, map_cons, map_cons, map_nil, htag, hfence]
  simp only [Chars.join, append_assoc, cons_append, nil_append, append_nil]

/-- The blanks before the words of a reply go, and nothing else. -/
theorem toList_trim_chat (diagram : String) : (Text.trim (chat prose diagram)).toList =
    Chars.trimStart (prose.toList ++ ['\n']) ++ fenced diagram := by
  have hstart : Chars.trimStart (fenced diagram) = fenced diagram := rfl
  have hend : ∀ s, Chars.trimEnd (s ++ fenced diagram) = s ++ fenced diagram := by
    intro s
    have hlast : s ++ fenced diagram =
        s ++ fence ++ ("plantuml\n".toList ++ diagram.toList) ++ ['\n', '\x60', '\x60'] ++ ['\x60'] := by
      simp [fenced, fence]
    rw [hlast, Chars.trimEnd, Chars.dropEndWhile, reverse_append, reverse_singleton, singleton_append,
      dropWhile_cons_of_neg (by decide), reverse_cons, reverse_reverse]
  rw [toList_trim, toList_chat, Chars.trim, trimStart_append, hstart]
  split
  next hblank =>
    rw [trimStart_eq_nil_iff.mpr hblank]
    exact hend []
  next => exact hend _

theorem trim_chat_ne_empty (diagram : String) : Text.trim (chat prose diagram) ≠ "" := by
  intro hempty
  have hnil := toList_trim_chat prose diagram
  rw [hempty] at hnil
  exact append_ne_nil_of_right_ne_nil _ (cons_ne_nil _ _) hnil.symm

theorem trim_concat_break (s : List Char) : Chars.trim (s ++ ['\n']) = Chars.trim s := by
  by_cases hblank : isBlankOnly s = true
  · rw [trim_eq_nil_iff.mpr hblank, trim_eq_nil_iff, isBlankOnly, all_append, Bool.and_eq_true]
    exact ⟨hblank, rfl⟩
  · rw [Chars.trim, Chars.trim, trimStart_append, if_neg hblank, Chars.trimEnd, Chars.dropEndWhile, reverse_append,
      reverse_singleton, singleton_append, dropWhile_cons_of_pos (by decide)]
    rfl

theorem splitOn_chat {prose diagram : String} (hprose : '\x60' ∉ prose.toList) (hdrawn : IsDrawn diagram) :
    Chars.splitOn fence (Text.trim (chat prose diagram)).toList =
      [Chars.trimStart (prose.toList ++ ['\n']), "plantuml\n".toList ++ diagram.toList ++ ['\n'], []] := by
  have hfence : fence ≠ [] := cons_ne_nil _ _
  have hbreak : '\n' ∉ fence := by decide
  have hlater : Chars.splitOn fence (("plantuml\n".toList ++ diagram.toList) ++ '\n' :: (fence ++ [])) =
      ["plantuml\n".toList ++ diagram.toList ++ ['\n'], []] := by
    refine splitOn_append_word hbreak hfence ?_ []
    have htag : "plantuml\n".toList ++ diagram.toList = "plantuml".toList ++ '\n' :: diagram.toList := rfl
    rw [htag, infix_append_cons_iff hbreak]
    rintro (h | h)
    · exact absurd (h.subset mem_cons_self) (by decide)
    · have hcontains : Text.contains diagram "\x60\x60\x60" := contains_iff.mpr h
      rw [hdrawn.noFence] at hcontains
      cases hcontains
  rw [toList_trim_chat, fenced, trimStart_append]
  split
  next =>
    rw [show Chars.trimStart ['\n'] = [] from rfl, nil_append, splitOn_separator hfence, hlater]
  next =>
    have hnot : ¬ fence <:+: Chars.trimStart prose.toList := by
      intro h
      exact hprose (dropWhile_subset _ (h.subset mem_cons_self))
    rw [append_assoc, singleton_append, splitOn_append_word hbreak hfence hnot, hlater]

theorem untagged_words : untagged (String.ofList (Chars.trimStart (prose.toList ++ ['\n']))) = untagged prose := by
  refine untagged_congr ?_
  have hagain : Chars.trimStart (Chars.trimStart (prose.toList ++ ['\n'])) = Chars.trimStart (prose.toList ++ ['\n']) :=
    dropWhile_idempotent isBlank _
  rw [← String.toList_inj, toList_trim, toList_trim, String.toList_ofList, Chars.trim, hagain]
  exact trim_concat_break prose.toList

theorem untagged_diagram {diagram : String} (hdrawn : IsDrawn diagram) :
    untagged (String.ofList ("plantuml\n".toList ++ diagram.toList ++ ['\n'])) = relined diagram := by
  have htrim :
      Text.trim (String.ofList ("plantuml\n".toList ++ diagram.toList ++ ['\n'])) = "plantuml" ++ "\n" ++ diagram := by
    have htag : ("plantuml" ++ "\n" ++ diagram).toList = "plantuml\n".toList ++ diagram.toList := by
      rw [String.toList_append]
      rfl
    rw [← String.toList_inj, toList_trim, String.toList_ofList, trim_concat_break, htag]
    refine trim_eq_self ?_ ?_
    · intro c hc
      cases hc
      decide
    · rw [getLast?_append_of_ne_nil _ (by simpa using hdrawn.bounded.ne_empty), hdrawn.bounded.getLast?_eq]
      intro c hc
      cases hc
      decide
  have hlower : Text.startsWith (Text.lower ("plantuml" ++ "\n" ++ diagram)) "plantuml" := by
    rw [Text.startsWith, startsWith_iff, toList_lower]
    refine prefix_lowerAfter (by decide) ?_ []
    rw [String.toList_append, String.toList_append, List.append_assoc]
    exact List.prefix_append ..
  have hlines : (Text.lines ("plantuml" ++ "\n" ++ diagram)).drop 1 = Text.lines diagram := by
    rw [lines_append_break, lines_of_isOneLine (by decide)]
    rfl
  simp only [untagged, htrim, hlower, hlines, if_true]
  exact hdrawn.relined_bounded.trim_eq

/-- **What is taken out of a reply**: the diagram, if nothing is left of the words before it, and these words else. -/
theorem unfenced_chat {prose diagram : String} (hprose : '\x60' ∉ prose.toList) (hdrawn : IsDrawn diagram) :
    unfenced (Text.trim (chat prose diagram)) = if untagged prose = "" then relined diagram else untagged prose := by
  have hcontains : Text.contains (Text.trim (chat prose diagram)) "\x60\x60\x60" := by
    rw [contains_iff, toList_trim_chat]
    exact (List.prefix_append ..).isInfix.trans (List.suffix_append ..).isInfix
  have hparts : Text.splitOn (Text.trim (chat prose diagram)) "\x60\x60\x60" =
      [String.ofList (Chars.trimStart (prose.toList ++ ['\n'])),
        String.ofList ("plantuml\n".toList ++ diagram.toList ++ ['\n']), String.ofList []] := by
    rw [Text.splitOn, show "\x60\x60\x60".toList = fence from rfl, splitOn_chat hprose hdrawn]
    rfl
  rw [unfenced, if_pos hcontains, hparts, map_cons, map_cons, untagged_words, untagged_diagram hdrawn]
  have hfirst : ∀ {s : String} (ss : List String), s ≠ "" → (s :: ss).find? (· != "") = some s :=
    fun ss hs => find?_cons_of_pos (bne_iff_ne.mpr hs)
  by_cases hempty : untagged prose = ""
  · rw [if_pos hempty, hempty, find?_cons_of_neg (by decide), hfirst _ hdrawn.relined_bounded.ne_empty,
      Option.getD_some]
  · rw [if_neg hempty, hfirst _ hempty, Option.getD_some]

/-! ### Words of any case -/

theorem contains_lower_iff {word : String} (hword : lacksSigma word.toList) (text : String) :
    Text.contains (Text.lower text) word ↔ word.toList <:+: text.toList.flatMap foldChar := by
  rw [contains_iff, toList_lower, infix_lowerAfter_iff hword]

theorem speaksOfCash_iff (text : String) : speaksOfCash text ↔ "atm".toList <:+: text.toList.flatMap foldChar :=
  contains_lower_iff (by decide) text

theorem speaksOfCash_chat {prose : String} (hcash : speaksOfCash prose = false) (diagram : String) :
    speaksOfCash (Text.trim (chat prose diagram)) = speaksOfCash diagram := by
  rw [Bool.eq_iff_iff, speaksOfCash_iff, speaksOfCash_iff]
  constructor
  · intro h
    have hchat := h.trans (flatMap_isInfix foldChar (trim_isInfix (chat prose diagram)))
    rw [chat, toList_join, show ("\n" : String).toList = ['\n'] from rfl,
      infix_fold_join_iff (by decide) (by decide)] at hchat
    simp only [map_cons, map_nil, exists_mem_cons_iff, not_mem_nil, false_and, exists_false, or_false]
      at hchat
    rcases hchat with hprose | htag | hdiagram | hfence
    · rw [← speaksOfCash_iff, hcash] at hprose
      cases hprose
    · exact absurd htag (by decide)
    · exact hdiagram
    · exact absurd hfence (by decide)
  · intro h
    refine h.trans (flatMap_isInfix foldChar ?_)
    rw [toList_trim_chat, fenced]
    exact ⟨Chars.trimStart (prose.toList ++ ['\n']) ++ fence ++ "plantuml\n".toList, '\n' :: (fence ++ []), by
      simp only [append_assoc]⟩

theorem framed_untagged {prose : String} (h : Text.contains (Text.lower prose) "@startuml" = false) :
    framed (untagged prose) = withFrame (untagged prose) := by
  have hword : lacksSigma "@startuml".toList := by decide
  have hprose : ¬ "@startuml".toList <:+: prose.toList.flatMap foldChar := by
    rw [← contains_lower_iff hword, h]
    exact Bool.false_ne_true
  have htrim : ∀ text : String, "@startuml".toList <:+: (Text.trim text).toList.flatMap foldChar →
      "@startuml".toList <:+: text.toList.flatMap foldChar :=
    fun text htext => htext.trans (flatMap_isInfix foldChar (trim_isInfix text))
  have huntagged : ¬ "@startuml".toList <:+: (untagged prose).toList.flatMap foldChar := by
    simp only [untagged]
    split
    · intro hlines
      have hjoin := htrim _ hlines
      rw [toList_join, show ("\n" : String).toList = ['\n'] from rfl,
        infix_fold_join_iff (by decide) (by decide)] at hjoin
      obtain ⟨l, hl, hpart⟩ := hjoin
      obtain ⟨line, hline, rfl⟩ := mem_map.mp hl
      have hmem : line ∈ Text.lines (Text.trim prose) := drop_subset _ _ hline
      exact hprose (htrim _ (hpart.trans (flatMap_isInfix foldChar (infix_of_mem_lines hmem))))
    · exact fun hpart => hprose (htrim _ hpart)
  have hnone : Text.find? (Text.lower (untagged prose)) "@startuml" = none := by
    rw [Text.find?, find?_eq_none_iff, toList_lower, infix_lowerAfter_iff hword]
    exact huntagged
  simp only [framed, hnone]

/-! ### What the words of a reply change -/

def isPlain : DiagramKind → Bool
  | .sequence | .usecase | .communication => true
  | .state | .activity | .class | .component | .deployment => false

/-- The kinds of diagrams that take no word from the reply, once they are in their frame. -/
def isSelfContained (kind : DiagramKind) : Bool := isPlain kind || kind == .component || kind == .deployment

theorem settled_of_isPlain (h : isPlain kind) (reply diagram : String) :
    settled (some kind) reply diagram = plainDiagram diagram := by
  cases kind with
  | sequence | usecase | communication => exact ite_self _
  | state | activity | «class» | component | deployment => cases h

/-- **The words of a reply change nothing in a diagram** of these kinds, but whether they speak of cash machines. -/
theorem settled_congr (hkind : isSelfContained kind) {reply reply' diagram : String}
    (hframed : IsFramed diagram) (hcash : speaksOfCash reply = speaksOfCash reply') :
    settled (some kind) reply diagram = settled (some kind) reply' diagram := by
  cases kind with
  | sequence | usecase | communication => rw [settled_of_isPlain rfl, settled_of_isPlain rfl]
  | component =>
    have hvalid : isValid (some .component) diagram := isValid_component_iff.mpr hframed
    have hcleaned : ∀ reply, settled (some .component) reply diagram = diagram := fun reply => if_pos hvalid
    rw [hcleaned, hcleaned]
  | deployment =>
    have hsettled : ∀ reply, settled (some .deployment) reply diagram =
        if isValid (some .deployment) diagram then diagram else replacement (some .deployment) reply diagram :=
          fun _ => rfl
    have hstandIn : replacement (some .deployment) reply diagram = replacement (some .deployment) reply' diagram := by
      unfold replacement
      rw [hcash]
    rw [hsettled, hsettled, hstandIn]
  | state | activity | «class» => cases hkind

theorem normal_of_isDrawn {diagram : String} (h : IsDrawn diagram) (kind : Option DiagramKind) :
    normal kind diagram = settled kind diagram diagram := by
  have hunfenced : unfenced diagram = diagram := by
    rw [unfenced, h.noFence, if_neg Bool.false_ne_true]
  have htrim := h.bounded.trim_eq
  have hne : Text.trim diagram ≠ "" := by
    rw [htrim]
    exact h.bounded.ne_empty
  rw [normal_eq_settled hne, htrim, hunfenced, h.bounded.framed_eq]

/-- **The diagram of a reply in which a diagram stands between fences.**  If nothing is left of the words before it,
they change nothing: the diagram is the one that it is without them, where its lines end in line feeds or are looked
through one by one.  Something is left of all words but blanks and one line that starts with the name of the notation,
and it is taken in place of the diagram. -/
theorem normal_chat (kind : DiagramKind) (hkind : isSelfContained kind = true) (prose diagram : String)
    (hdrawn : IsDrawn diagram) (hticks : '\x60' ∉ prose.toList)
    (hopening : Text.contains (Text.lower prose) "@startuml" = false) (hcash : speaksOfCash prose = false) :
    (normal (some kind) (chat prose diagram) = settled (some kind) diagram
        (if untagged prose = "" then relined diagram else withFrame (untagged prose))) ∧
      (untagged prose = "" → isPlain kind = true ∨ (∀ c ∈ diagram.toList, isLineBreak c = true → c = '\n') →
        normal (some kind) (chat prose diagram) = normal (some kind) diagram) ∧
      (untagged prose = "" ↔ Text.trim prose = "" ∨ Text.startsWith (Text.lower (Text.trim prose)) "plantuml" = true ∧
        Text.isOneLine (Text.trim prose) = true) := by
  have hnormal : normal (some kind) (chat prose diagram) = settled (some kind) diagram
      (if untagged prose = "" then relined diagram else withFrame (untagged prose)) := by
    rw [normal_eq_settled (trim_chat_ne_empty prose diagram), unfenced_chat hticks hdrawn]
    split
    · rw [hdrawn.relined_bounded.framed_eq]
      exact settled_congr hkind hdrawn.relined_bounded.isFramed (speaksOfCash_chat hcash diagram)
    · rw [framed_untagged hopening]
      exact settled_congr hkind (isFramed_withFrame _) (speaksOfCash_chat hcash diagram)
  refine ⟨hnormal, ?_, untagged_eq_empty_iff prose⟩
  intro hempty hends
  rw [hnormal, if_pos hempty, normal_of_isDrawn hdrawn]
  rcases hends with hplain | hfeeds
  · rw [settled_of_isPlain hplain, settled_of_isPlain hplain, plainDiagram, plainDiagram, hdrawn.lines_relined]
  · rw [hdrawn.relined_eq hfeeds]

theorem isDrawn_message : IsDrawn "@startuml\nA -> B\n@enduml" := ⟨⟨["A -> B"], by decide⟩, by decide⟩

/-- Words that start with the name of the notation are passed over. -/
theorem normal_chat_named :
    isSelfContained .component = true ∧ '\x60' ∉ "PlantUML of the system:".toList ∧
      Text.contains (Text.lower "PlantUML of the system:") "@startuml" = false ∧
      speaksOfCash "PlantUML of the system:" = false ∧ untagged "PlantUML of the system:" = "" ∧
      normal (some .component) (chat "PlantUML of the system:" "@startuml\nA -> B\n@enduml") =
        normal (some .component) "@startuml\nA -> B\n@enduml" := by
  have hticks : '\x60' ∉ "PlantUML of the system:".toList := by decide
  have hopening : Text.contains (Text.lower "PlantUML of the system:") "@startuml" = false := by decide +kernel
  have hcash : speaksOfCash "PlantUML of the system:" = false := by decide +kernel
  have hempty : untagged "PlantUML of the system:" = "" := by decide +kernel
  have hfeeds : "@startuml\nA -> B\n@enduml".toList.all (fun c => !isLineBreak c || c == '\n') = true := by decide
  obtain ⟨_, hsame, _⟩ := normal_chat .component rfl "PlantUML of the system:" _ isDrawn_message hticks hopening hcash
  refine ⟨rfl, hticks, hopening, hcash, hempty, hsame hempty (.inr fun c hc hbreak => ?_)⟩
  simpa [hbreak] using List.all_eq_true.mp hfeeds c hc

/-- Other words are taken in place of the diagram. -/
theorem normal_chat_introduced :
    IsDrawn "@startuml\nA -> B\n@enduml" ∧ '\x60' ∉ "Here is the diagram:".toList ∧
      Text.contains (Text.lower "Here is the diagram:") "@startuml" = false ∧
      speaksOfCash "Here is the diagram:" = false ∧
      normal (some .sequence) "@startuml\nA -> B\n@enduml" = "@startuml\nA -> B\n@enduml" ∧
      normal (some .sequence) (chat "Here is the diagram:" "@startuml\nA -> B\n@enduml") =
        "@startuml\nHere is the diagram:\n@enduml" :=
  ⟨isDrawn_message, by decide, by decide +kernel, by decide +kernel, by decide +kernel, by decide +kernel⟩

end CodeAtlas.Reply
