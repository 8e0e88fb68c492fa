import CodeAtlas.Diagram.SizeLimit
import CodeAtlas.Proofs.Diagram.Scope
import CodeAtlas.Proofs.Text.Folding
import CodeAtlas.Proofs.Text.OneLine

/-!
# Scope in diagrams that are cut

A diagram that is too large is cut as a text, line by line.  Cutting it as a list of lines comes to the same, and no
name is used there without its declaration, unless a line is taken for the note of the cut.

* `SizeLimit.opensNote_iff`: which lines are taken for the note;
* **`isScoped_limitLines`**: a diagram in which names are declared before they are used stays so when it is cut.
-/

namespace CodeAtlas

open List Chars SizeLimit

namespace SizeLimit

/-! ### Lines and their texts -/

section Texts

variable {α : Type} {text : α → String} {plain : String → α}

theorem map_plain (htext : ∀ s, text (plain s) = s) (ss : List String) : (ss.map plain).map text = ss := by
  rw [map_map]
  exact (map_congr_left fun s _ => htext s).trans (map_id ss)

theorem map_cutLines (htext : ∀ s, text (plain s) = s) (n : Int) (ls : List α) :
    (cutLines text plain n ls).map text = cutLines id id n (ls.map text) := by
  have hfind : text ((ls.find? fun l => closes (text l)).getD (plain "@enduml")) =
      ((ls.map text).find? fun l => closes l).getD "@enduml" := by
    rw [find?_map]
    show text ((ls.find? fun l => closes (text l)).getD _) = ((ls.find? fun l => closes (text l)).map text).getD _
    cases ls.find? fun l => closes (text l) with
    | none => exact htext "@enduml"
    | some l => rfl
  unfold cutLines
  rw [map_append, map_append, map_take, map_plain htext, map_singleton, hfind, map_id]
  rfl

theorem map_closed (htext : ∀ s, text (plain s) = s) (ls : List α) :
    (closed text plain ls).map text = closed id id (ls.map text) := by
  have hlast : ((ls.map text).getLast?.map fun l => closes l) = ls.getLast?.map fun l => closes (text l) := by
    rw [getLast?_map, Option.map_map]
    rfl
  unfold closed
  rw [show ((ls.map text).getLast?.map fun l => closes (id l)) = _ from hlast]
  split
  · rfl
  · rw [map_append, map_singleton, htext]
    rfl

theorem map_shrinkHead (n : Int) (size count : Nat) (ls : List α) :
    (shrinkHead text n size count ls).map text = shrinkHead id n size count (ls.map text) := by
  fun_induction shrinkHead text n size count ls with
  | case1 size count l m k rest hlarge ih =>
    rw [ih]
    exact (if_pos hlarge).symm
  | case2 size count l m k rest hsmall => exact (if_neg hsmall).symm
  | case3 size count ls hshort =>
    rcases ls with _ | ⟨l, _ | ⟨m, _ | ⟨k, rest⟩⟩⟩
    · rfl
    · rfl
    · rfl
    · exact absurd rfl (hshort l m k rest)

theorem headLength_map (ls : List α) : headLength id (ls.map text) = headLength text ls := by
  simp only [headLength, findIdx?_map, length_map, Function.comp_def, id]

theorem map_shrink (n : Int) (ls : List α) : (shrink text n ls).map text = shrink id n (ls.map text) := by
  unfold shrink
  rw [map_append, map_reverse, map_shrinkHead, map_reverse, map_take, map_drop, headLength_map, length_map, map_id]

theorem map_firstLines (htext : ∀ s, text (plain s) = s) (n : Int) (ls : List α) :
    (firstLines text plain n ls).map text = firstLines id id n (ls.map text) := by
  unfold firstLines
  rw [map_closed htext, length_map]
  split
  · rw [map_cutLines htext]
  · rfl

theorem limited?_map (htext : ∀ s, text (plain s) = s) (theme : String) (n k : Int) (ls : List α) :
    limited? id id theme n k (ls.map text) = (limited? text plain theme n k ls).map (List.map text) := by
  unfold limited?
  dsimp only
  rw [← map_firstLines htext, ← map_shrink, length_map, length_map, length_map, map_id, map_id]
  split
  · rw [Option.map_some, map_plain htext]
  · split <;> rfl

end Texts

/-! ### Octets -/

theorem octets_cons (l m : String) (ls : List String) :
    octets (l :: m :: ls) = l.utf8ByteSize + 1 + octets (m :: ls) := by
  unfold octets
  rw [Text.join_cons_cons, String.utf8ByteSize_append, String.utf8ByteSize_append]
  rfl

theorem octets_singleton (l : String) : octets [l] = l.utf8ByteSize := by
  show (String.ofList l.toList).utf8ByteSize = _
  rw [String.ofList_toList]

theorem octets_add_one {ls : List String} (h : ls ≠ []) :
    octets ls + 1 = ls.foldr (fun l n => l.utf8ByteSize + 1 + n) 0 := by
  induction ls with
  | nil => exact absurd rfl h
  | cons l ls ih =>
    cases ls with
    | nil => rw [octets_singleton, foldr_cons, foldr_nil]
    | cons m ls =>
      rw [octets_cons, foldr_cons, ← ih (cons_ne_nil m ls)]
      omega

theorem octets_append {a b : List String} (ha : a ≠ []) (hb : b ≠ []) : octets (a ++ b) = octets a + 1 + octets b := by
  obtain ⟨m, b, rfl⟩ := exists_cons_of_ne_nil hb
  induction a with
  | nil => exact absurd rfl ha
  | cons l a ih =>
    cases a with
    | nil => rw [singleton_append, octets_cons, octets_singleton]
    | cons k a =>
      rw [cons_append, cons_append, octets_cons, ← cons_append, ih (cons_ne_nil k a), octets_cons]
      omega

theorem octets_insert (a : List String) (l : String) {b : List String} (hb : b ≠ []) :
    octets (a ++ l :: b) = octets (a ++ b) + l.utf8ByteSize + 1 := by
  have hline : octets (l :: b) = l.utf8ByteSize + 1 + octets b := by
    rw [← singleton_append, octets_append (cons_ne_nil l []) hb, octets_singleton]
  cases a with
  | nil => rw [nil_append, nil_append, hline]; omega
  | cons k a =>
    rw [octets_append (cons_ne_nil k a) (cons_ne_nil l b), octets_append (cons_ne_nil k a) hb, hline]
    omega

end SizeLimit

/-! ### Diagrams and their texts -/

namespace Line

/-- The lines that a line takes as a text: itself, unless there are line breaks in it. -/
def pieces (l : Line) : List Line :=
  if Text.lines (l.text ++ "\n") = [l.text] then [l] else (Text.lines (l.text ++ "\n")).map plain

def ending : List Line := [empty, close]

theorem map_text_pieces (l : Line) : l.pieces.map text = Text.lines (l.text ++ "\n") := by
  unfold pieces
  split
  next h => exact h.symm
  · exact map_plain (fun _ => rfl) _

theorem pieces_of_isOneLine {l : Line} (h : Text.isOneLine l.text) : l.pieces = [l] :=
  if_pos (Text.lines_of_isOneLine h)

theorem flatMap_pieces {ls : List Line} (h : ∀ l ∈ ls, Text.isOneLine l.text) : ls.flatMap pieces = ls := by
  induction ls with
  | nil => rfl
  | cons l ls ih =>
    rw [flatMap_cons, pieces_of_isOneLine (h l mem_cons_self), singleton_append,
      ih fun m hm => h m (mem_cons_of_mem l hm)]

theorem eq_plain_of_mem_pieces {s : String} {l : Line} (h : l ∈ (plain s).pieces) : ∃ t, l = plain t := by
  unfold pieces at h
  split at h
  · exact ⟨s, mem_singleton.mp h⟩
  · obtain ⟨t, _, rfl⟩ := mem_map.mp h
    exact ⟨t, rfl⟩

theorem render_cons (l : Line) {ls : List Line} (h : ls ≠ []) : render (l :: ls) = l.text ++ "\n" ++ render ls := by
  obtain ⟨m, ms, rfl⟩ := exists_cons_of_ne_nil h
  exact Text.join_cons_cons "\n" l.text m.text (ms.map text)

theorem lines_render (ls : List Line) :
    Text.lines (render (ls ++ [close])) = ((ls ++ [close]).flatMap pieces).map text := by
  induction ls with
  | nil => decide +kernel
  | cons l ls ih =>
    rw [cons_append, render_cons l (by simp), Text.lines_append_break, ih, flatMap_cons, map_append, map_text_pieces]

end Line

@[irreducible] def limitLines (theme : String) (ls : List Line) : List Line :=
  (limited? Line.text .plain theme 2000 8000 (ls.flatMap Line.pieces)).getD ls

/-- **Cutting a diagram and cutting its text is the same.** -/
theorem limitSize_render (theme : String) (ls : List Line) :
    limitSize theme (Line.render (ls ++ [.close])) 2000 8000 = Line.render (limitLines theme (ls ++ [.close])) := by
  have htext : ∀ s, (Line.plain s).text = s := fun _ => rfl
  unfold limitSize limitLines
  rw [Line.lines_render, limited?_map htext]
  generalize limited? Line.text Line.plain theme 2000 8000 _ = kept
  cases kept with
  | _ => rfl

/-! ### The note of a cut -/

theorem Chars.mem_trim {s : List Char} {c : Char} (h : c ∈ s) (hc : isBlank c = false) : c ∈ trim s := by
  have hdrop : ∀ {s : List Char}, c ∈ s → c ∈ s.dropWhile isBlank := by
    intro s h
    rw [← takeWhile_append_dropWhile (p := isBlank) (l := s), mem_append] at h
    refine h.resolve_left fun htake => ?_
    rw [mem_takeWhile_imp htake] at hc
    cases hc
  exact mem_reverse.mpr (hdrop (mem_reverse.mpr (hdrop h)))

namespace SizeLimit

def noteStart : List Char := "note as WARNING".toList

/-- Whether a text starts like the note of a cut, blanks before it aside. -/
def opensNote (s : String) : Bool := Chars.startsWith noteStart (Chars.trimStart s.toList)

section

variable {s p : String} {c : Char} {α : Type} (text : α → String) (n : Int)

theorem opensNote_iff : opensNote s ↔ noteStart <+: Chars.trimStart s.toList := startsWith_iff

theorem opensNote_eq_false_iff : opensNote s = false ↔ ¬ noteStart <+: Chars.trimStart s.toList := by
  rw [← opensNote_iff, Bool.not_eq_true]

theorem startsNote_eq_false (h : opensNote s = false) : startsNote s = false := by
  rw [← Bool.not_eq_true]
  intro hstarts
  have hopens : noteStart <+: (Text.trim s).toList := startsWith_iff.mp hstarts
  obtain ⟨t, heq, _⟩ := exists_trimEnd_append (Chars.trimStart s.toList)
  rw [Text.toList_trim, Chars.trim] at hopens
  refine opensNote_eq_false_iff.mp h (hopens.trans ?_)
  nth_rewrite 2 [heq]
  exact prefix_append _ _

/-- A text differs from the start of a note before both of them end. -/
def Departs (p : String) : Prop :=
  ¬ noteStart <+: Chars.trimStart p.toList ∧ ¬ Chars.trimStart p.toList <+: noteStart

instance (p : String) : Decidable (Departs p) := inferInstanceAs (Decidable (_ ∧ _))

theorem opensNote_append (h : Departs p) (s : String) : opensNote (p ++ s) = false := by
  obtain ⟨hlong, hshort⟩ := h
  rw [opensNote_eq_false_iff]
  intro hprefix
  have hsolid : ¬ isBlankOnly p.toList := by
    intro hblank
    rw [trimStart_eq_nil_iff.mpr hblank] at hshort
    exact hshort nil_prefix
  rw [String.toList_append, trimStart_append, if_neg hsolid] at hprefix
  exact (List.prefix_or_prefix_of_prefix hprefix (prefix_append _ _)).elim hlong hshort

theorem opensNote_blanks (h : isBlankOnly p.toList) (s : String) : opensNote (p ++ s) = opensNote s := by
  rw [opensNote, String.toList_append, trimStart_append, if_pos h]
  rfl

theorem opensNote_of_not_mem (h : 'W' ∉ s.toList) : opensNote s = false := by
  rw [opensNote_eq_false_iff]
  intro hprefix
  have hmem : 'W' ∈ Chars.trimStart s.toList := hprefix.subset (by decide)
  exact h (dropWhile_subset _ hmem)

/-- A text that does not start like the note does not do so with a blank and something other than its words after it. -/
theorem opensNote_append_word (h : opensNote s = false) {t : String} {cs : List Char}
    (ht : t.toList = ' ' :: c :: cs) (hc : isBlank c = false) (hn : c ≠ 'n') (ha : c ≠ 'a') (hw : c ≠ 'W') :
    opensNote (s ++ t) = false := by
  rw [opensNote_eq_false_iff, String.toList_append, trimStart_append, ht]
  split
  · have htrim : Chars.trimStart (' ' :: c :: cs) = c :: cs := by
      simp [Chars.trimStart, dropWhile_cons, hc]
      decide
    rw [htrim]
    intro hprefix
    obtain ⟨u, hu⟩ := hprefix
    exact hn (List.cons.inj hu).1.symm
  · intro hprefix
    rw [opensNote_eq_false_iff] at h
    rcases prefix_or_prefix_of_prefix hprefix (prefix_append _ _) with hshort | ⟨r, hr⟩
    · exact h hshort
    · -- the note goes on with a blank, and then with the first letter of one of its words
      rw [← hr, prefix_append_right_inj] at hprefix
      have hwords : ∀ i < 16, noteStart[i]? = some ' ' →
          noteStart[i + 1]? = some 'a' ∨ noteStart[i + 1]? = some 'W' := by decide
      have hlength : (Chars.trimStart s.toList).length < 16 := by
        have hle := congrArg List.length hr
        rw [length_append, show noteStart.length = 15 by decide] at hle
        omega
      have hindex : ∀ i, noteStart[(Chars.trimStart s.toList).length + i]? = r[i]? := by
        intro i
        rw [← hr, getElem?_append_right (Nat.le_add_right _ _), Nat.add_sub_cancel_left]
      have hnext := hwords _ hlength
      rw [hindex 1, show noteStart[(Chars.trimStart s.toList).length]? = r[0]? from hindex 0] at hnext
      obtain ⟨u, hu⟩ := hprefix
      rcases r with _ | ⟨d, _ | ⟨e, r⟩⟩
      · rw [append_nil] at hr
        exact h (hr ▸ prefix_rfl)
      · cases hu
        rcases hnext rfl with hnone | hnone <;> cases hnone
      · cases hu
        rcases hnext rfl with heq | heq
        · exact ha (Option.some.inj heq)
        · exact hw (Option.some.inj heq)

def drawingMarks : List Char := ['-', '.', '\x7b', '\x7d']

theorem closes_eq_false_of_mem (hc : c ∈ drawingMarks) (h : c ∈ s.toList) : closes s = false := by
  have hmark : isBlank c = false ∧ (∀ before after, c ∈ lowerAt before c after) ∧ c ∉ "@enduml".toList := by
    simp only [drawingMarks, mem_cons, not_mem_nil, or_false] at hc
    rcases hc with rfl | rfl | rfl | rfl <;>
      exact ⟨by decide, fun _ _ => by rw [lowerAt, if_neg (by decide)]; decide, by decide⟩
  obtain ⟨hblank, hcase, hclosing⟩ := hmark
  have hlower : ∀ before cs, c ∈ cs → c ∈ lowerAfter before cs := by
    intro before cs hmem
    induction cs generalizing before with
    | nil => cases hmem
    | cons d ds ih =>
      rw [lowerAfter, mem_append]
      rcases mem_cons.mp hmem with rfl | hmem
      · exact .inl (hcase before ds)
      · exact .inr (ih _ hmem)
  rw [closes, beq_eq_false_iff_ne]
  intro hclose
  have hmem : c ∈ (Text.lower (Text.trim s)).toList := by
    rw [Text.lower, String.toList_ofList, Text.toList_trim]
    exact hlower _ _ (mem_trim h hblank)
  rw [hclose] at hmem
  exact hclosing hmem

/-- A line with a hyphen or a full stop does not close a diagram. -/
theorem closes_eq_false (hc : c = '-' ∨ c = '.') (h : c ∈ s.toList) : closes s = false := by
  rcases hc with rfl | rfl
  · exact closes_eq_false_of_mem (by decide) h
  · exact closes_eq_false_of_mem (by decide) h

/-! ### Scope -/

theorem shrinkHead_suffix (size count : Nat) (ls : List α) : shrinkHead text n size count ls <:+ ls := by
  fun_induction shrinkHead text n size count ls with
  | case1 size count l m k rest hlarge ih => exact ih.trans (suffix_cons l _)
  | _ => exact suffix_rfl

/-- What is left of the lines before the note, or before the last two lines. -/
def headLeft {α : Type} (text : α → String) (maxOctets : Int) (ls : List α) : List α :=
  (shrinkHead text maxOctets (octets (ls.map text)) ls.length (ls.take (headLength text ls)).reverse).reverse

theorem headLeft_isPrefix (ls : List α) : headLeft text n ls <+: ls.take (headLength text ls) := by
  have hsuffix := shrinkHead_suffix text n (octets (ls.map text)) ls.length (ls.take (headLength text ls)).reverse
  rwa [← reverse_prefix, reverse_reverse] at hsuffix

theorem shrink_eq (ls : List α) : shrink text n ls = headLeft text n ls ++ ls.drop (headLength text ls) := rfl

theorem headLength_append {text : α → String} {a b c : List α} (hb : ∀ l ∈ b, startsNote (text l) = false)
    (hc : 2 ≤ c.length) :
    headLength text (a ++ b ++ c) ≤ a.length ∨ (a ++ b).length ≤ headLength text (a ++ b ++ c) := by
  unfold headLength
  cases hfound : (a ++ b ++ c).findIdx? fun l => startsNote (text l) with
  | none =>
    rw [Option.getD_none]
    simp only [length_append]
    omega
  | some i =>
    rw [Option.getD_some]
    by_contra hbetween
    rw [not_or, not_le, not_le] at hbetween
    obtain ⟨hi, hnote, _⟩ := findIdx?_eq_some_iff_getElem.mp hfound
    rw [getElem_append_left hbetween.2, getElem_append_right hbetween.1.le, hb _ (getElem_mem _)] at hnote
    cases hnote

end

variable {α : Type} {text : α → String} {plain : String → α} {n : Int} {ls : List α} {l : α}
  {pre mid tail body : List Line}

theorem isScoped_shrink (hpre : declaredNames pre = []) (hmid : ∀ l ∈ mid, startsNote l.text = false)
    (htail : ∀ l ∈ tail, l.ends = []) (hlength : 2 ≤ tail.length) (h : IsScoped [] (pre ++ mid)) :
    IsScoped [] (shrink Line.text n (pre ++ mid ++ tail)) := by
  have hall : IsScoped [] (pre ++ mid ++ tail) := isScoped_append.mpr ⟨h, .of_ends_nil htail⟩
  have hhead := headLeft_isPrefix Line.text n (pre ++ mid ++ tail)
  have hk := headLength_append (a := pre) hmid hlength
  rw [shrink_eq]
  generalize headLeft Line.text n (pre ++ mid ++ tail) = head at hhead
  generalize headLength Line.text (pre ++ mid ++ tail) = k at hhead hk
  rw [← take_append_drop k (pre ++ mid ++ tail), isScoped_append] at hall
  obtain ⟨rest, hrest⟩ := hhead
  have hscoped : IsScoped [] head := by
    rw [← hrest, isScoped_append] at hall
    exact hall.1.1
  refine isScoped_append.mpr ⟨hscoped, ?_⟩
  rcases hk with hk | hk
  · -- the lines before the note declare nothing
    have hnone : declaredNames ((pre ++ mid ++ tail).take k) = [] := by
      rw [← subset_nil, ← hpre, append_assoc, take_append_of_le_length hk]
      exact declaredNames_subset (take_subset k pre)
    rw [hnone] at hall
    exact hall.2.mono (nil_subset _)
  · refine .of_ends_nil fun l hl => htail l ?_
    rw [drop_append, drop_eq_nil_of_le hk, nil_append] at hl
    exact mem_of_mem_drop hl

theorem firstLines_of_le (hn : ls.length ≤ n) (hlast : ls.getLast? = some l) (hcloses : closes (text l)) :
    firstLines text plain n ls = ls := by
  unfold firstLines closed
  rw [if_neg (Int.not_lt.mpr hn), hlast, Option.map_some, Option.getD_some, if_pos hcloses]

theorem firstLines_of_lt (hn : n < ls.length) (hl : l ∈ ls) (hcloses : closes (text l)) :
    ∃ m ∈ ls, closes (text m) ∧ firstLines text plain n ls = ls.take (n - 4).toNat ++ (cutNote.map plain ++ [m]) := by
  cases hfound : ls.find? fun l => closes (text l) with
  | none => exact absurd hcloses (find?_eq_none.mp hfound l hl)
  | some m =>
    have hmcloses := find?_some (p := fun l => closes (text l)) hfound
    refine ⟨m, mem_of_find?_eq_some hfound, hmcloses, ?_⟩
    unfold firstLines
    rw [if_pos hn, closed, cutLines, hfound]
    simp [hmcloses]

theorem firstLines_eq (hclosing : ∀ l ∈ pre ++ body, closes l.text → l.ends = []) :
    ∃ pre' mid tail, firstLines Line.text .plain n (pre ++ body ++ Line.ending) = pre' ++ mid ++ tail ∧
      pre' <+: pre ∧ mid ⊆ body ++ Line.ending ∧ pre' ++ mid <+: pre ++ body ++ Line.ending ∧
      2 ≤ tail.length ∧ ∀ l ∈ tail, l.ends = [] := by
  have hclose : closes (Line.text .close) := by decide +kernel
  by_cases hn : n < (pre ++ body ++ Line.ending).length
  · obtain ⟨l, hl, hlcloses, hfirst⟩ := firstLines_of_lt hn (by simp [Line.ending] : Line.close ∈ _) hclose
    have hlends : l.ends = [] := by
      rcases mem_append.mp hl with hl | hl
      · exact hclosing l hl hlcloses
      · revert hl
        simp only [Line.ending, mem_cons, not_mem_nil, or_false]
        rintro (rfl | rfl) <;> rfl
    refine ⟨pre.take (n - 4).toNat, (body ++ Line.ending).take ((n - 4).toNat - pre.length),
      cutNote.map .plain ++ [l], ?_, take_prefix _ _, take_subset _ _, ?_, by simp [cutNote], ?_⟩
    · rw [hfirst, append_assoc pre, take_append]
    · rw [← take_append, ← append_assoc]
      exact take_prefix _ _
    · intro m hm
      rcases mem_append.mp hm with hm | hm
      · obtain ⟨s, _, rfl⟩ := mem_map.mp hm
        rfl
      · rw [mem_singleton.mp hm, hlends]
  · have hlast : (pre ++ body ++ Line.ending).getLast? = some .close := getLast?_append_cons _ _ _
    rw [firstLines_of_le (Int.not_lt.mp hn) hlast hclose]
    exact ⟨pre, body, Line.ending, rfl, prefix_rfl, subset_append_left _ _, prefix_append _ _,
      Nat.le_refl 2, by simp [Line.ending]⟩

/-- What is left of a diagram declares names before they are used, unless one of its lines after the opening is taken
for the note. -/
theorem isScoped_limited? {theme : String} {k : Int} {kept : List Line}
    (hpre : ∀ l ∈ pre, ∃ s, l = .plain s) (hquiet : ∀ l ∈ body, startsNote l.text = false)
    (hclosing : ∀ l ∈ body, closes l.text → l.ends = []) (hscoped : IsScoped [] (pre ++ body))
    (h : limited? Line.text .plain theme n k (pre ++ body ++ Line.ending) = some kept) : IsScoped [] kept := by
  unfold limited? at h
  dsimp only at h
  split at h
  · cases h
    refine .of_ends_nil fun l hl => ?_
    obtain ⟨s, _, rfl⟩ := mem_map.mp hl
    rfl
  · split at h
    · cases h
      have hclosing' : ∀ l ∈ pre ++ body, closes l.text = true → l.ends = [] := by
        intro l hl hcloses
        rcases mem_append.mp hl with hl | hl
        · obtain ⟨s, rfl⟩ := hpre l hl
          rfl
        · exact hclosing l hl hcloses
      obtain ⟨pre', mid, tail, heq, hpre', hmid, hhead, hlength, htail⟩ := firstLines_eq (n := n) hclosing'
      rw [heq]
      refine isScoped_shrink (declaredNames_plain fun l hl => hpre l (hpre'.subset hl))
        (fun l hl => ?_) htail hlength ?_
      · rcases mem_append.mp (hmid hl) with hl | hl
        · exact hquiet l hl
        · revert hl
          simp only [Line.ending, mem_cons, not_mem_nil, or_false]
          rintro (rfl | rfl) <;> decide +kernel
      · have hall : IsScoped [] (pre ++ body ++ Line.ending) :=
          isScoped_append.mpr ⟨hscoped, .of_ends_nil (by simp [Line.ending])⟩
        obtain ⟨rest, hrest⟩ := hhead
        rw [← hrest, isScoped_append] at hall
        exact hall.1
    · cases h

end SizeLimit

/-- A line that is cut like any other: it is on one line, is not taken for the note, and does not close the diagram if
it joins names. -/
structure Line.IsSafe (l : Line) : Prop where
  oneLine : Text.isOneLine l.text = true
  quiet : opensNote l.text = false
  stays : l.ends ≠ [] → SizeLimit.closes l.text = false

/-- **Cutting a diagram keeps declarations before their use.** -/
theorem isScoped_limitLines {opening body : List Line} (theme : String) (hopening : ∀ l ∈ opening, ∃ s, l = .plain s)
    (hbody : ∀ l ∈ body, l.IsSafe) (h : IsScoped [] (opening ++ body ++ Line.ending)) :
    IsScoped [] (limitLines theme (opening ++ body ++ Line.ending)) := by
  -- as a text the lines of the body are the same, and those of the opening still declare and join nothing
  have hending : ∀ l ∈ Line.ending, Text.isOneLine l.text := by decide
  have hpieces : (opening ++ body ++ Line.ending).flatMap Line.pieces =
      opening.flatMap Line.pieces ++ body ++ Line.ending := by
    rw [flatMap_append, flatMap_append, Line.flatMap_pieces fun l hl => (hbody l hl).oneLine,
      Line.flatMap_pieces hending]
  have hplain : ∀ l ∈ opening.flatMap Line.pieces, ∃ s, l = .plain s := by
    intro l hl
    obtain ⟨m, hm, hl⟩ := mem_flatMap.mp hl
    obtain ⟨s, rfl⟩ := hopening m hm
    exact Line.eq_plain_of_mem_pieces hl
  have hscoped : IsScoped [] (opening.flatMap Line.pieces ++ body) := by
    rw [isScoped_append, isScoped_append, declaredNames_plain hopening] at h
    rw [isScoped_append, declaredNames_plain hplain]
    refine ⟨.of_ends_nil fun l hl => ?_, h.1.2⟩
    obtain ⟨s, rfl⟩ := hplain l hl
    rfl
  have hclosing : ∀ l ∈ body, SizeLimit.closes l.text → l.ends = [] := by
    intro l hl hcloses
    by_contra hne
    rw [(hbody l hl).stays hne] at hcloses
    cases hcloses
  have hquiet : ∀ l ∈ body, startsNote l.text = false := fun l hl =>
    startsNote_eq_false (hbody l hl).quiet
  rw [limitLines, hpieces]
  cases hlimited : limited? Line.text .plain theme 2000 8000
      (opening.flatMap Line.pieces ++ body ++ Line.ending) with
  | none => exact h
  | some kept => exact isScoped_limited? hplain hquiet hclosing hscoped hlimited

def Line.EndsEmpty (ls : List Line) : Prop := ls = [] ∨ ∃ rest, ls = rest ++ [.empty]

namespace Line.EndsEmpty

variable {a b : List Line}

theorem append (ha : EndsEmpty a) (hb : EndsEmpty b) : EndsEmpty (a ++ b) := by
  rcases hb with rfl | ⟨rest, rfl⟩
  · rwa [append_nil]
  · exact .inr ⟨a ++ rest, (append_assoc a rest _).symm⟩

theorem flatten {parts : List (List Line)} (h : ∀ p ∈ parts, EndsEmpty p) : EndsEmpty parts.flatten := by
  induction parts with
  | nil => exact .inl rfl
  | cons p parts ih =>
    exact (h p mem_cons_self).append (ih fun q hq => h q (mem_cons_of_mem p hq))

end Line.EndsEmpty

/-- An opening without declarations, and a body that declares names before they are used, which stay in that order when
the diagram is cut. -/
structure IsCuttable (opening body : List Line) : Prop where
  opens : ∀ l ∈ opening, ∃ s, l = .plain s
  safe : ∀ l ∈ body, l.IsSafe
  endsEmpty : Line.EndsEmpty body
  inOrder : IsScoped [] body

theorem IsCuttable.of_declarations {opening decls lines : List Line} (hopening : ∀ l ∈ opening, ∃ s, l = .plain s)
    (hdecls : ∀ l ∈ decls, l.IsSafe ∧ l.ends = []) (hlines : ∀ l ∈ lines, l.IsSafe ∧ l.ends ⊆ declaredNames decls)
    (hempty : Line.EndsEmpty decls) (hempty' : Line.EndsEmpty lines) : IsCuttable opening (decls ++ lines) := by
  refine ⟨hopening, fun l hl => ?_, hempty.append hempty', ?_⟩
  · rcases mem_append.mp hl with hl | hl
    · exact (hdecls l hl).1
    · exact (hlines l hl).1
  · exact isScoped_of_declarations (fun l hl => (hdecls l hl).2) fun l hl => (hlines l hl).2

theorem IsCuttable.isScoped {opening body : List Line} (h : IsCuttable opening body) (theme : String) :
    IsScoped [] (limitLines theme (opening ++ [.empty] ++ body ++ [.close])) := by
  have hopens : ∀ l ∈ opening ++ [Line.empty], ∃ s, l = .plain s := by
    intro l hl
    rcases mem_append.mp hl with hl | hl
    · exact h.opens l hl
    · exact ⟨"", mem_singleton.mp hl⟩
  have hends : ∀ {ls : List Line}, (∀ l ∈ ls, ∃ s, l = .plain s) → ∀ l ∈ ls, l.ends = [] := by
    intro ls hls l hl
    obtain ⟨s, rfl⟩ := hls l hl
    rfl
  have hscoped : IsScoped [] (opening ++ [.empty] ++ body ++ [.close]) := by
    rw [isScoped_append, isScoped_append, declaredNames_plain hopens]
    exact ⟨⟨.of_ends_nil (hends hopens), h.inOrder⟩, .of_ends_nil (by simp)⟩
  -- the empty line before the closing one is the last of the body, or that of the opening
  rcases h.endsEmpty with rfl | ⟨rest, rfl⟩
  · have heq : opening ++ [.empty] ++ [] ++ [.close] = opening ++ [] ++ Line.ending := by simp [Line.ending]
    rw [heq] at hscoped ⊢
    exact isScoped_limitLines theme h.opens (by simp) hscoped
  · have heq : opening ++ [.empty] ++ (rest ++ [.empty]) ++ [.close] = opening ++ [.empty] ++ rest ++ Line.ending := by
      simp [Line.ending]
    rw [heq] at hscoped ⊢
    exact isScoped_limitLines theme hopens (fun l hl => h.safe l (mem_append_left _ hl)) hscoped

end CodeAtlas
