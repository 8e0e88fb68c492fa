import CodeAtlas.Proofs.Diagram.Truncation
import CodeAtlas.Proofs.Value.Display

/-!
# Blocks of lines

A line that ends with an opening brace opens a block, and a closing brace on a line of its own closes it.  Lines are cut
from a diagram without regard to blocks, so that a block may lose the line that closes it.
-/

namespace CodeAtlas

open List

namespace Block

def opens (l : String) : Bool := Text.endsWith l "\x7b"

def closes (l : String) : Bool := l == "\x7d"

def isBracket (l : String) : Bool := opens l || closes l

/-- A line that may stand in a block: it is no bracket and does not close the diagram. -/
def isInner (l : String) : Bool := !isBracket l && l != "@enduml"

end Block

open Block in
/-- Blocks are opened and closed in turns: every one is closed before the next is opened and before the diagram is
closed, as many are closed as are opened, and none is closed that was not opened. -/
structure IsBracketed (ls : List String) : Prop where
  closed : ∀ before l after, ls = before ++ l :: after → opens l = true →
    ∃ inner rest, after = inner ++ "\x7d" :: rest ∧ ∀ m ∈ inner, isInner m = true
  even : ls.countP opens = ls.countP closes
  opened : ∀ before, before <+: ls → before.countP closes ≤ before.countP opens

namespace Block

/-! ### Reading lines -/

/-- Read a line, in a block or outside of one. -/
def step? (inBlock : Bool) (l : String) : Option Bool :=
  if opens l then if inBlock then none else some true
  else if closes l then if inBlock then some false else none
  else if inBlock && l == "@enduml" then none
  else some inBlock

/-- Read lines; whether the last one is in a block. -/
def after? (inBlock : Bool) (ls : List String) : Option Bool := ls.foldlM step? inBlock

/-- Whether a block is open after some lines, in whatever order their brackets are. -/
def isOpen (inBlock : Bool) (ls : List String) : Bool :=
  ls.foldl (fun o l => if isBracket l then opens l else o) inBlock

variable {o p : Bool} {l : String} {ls a b inner rest : List String}

theorem not_opens_of_closes (h : closes l) : opens l = false := by
  rw [closes, beq_iff_eq] at h
  subst h
  decide

theorem isBracket_eq_false_iff : isBracket l = false ↔ opens l = false ∧ closes l = false := Bool.or_eq_false_iff

theorem isInner_iff : isInner l ↔ isBracket l = false ∧ l ≠ "@enduml" := by
  rw [isInner, Bool.and_eq_true, Bool.not_eq_true', bne_iff_ne]

theorem step?_eq_some (h : step? o l = some p) :
    (opens l ∧ closes l = false ∧ o = false ∧ p) ∨
    (opens l = false ∧ closes l ∧ o ∧ p = false) ∨
    (isBracket l = false ∧ p = o ∧ (o → isInner l)) := by
  unfold step? at h
  split at h
  next hopens =>
    have hcloses : closes l = false := by
      rw [← Bool.not_eq_true]
      intro hcloses
      rw [not_opens_of_closes hcloses] at hopens
      cases hopens
    cases o with
    | true => cases h
    | false => exact .inl ⟨hopens, hcloses, rfl, (Option.some.inj h).symm⟩
  next hopens =>
    rw [Bool.not_eq_true] at hopens
    split at h
    next hcloses =>
      cases o with
      | true => exact .inr (.inl ⟨hopens, hcloses, rfl, (Option.some.inj h).symm⟩)
      | false => cases h
    next hcloses =>
      rw [Bool.not_eq_true] at hcloses
      have hquiet := isBracket_eq_false_iff.mpr ⟨hopens, hcloses⟩
      split at h
      · cases h
      next hend =>
        refine .inr (.inr ⟨hquiet, (Option.some.inj h).symm, ?_⟩)
        rintro rfl
        exact isInner_iff.mpr ⟨hquiet, by simpa using hend⟩

theorem step?_of_opens (h : opens l) : step? false l = some true := by
  rw [step?, if_pos h]
  rfl

theorem step?_of_closes : step? true "\x7d" = some false := by decide

theorem step?_of_quiet (h : isBracket l = false) : step? false l = some false := by
  obtain ⟨hopens, hcloses⟩ := isBracket_eq_false_iff.mp h
  simp [step?, hopens, hcloses]

theorem step?_of_inner (h : isInner l) (o : Bool) : step? o l = some o := by
  obtain ⟨hquiet, hend⟩ := isInner_iff.mp h
  obtain ⟨hopens, hcloses⟩ := isBracket_eq_false_iff.mp hquiet
  simp [step?, hopens, hcloses, hend]

theorem after?_cons : after? o (l :: ls) = (step? o l).bind fun q => after? q ls := foldlM_cons

theorem after?_append : after? o (a ++ b) = (after? o a).bind fun q => after? q b := foldlM_append

theorem after?_cons_eq_some : after? o (l :: ls) = some p ↔ ∃ q, step? o l = some q ∧ after? q ls = some p := by
  rw [after?_cons, Option.bind_eq_some_iff]

theorem after?_append_eq_some : after? o (a ++ b) = some p ↔ ∃ q, after? o a = some q ∧ after? q b = some p := by
  rw [after?_append, Option.bind_eq_some_iff]

theorem after?_of_quiet (h : ∀ l ∈ ls, isBracket l = false) : after? false ls = some false := by
  induction ls with
  | nil => rfl
  | cons l ls ih =>
    rw [forall_mem_cons] at h
    exact after?_cons_eq_some.mpr ⟨false, step?_of_quiet h.1, ih h.2⟩

theorem after?_of_inner (h : ∀ l ∈ ls, isInner l) (o : Bool) : after? o ls = some o := by
  induction ls with
  | nil => rfl
  | cons l ls ih =>
    rw [forall_mem_cons] at h
    exact after?_cons_eq_some.mpr ⟨o, step?_of_inner h.1 o, ih h.2⟩

theorem after?_block (hl : opens l) (hinner : ∀ m ∈ inner, isInner m) :
    after? false (l :: inner ++ ["\x7d"]) = some false :=
  after?_append_eq_some.mpr ⟨true, after?_cons_eq_some.mpr ⟨true, step?_of_opens hl, after?_of_inner hinner true⟩,
    after?_cons_eq_some.mpr ⟨false, step?_of_closes, rfl⟩⟩

/-! ### Lines that can be read -/

theorem exists_close (h : after? true ls = some false) :
    ∃ inner rest, ls = inner ++ "\x7d" :: rest ∧ ∀ m ∈ inner, isInner m := by
  induction ls with
  | nil => cases h
  | cons l ls ih =>
    obtain ⟨q, hl, hls⟩ := after?_cons_eq_some.mp h
    rcases step?_eq_some hl with ⟨_, _, hfalse, _⟩ | ⟨_, hcloses, _, _⟩ | ⟨_, rfl, hinner⟩
    · cases hfalse
    · exact ⟨[], ls, by rw [beq_iff_eq.mp hcloses, nil_append], by simp⟩
    · obtain ⟨inner, rest, rfl, hrest⟩ := ih hls
      exact ⟨l :: inner, rest, rfl, forall_mem_cons.mpr ⟨hinner rfl, hrest⟩⟩

theorem countP_of_after? (h : after? o ls = some p) : o.toNat + ls.countP opens = p.toNat + ls.countP closes := by
  induction ls generalizing o with
  | nil =>
    cases h
    rfl
  | cons l ls ih =>
    obtain ⟨q, hl, hls⟩ := after?_cons_eq_some.mp h
    have hrest := ih hls
    rw [countP_cons, countP_cons]
    rcases step?_eq_some hl with ⟨hopens, hcloses, rfl, rfl⟩ | ⟨hopens, hcloses, rfl, rfl⟩ | ⟨hquiet, rfl, _⟩
    · simp only [hopens, hcloses, if_true, Bool.false_eq_true, if_false, Bool.toNat_true, Bool.toNat_false] at hrest ⊢
      omega
    · simp only [hopens, hcloses, if_true, Bool.false_eq_true, if_false, Bool.toNat_true, Bool.toNat_false] at hrest ⊢
      omega
    · obtain ⟨hopens, hcloses⟩ := isBracket_eq_false_iff.mp hquiet
      simpa [hopens, hcloses] using hrest

theorem isBracketed_of_after? (h : after? false ls = some false) : IsBracketed ls := by
  refine ⟨?_, ?_, ?_⟩
  · rintro before l after rfl hopens
    obtain ⟨q, _, hafter⟩ := after?_append_eq_some.mp h
    obtain ⟨r, hl, hafter⟩ := after?_cons_eq_some.mp hafter
    rcases step?_eq_some hl with ⟨_, _, _, rfl⟩ | ⟨hnot, _⟩ | ⟨hquiet, _⟩
    · exact exists_close hafter
    · rw [hnot] at hopens
      cases hopens
    · rw [(isBracket_eq_false_iff.mp hquiet).1] at hopens
      cases hopens
  · simpa using countP_of_after? h
  · rintro before ⟨after, rfl⟩
    obtain ⟨q, hbefore, _⟩ := after?_append_eq_some.mp h
    have hcount := countP_of_after? hbefore
    rw [Bool.toNat_false] at hcount
    omega

theorem isBracketed_of_append (ha : a.countP opens = a.countP closes) (h : IsBracketed (a ++ b)) :
    IsBracketed b := by
  refine ⟨fun before l after heq hopens => ?_, ?_, fun before hbefore => ?_⟩
  · refine h.closed (a ++ before) l after ?_ hopens
    rw [heq, append_assoc]
  · have heven := h.even
    rw [countP_append, countP_append] at heven
    omega
  · have hopened := h.opened (a ++ before) ((prefix_append_right_inj a).mpr hbefore)
    rw [countP_append, countP_append] at hopened
    omega

theorem after?_of_isBracketed (h : IsBracketed ls) : after? false ls = some false := by
  -- by the number of lines: those of a block are read at once
  induction hn : ls.length using Nat.strong_induction_on generalizing ls with
  | _ n ih =>
    subst hn
    cases ls with
    | nil => rfl
    | cons l ls =>
      by_cases hopens : opens l = true
      · obtain ⟨inner, rest, rfl, hinner⟩ := h.closed [] l ls rfl hopens
        have hcons : l :: (inner ++ "\x7d" :: rest) = (l :: inner ++ ["\x7d"]) ++ rest := by simp
        have hblock := after?_block hopens hinner
        rw [hcons] at h ⊢
        have hrest : IsBracketed rest := isBracketed_of_append (isBracketed_of_after? hblock).even h
        exact after?_append_eq_some.mpr ⟨false, hblock, ih _ (by simp; omega) hrest rfl⟩
      · rw [Bool.not_eq_true] at hopens
        have hcloses : closes l = false := by
          simpa [countP_cons, hopens] using h.opened [l] ⟨ls, rfl⟩
        have hquiet := isBracket_eq_false_iff.mpr ⟨hopens, hcloses⟩
        have hl : after? false [l] = some false := after?_of_quiet (by simpa using hquiet)
        have hrest : IsBracketed ls := isBracketed_of_append (isBracketed_of_after? hl).even h
        exact after?_cons_eq_some.mpr ⟨false, step?_of_quiet hquiet, ih _ (by simp) hrest rfl⟩

end Block

/-- **Exactly the lines with blocks in turns can be read, from outside to outside.** -/
theorem isBracketed_iff {ls : List String} : IsBracketed ls ↔ Block.after? false ls = some false :=
  ⟨Block.after?_of_isBracketed, Block.isBracketed_of_after?⟩

instance (ls : List String) : Decidable (IsBracketed ls) := decidable_of_iff _ isBracketed_iff.symm

example : IsBracketed ["@startuml", "class A \x7b", "  + id", "\x7d", "", "@enduml"] := by decide

example : ¬ IsBracketed ["@startuml", "class A \x7b", "  + id", "", "@enduml"] := by decide

namespace Block

/-! ### Lines that are dropped -/

variable {o p : Bool} {l : String} {ls a b d : List String}

theorem isOpen_append (o : Bool) (a b : List String) : isOpen o (a ++ b) = isOpen (isOpen o a) b := foldl_append

theorem isOpen_of_quiet (h : ∀ l ∈ ls, isBracket l = false) (o : Bool) : isOpen o ls = o := by
  induction ls with
  | nil => rfl
  | cons l ls ih =>
    rw [forall_mem_cons] at h
    show isOpen (if isBracket l then opens l else o) ls = o
    rw [h.1]
    exact ih h.2

theorem eq_isOpen_of_after? (h : after? o ls = some p) : p = isOpen o ls := by
  induction ls generalizing o with
  | nil => exact (Option.some.inj h).symm
  | cons l ls ih =>
    obtain ⟨q, hl, hls⟩ := after?_cons_eq_some.mp h
    have hq : q = if isBracket l then opens l else o := by
      rcases step?_eq_some hl with ⟨hopens, _, _, rfl⟩ | ⟨hopens, hcloses, _, rfl⟩ | ⟨hquiet, rfl, _⟩
      · simp [isBracket, hopens]
      · simp [isBracket, hopens, hcloses]
      · rw [hquiet]
        rfl
    rw [ih hls, hq]
    rfl

/-- Lines that can be read both in a block and outside of one have no brackets: the first one would tell where it is. -/
theorem quiet_of_after? {q : Bool} (hin : after? true ls = some p) (hout : after? false ls = some q) :
    ∀ l ∈ ls, isBracket l = false := by
  induction ls with
  | nil => simp
  | cons l ls ih =>
    obtain ⟨r, hl, hls⟩ := after?_cons_eq_some.mp hin
    obtain ⟨r', hl', hls'⟩ := after?_cons_eq_some.mp hout
    rcases step?_eq_some hl with ⟨_, _, hfalse, _⟩ | ⟨_, hcloses, _, _⟩ | ⟨hquiet, rfl, _⟩
    · cases hfalse
    · rcases step?_eq_some hl' with ⟨_, hnot, _⟩ | ⟨_, _, hfalse, _⟩ | ⟨hquiet, _⟩
      · rw [hnot] at hcloses
        cases hcloses
      · cases hfalse
      · rw [(isBracket_eq_false_iff.mp hquiet).2] at hcloses
        cases hcloses
    · rw [step?_of_quiet hquiet] at hl'
      obtain rfl := Option.some.inj hl'
      exact forall_mem_cons.mpr ⟨hquiet, ih hls hls'⟩

/-- Lines are dropped from the middle.  Blocks are still in turns if none is left open, and if those dropped begin and
end both in a block or both outside of one; the latter does not matter if no brackets come after them. -/
theorem isBracketed_drop (h : after? false (a ++ d ++ b) = some p) :
    IsBracketed (a ++ b) ↔
      isOpen false (a ++ b) = false ∧ (isOpen false a = isOpen false (a ++ d) ∨ ∀ l ∈ b, isBracket l = false) := by
  obtain ⟨q, hq, hb⟩ := after?_append_eq_some.mp h
  obtain ⟨r, hr, _⟩ := after?_append_eq_some.mp hq
  rw [isBracketed_iff, isOpen_append, ← eq_isOpen_of_after? hr, ← eq_isOpen_of_after? hq, after?_append, hr,
    Option.bind_some]
  constructor
  · intro hrest
    refine ⟨(eq_isOpen_of_after? hrest).symm, ?_⟩
    cases r with
    | true =>
      cases q with
      | true => exact .inl rfl
      | false => exact .inr (quiet_of_after? hrest hb)
    | false =>
      cases q with
      | true => exact .inr (quiet_of_after? hb hrest)
      | false => exact .inl rfl
  · rintro ⟨hopen, rfl | hquiet⟩
    · rw [hb, eq_isOpen_of_after? hb, hopen]
    · rw [isOpen_of_quiet hquiet] at hopen
      rw [hopen]
      exact after?_of_quiet hquiet

theorem isBracketed_append_quiet (hb : ∀ l ∈ b, isBracket l = false) : IsBracketed (a ++ b) ↔ IsBracketed a := by
  rw [isBracketed_iff, isBracketed_iff, after?_append_eq_some]
  constructor
  · rintro ⟨q, ha, hq⟩
    rw [ha, eq_isOpen_of_after? hq, isOpen_of_quiet hb]
  · intro ha
    exact ⟨false, ha, after?_of_quiet hb⟩

end Block

/-! ### Diagrams that are cut -/

namespace SizeLimit

open Block

variable {theme l : String} {n k : Int} {ls : List String}

theorem isBracket_of_closes (h : closes l) : isBracket l = false := by
  rw [← Bool.not_eq_true]
  intro hbracket
  have hbrace : ∃ c ∈ drawingMarks, c ∈ l.toList := by
    rcases (Bool.or_eq_true _ _).mp hbracket with hopens | hcloses
    · exact ⟨'\x7b', by decide, (Chars.endsWith_iff.mp hopens).subset (by decide)⟩
    · rw [beq_iff_eq.mp hcloses]
      exact ⟨'\x7d', by decide, by decide⟩
  obtain ⟨c, hc, hmem⟩ := hbrace
  rw [closes_eq_false_of_mem hc hmem] at h
  cases h

theorem headLength_cut (a : List String) (m : String) : headLength id (a ++ (cutNote ++ [m])) ≤ a.length := by
  unfold headLength
  rw [findIdx?_append]
  cases hfound : a.findIdx? fun l => startsNote (id l) with
  | some i =>
    obtain ⟨hi, _⟩ := findIdx?_eq_some_iff_getElem.mp hfound
    exact hi.le
  | none =>
    have hnote : ((cutNote ++ [m]).findIdx? fun l => startsNote (id l)) = some 0 := by
      rw [cutNote, cons_append, findIdx?_cons, if_pos (by decide +kernel)]
    rw [hnote]
    simp

theorem headLength_lt (h : ls ≠ []) : headLength id ls < ls.length := by
  have hlength := length_pos_iff.mpr h
  unfold headLength
  cases hfound : ls.findIdx? fun l => startsNote (id l) with
  | some i =>
    obtain ⟨hi, _⟩ := findIdx?_eq_some_iff_getElem.mp hfound
    exact hi
  | none =>
    rw [Option.getD_none]
    omega

/-- The lines of a diagram keep their blocks: it is replaced altogether, or no block is left open, and the lines that
are dropped begin and end both in a block or both outside of one (unless no brackets come after them). -/
def KeepsBlocks (ls : List String) : Prop :=
  let kept := firstLines id id 2000 ls
  let k := headLength id kept
  8000 < octets (shrink id 8000 kept) ∨ isOpen false (shrink id 8000 kept) = false ∧
    (isOpen false (headLeft id 8000 kept) = isOpen false (kept.take k) ∨ ∀ l ∈ kept.drop k, isBracket l = false)

theorem exists_firstLines (n : Int) (hlast : ls.getLast? = some l) (hl : closes l) :
    ∃ a b, firstLines id id n ls = a ++ b ∧ a <+: ls ∧ (∀ m ∈ b, isBracket m = false) ∧
      (b = [] ∨ headLength id (a ++ b) ≤ a.length) := by
  by_cases hn : n < ls.length
  · have hcut := @firstLines_of_lt String id id n ls l hn (mem_of_getLast? hlast) hl
    obtain ⟨m, _, hm, heq⟩ := hcut
    refine ⟨ls.take (n - 4).toNat, cutNote ++ [m], heq, take_prefix _ _, ?_, .inr (headLength_cut _ m)⟩
    have hnote : ∀ k ∈ cutNote, isBracket k = false := by decide +kernel
    rw [forall_mem_append, forall_mem_singleton]
    exact ⟨hnote, isBracket_of_closes hm⟩
  · refine ⟨ls, [], ?_, prefix_rfl, by simp, .inl rfl⟩
    rw [@firstLines_of_le String id id n ls l (Int.not_lt.mp hn) hlast hl, append_nil]

/-- Lines are dropped, and after those that can be read there are others without brackets. -/
theorem isBracketed_shrink {a b : List String} {p : Bool} (ha : after? false a = some p)
    (hb : ∀ m ∈ b, isBracket m = false) (hk : b = [] ∨ headLength id (a ++ b) ≤ a.length) (n : Int) :
    IsBracketed (shrink id n (a ++ b)) ↔ isOpen false (shrink id n (a ++ b)) = false ∧
      (isOpen false (headLeft id n (a ++ b)) = isOpen false ((a ++ b).take (headLength id (a ++ b))) ∨
        ∀ m ∈ (a ++ b).drop (headLength id (a ++ b)), isBracket m = false) := by
  have hstart := headLeft_isPrefix id n (a ++ b)
  rw [shrink_eq]
  generalize headLength id (a ++ b) = k at hk hstart
  generalize headLeft id n (a ++ b) = head at hstart
  have htake : (a ++ b).take k = a.take k := by
    rcases hk with rfl | hk
    · rw [append_nil]
    · exact take_append_of_le_length hk
  have hdrop : (a ++ b).drop k = a.drop k ++ b := by
    rcases hk with rfl | hk
    · rw [append_nil, append_nil]
    · exact drop_append_of_le_length hk
  obtain ⟨dropped, hdropped⟩ := hstart
  rw [htake] at hdropped
  have hread : after? false (head ++ dropped ++ a.drop k) = some p := by
    rw [hdropped, take_append_drop]
    exact ha
  have hquiet : (∀ m ∈ a.drop k ++ b, isBracket m = false) ↔ ∀ m ∈ a.drop k, isBracket m = false := by
    rw [forall_mem_append, and_iff_left hb]
  rw [htake, hdrop, hquiet, ← hdropped, ← append_assoc, isBracketed_append_quiet hb, isOpen_append _ _ b,
    isOpen_of_quiet hb, isBracketed_drop hread]

theorem shrink_of_length_le (h : ls.length ≤ (shrink id n ls).length) : shrink id n ls = ls := by
  have hstart := headLeft_isPrefix id n ls
  rw [shrink_eq] at h ⊢
  rw [hstart.eq_of_length_le, take_append_drop]
  rw [length_append, length_drop] at h
  rw [length_take]
  omega

theorem limited?_getD (n k : Int) (hlast : ls.getLast? = some l) (hl : closes l) :
    (limited? id id theme n k ls).getD ls =
      if k < octets (shrink id k (firstLines id id n ls)) then tooLarge theme k
      else shrink id k (firstLines id id n ls) := by
  unfold limited?
  dsimp only
  rw [map_id, map_id]
  split
  · rfl
  · split
    · rfl
    next hshort =>
      rw [Bool.or_eq_true, decide_eq_true_eq, decide_eq_true_eq, not_or, Int.not_lt, Nat.not_lt] at hshort
      obtain ⟨hn, hlength⟩ := hshort
      rw [@firstLines_of_le String id id n ls l hn hlast hl] at hlength ⊢
      exact (shrink_of_length_le hlength).symm

theorem forall_mem_tooLarge {q : String → Prop} (htheme : q ("!theme " ++ theme)) (hrest : ∀ l ∈ tooLarge "" n, q l) :
    ∀ l ∈ tooLarge theme n, q l := by
  unfold tooLarge at hrest ⊢
  simp only [forall_mem_cons] at hrest ⊢
  exact ⟨hrest.1, htheme, hrest.2.2⟩

/-- **Blocks that are in turns stay so when a diagram is cut, if and only if the cut keeps them.** -/
theorem isBracketed_limited (htheme : isBracket ("!theme " ++ theme) = false) (h : IsBracketed ls)
    (hlast : ls.getLast? = some l) (hl : closes l) :
    IsBracketed ((limited? id id theme 2000 8000 ls).getD ls) ↔ KeepsBlocks ls := by
  rw [limited?_getD 2000 8000 hlast hl]
  unfold KeepsBlocks
  split
  next hlarge =>
    have hquiet := forall_mem_tooLarge (q := fun l => isBracket l = false) (n := 8000) htheme (by decide +kernel)
    exact iff_of_true (isBracketed_iff.mpr (after?_of_quiet hquiet)) (.inl (Int.ofNat_lt.mp hlarge))
  next hsmall =>
    rw [or_iff_right fun hlarge => hsmall (Int.ofNat_lt.mpr hlarge)]
    obtain ⟨a, b, heq, ⟨rest, hrest⟩, hb, hk⟩ := exists_firstLines 2000 hlast hl
    rw [isBracketed_iff, ← hrest] at h
    obtain ⟨p, ha, _⟩ := after?_append_eq_some.mp h
    rw [heq]
    exact isBracketed_shrink ha hb hk 8000

theorem shrinkHead_of_le {size count : Nat} (h : size ≤ n) (ls : List String) : shrinkHead id n size count ls = ls := by
  fun_cases shrinkHead id n size count ls with
  | case1 l m k rest hlarge => omega
  | _ => rfl

theorem limited?_of_fits (hlength : ls.length ≤ n) (hoctets : octets ls ≤ k) (hlast : ls.getLast? = some l)
    (hl : closes l) : (limited? id id theme n k ls).getD ls = ls := by
  have hfirst := @firstLines_of_le String id id n ls l hlength hlast hl
  have hshrink : shrink id k ls = ls := by
    rw [shrink_eq, headLeft, map_id, shrinkHead_of_le hoctets, reverse_reverse, take_append_drop]
  rw [limited?_getD n k hlast hl, hfirst, hshrink, if_neg (Int.not_lt.mpr hoctets)]

/-! ### Texts of diagrams that are cut -/

theorem closes_close : closes "@enduml" := by decide +kernel

theorem mem_closed_iff (hl : l ≠ "@enduml") : l ∈ closed id id ls ↔ l ∈ ls := by
  unfold closed
  split
  · rfl
  · rw [mem_append, mem_singleton, id_eq, or_iff_left hl]

theorem firstLines_eq_closed (hn : ls.length ≤ n) : firstLines id id n ls = closed id id ls := by
  rw [firstLines, if_neg (Int.not_lt.mpr hn)]

theorem exists_firstLines_of_lt (hn : n < ls.length) :
    ∃ m, (m ∈ ls ∨ m = "@enduml") ∧ firstLines id id n ls = ls.take (n - 4).toNat ++ (cutNote ++ [m]) := by
  obtain ⟨m, hfound, hm, hcloses⟩ : ∃ m, (ls.find? fun l => closes (id l)).getD (id "@enduml") = m ∧
      (m ∈ ls ∨ m = "@enduml") ∧ closes m = true := by
    cases hfound : ls.find? fun l => closes (id l) with
    | none => exact ⟨"@enduml", rfl, .inr rfl, closes_close⟩
    | some m =>
      exact ⟨m, rfl, .inl (mem_of_find?_eq_some hfound), find?_some (p := fun l => closes (id l)) hfound⟩
  refine ⟨m, hm, ?_⟩
  rw [firstLines, if_pos hn, cutLines, hfound, closed, getLast?_concat, Option.map_some, Option.getD_some, id_eq,
    if_pos hcloses, map_id, append_assoc]

theorem mem_firstLines (hl : l ∈ firstLines id id n ls) : l ∈ ls ∨ l ∈ cutNote ∨ l = "@enduml" := by
  rcases Int.lt_or_le n ls.length with hlt | hle
  · obtain ⟨m, hm, heq⟩ := exists_firstLines_of_lt hlt
    rw [heq, mem_append, mem_append, mem_singleton] at hl
    rcases hl with hl | hl | rfl
    · exact .inl (mem_of_mem_take hl)
    · exact .inr (.inl hl)
    · exact hm.imp_right .inr
  · rw [firstLines_eq_closed hle] at hl
    by_cases hclose : l = "@enduml"
    · exact .inr (.inr hclose)
    · exact .inl ((mem_closed_iff hclose).mp hl)

theorem mem_limited (hlast : ls.getLast? = some l) (hl : closes l) {m : String}
    (hm : m ∈ (limited? id id theme n k ls).getD ls) : m ∈ ls ∨ m ∈ cutNote ∨ m ∈ tooLarge theme k := by
  rw [limited?_getD n k hlast hl] at hm
  split at hm
  · exact .inr (.inr hm)
  · have hkept : m ∈ firstLines id id n ls := by
      rcases mem_append.mp hm with hm | hm
      · exact mem_of_mem_take ((headLeft_isPrefix id _ _).subset hm)
      · exact mem_of_mem_drop hm
    rcases mem_firstLines hkept with hm | hm | rfl
    · exact .inl hm
    · exact .inr (.inl hm)
    · exact .inr (.inr (by simp [tooLarge]))

theorem isOneLine_of_mem_tooLarge (htheme : Text.isOneLine theme) {m : String} (hm : m ∈ tooLarge theme k) :
    Text.isOneLine m := by
  have hnumber : Text.isOneLine (toString k) := isOneLine_numeral (int_subset k)
  simp only [tooLarge, mem_cons, not_mem_nil, or_false] at hm
  rcases hm with rfl | rfl | rfl | rfl | rfl | rfl
  · decide
  · rw [Text.isOneLine_append, htheme]
    decide
  · decide
  · simp only [Text.isOneLine_append, hnumber]
    decide
  · decide
  · decide

theorem getLast?_closed (ls : List String) : ∃ m, (closed id id ls).getLast? = some m ∧ closes m := by
  unfold closed
  split
  next h =>
    cases hlast : ls.getLast? with
    | none =>
      rw [hlast] at h
      cases h
    | some m =>
      rw [hlast] at h
      exact ⟨m, rfl, h⟩
  next => exact ⟨"@enduml", getLast?_concat, closes_close⟩

theorem getLast?_shrink (k : Int) (ls : List String) : (shrink id k ls).getLast? = ls.getLast? := by
  by_cases hne : ls = []
  · rw [hne]
    rfl
  · rw [shrink_eq, getLast?_append, getLast?_drop, if_neg (Nat.not_le.mpr (headLength_lt hne)),
      getLast?_eq_some_getLast hne]
    rfl

theorem getLast?_limited (hlast : ls.getLast? = some l) (hl : closes l) :
    ∃ m, ((limited? id id theme n k ls).getD ls).getLast? = some m ∧ closes m := by
  rw [limited?_getD n k hlast hl]
  split
  · exact ⟨"@enduml", rfl, closes_close⟩
  · rw [getLast?_shrink]
    exact getLast?_closed _

end SizeLimit

theorem lines_limitSize {theme l : String} {n k : Int} {ls : List String} (htheme : Text.isOneLine theme)
    (h : ∀ m ∈ ls, Text.isOneLine m) (hlast : ls.getLast? = some l) (hl : SizeLimit.closes l) :
    Text.lines (limitSize theme (Text.join "\n" ls) n k) = (SizeLimit.limited? id id theme n k ls).getD ls := by
  have hsolid : ∀ {m}, SizeLimit.closes m → m ≠ "" := by
    rintro m hm rfl
    revert hm
    decide +kernel
  have hone : ∀ m ∈ (SizeLimit.limited? id id theme n k ls).getD ls, Text.isOneLine m := by
    intro m hm
    rcases SizeLimit.mem_limited hlast hl hm with hm | hm | hm
    · exact h m hm
    · have hnote : ∀ m ∈ SizeLimit.cutNote, Text.isOneLine m := by decide +kernel
      exact hnote m hm
    · exact SizeLimit.isOneLine_of_mem_tooLarge htheme hm
  obtain ⟨m, hm, hcloses⟩ := SizeLimit.getLast?_limited hlast hl
  have hjoin := Text.lines_join hone hm (hsolid hcloses)
  have hlines := Text.lines_join h hlast (hsolid hl)
  unfold limitSize
  rw [hlines]
  cases hlimited : SizeLimit.limited? id id theme n k ls with
  | none => exact hlines
  | some kept =>
    rw [hlimited] at hjoin
    exact hjoin

end CodeAtlas
