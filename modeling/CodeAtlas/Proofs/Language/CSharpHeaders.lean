import CodeAtlas.Proofs.Language.KnownClasses
import CodeAtlas.Proofs.Text.Occurrence

/-!
# Headers of C# classes

A header names a class and lists its bases after a colon.  The list is cut at its commas, parameters in angle brackets
are dropped up to the first bracket that closes, and the last part of what is left is the base.

* `Base.IsFlat` is what a base needs to be read off such a list: no comma among its parameters, and no parameters among
  those of its last part;
* `Header.names_read_iff` says that the names of the bases are read exactly if all of them are flat;
* no class of a text is listed if one of its headers has a base named `I`, which cannot be told from an interface.

Headers are read in a clear place (`IsClear`), which is enough for a match to cover the header; nothing is said about
headers behind a `class` whose own header was left open.
-/

namespace CodeAtlas

open List

/-! ### Parameters in angle brackets -/

namespace TypeName

/-- A bracket that is opened in a text is closed later in it. -/
def IsClosed (a : List Char) : Prop := ∀ s ∈ a.tails, s.head? = some '<' → '>' ∈ s

instance (a : List Char) : Decidable (IsClosed a) := inferInstanceAs (Decidable (∀ s ∈ a.tails, _))

namespace IsClosed

variable {a b : List Char}

theorem of_suffix (h : IsClosed a) (hb : b <:+ a) : IsClosed b := fun s hs =>
  h s ((mem_tails s a).mpr (((mem_tails s b).mp hs).trans hb))

theorem mem (h : IsClosed a) (hb : '<' :: b <:+ a) : '>' ∈ b := by
  simpa using h _ ((mem_tails _ a).mpr hb) rfl

end IsClosed

/-- Without parameters a text is another one. -/
def Drops (s u : List Char) : Prop := ∃ q qs, parameterPattern.Cuts s q qs ∧ u = q ++ qs.flatten

namespace Drops

variable {s u : List Char}

theorem nil : Drops [] [] := ⟨[], [], .nil _, rfl⟩

theorem append (h : Drops s u) {w : List Char} (hw : '<' ∉ w) : Drops (w ++ s) (w ++ u) := by
  obtain ⟨q, qs, hcuts, rfl⟩ := h
  refine ⟨w ++ q, qs, hcuts.append fun c hc t before pos => ?_, (append_assoc ..).symm⟩
  have hne : c ≠ '<' := ne_of_mem_of_not_mem hc hw
  simp [Pattern.matchAt, parameterPattern, Pattern.all, Pattern.run, Pattern.char, hne]

theorem params (h : Drops s u) {a : List Char} (ha : '>' ∉ a) : Drops ('<' :: (a ++ '>' :: s)) u := by
  obtain ⟨q, qs, hcuts, rfl⟩ := h
  have htakes : ∀ before, parameterPattern.Takes before (['<'] ++ (a ++ ['>'])) s [] := fun before =>
    .next (Pattern.takes_one rfl) (.next (Pattern.takes_many (fun c hc => bne_iff_ne.mpr (ne_of_mem_of_not_mem hc ha))
      (by simp)) (Pattern.takes_one rfl))
  exact ⟨[], q :: qs, by simpa using hcuts.taken htakes (by simp), rfl⟩

theorem dropParameters (h : Drops s u) : dropParameters (String.ofList s) = String.ofList u := by
  obtain ⟨q, qs, hcuts, rfl⟩ := h
  rw [TypeName.dropParameters, String.toList_ofList, Pattern.replaceAll, Chars.join_nil, hcuts.split_eq, flatten_cons]

/-- Of parameters with parameters of their own the last bracket is left. -/
theorem nested (h : Drops s u) {a : List Char} (ha : IsClosed a) :
    ∃ r, Drops ('<' :: (a ++ '>' :: s)) (r ++ u) ∧ if '>' ∈ a then r.getLast? = some '>' else r = [] := by
  induction hn : a.length using Nat.strong_induction_on generalizing a with
  | _ n ih =>
    by_cases hmem : '>' ∈ a
    · simp only [if_pos hmem]
      obtain ⟨x, y, rfl, hx⟩ := eq_append_cons_of_mem hmem
      by_cases hopen : '<' ∈ y
      · obtain ⟨w, z, rfl, hw⟩ := eq_append_cons_of_mem hopen
        have hsuffix : '<' :: z <:+ x ++ '>' :: (w ++ '<' :: z) := ⟨x ++ '>' :: w, by simp⟩
        obtain ⟨r, hr, hlast⟩ := ih z.length (by simp at hn; omega) (ha.of_suffix ((suffix_cons ..).trans hsuffix)) rfl
        rw [if_pos (ha.mem hsuffix)] at hlast
        refine ⟨w ++ r, ?_, by simp [getLast?_append, hlast]⟩
        simpa using (hr.append hw).params hx
      · refine ⟨y ++ ['>'], ?_, by simp⟩
        have hplain : '<' ∉ y ++ ['>'] := by simp [hopen]
        simpa using (h.append hplain).params hx
    · exact ⟨[], h.params hmem, if_neg hmem ▸ rfl⟩

end Drops

end TypeName

namespace CSharp

open Chars

/-! ### Bases -/

/-- A part of a type's name, with parameters in angle brackets after it, if there are any. -/
structure TypePart where
  name : List Char
  params : Option (List Char)
  name_word : IsWord name
  name_plain : ∀ c ∈ name, c ∉ ['.', ',', '<', '>', '\x7b']
  params_open : ∀ a ∈ params, '\x7b' ∉ a
  params_closed : ∀ a ∈ params, TypeName.IsClosed a

namespace TypePart

variable (p : TypePart)

def text : List Char := p.name ++ p.params.elim [] fun a => '<' :: (a ++ ['>'])

/-- Among the parameters there are some with parameters of their own. -/
def IsNested : Prop := ∃ a ∈ p.params, '>' ∈ a

theorem mem_text_iff {c : Char} (hname : c ∉ p.name) (hopen : c ≠ '<') (hclose : c ≠ '>') :
    c ∈ p.text ↔ ∃ a ∈ p.params, c ∈ a := by
  cases hparams : p.params <;> simp [text, hparams, hname, hopen, hclose]

/-- What is left of a part: its name, and of nested parameters a last bracket. -/
def Leaves (q : List Char) : Prop :=
  IsTight q ∧ (p.IsNested → q.getLast? = some '>') ∧ (¬ p.IsNested → q = p.name)

theorem drops {s u : List Char} (h : TypeName.Drops s u) : ∃ q, TypeName.Drops (p.text ++ s) (q ++ u) ∧ p.Leaves q := by
  have hname : '<' ∉ p.name := fun hc => p.name_plain _ hc (by simp)
  cases hparams : p.params with
  | none =>
    refine ⟨p.name, ?_, p.name_word.isTight, fun ⟨a, ha, _⟩ => ?_, fun _ => rfl⟩
    · simpa [text, hparams] using h.append hname
    · simp [hparams] at ha
  | some a =>
    obtain ⟨r, hr, hleft⟩ := h.nested (p.params_closed a hparams)
    have hnested : p.IsNested ↔ '>' ∈ a := by simp [IsNested, hparams]
    refine ⟨p.name ++ r, by simpa [text, hparams] using hr.append hname, ?_⟩
    rw [Leaves, hnested]
    split at hleft
    next hmem =>
      obtain ⟨r, rfl⟩ := getLast?_eq_some_iff.mp hleft
      have hclose : IsWord ['>'] := ⟨by simp, by decide⟩
      exact ⟨by simpa using p.name_word.isTight.append r hclose.isTight, fun _ => by simp, fun h => absurd hmem h⟩
    next hmem =>
      rw [hleft, append_nil]
      exact ⟨p.name_word.isTight, fun h => absurd h hmem, fun _ => rfl⟩

theorem drops_join (ps : List TypePart) : ∃ qs q,
    TypeName.Drops (join ['.'] ((ps ++ [p]).map text)) (join ['.'] (qs ++ [q])) ∧
    (∀ q ∈ qs, IsTight q) ∧ p.Leaves q := by
  induction ps with
  | nil =>
    obtain ⟨q, hq, hleft⟩ := p.drops .nil
    exact ⟨[], q, by simpa [join] using hq, by simp, hleft⟩
  | cons p' ps ih =>
    obtain ⟨qs, q, hqs, htight, hleft⟩ := ih
    obtain ⟨q', hq', hleft'⟩ := p'.drops (hqs.append (w := ['.']) (by decide))
    refine ⟨q' :: qs, q, ?_, forall_mem_cons.mpr ⟨hleft'.1, htight⟩, hleft⟩
    rw [cons_append, map_cons, join_cons _ _ (by simp), cons_append, join_cons _ _ (by simp),
      append_assoc, append_assoc]
    exact hq'

end TypePart

/-- A base as it is listed: its name with the parts that it stands in, and blanks around it. -/
structure Base where
  lead : List Char
  scopes : List TypePart
  last : TypePart
  trail : List Char
  lead_blank : isBlankOnly lead = true
  trail_blank : isBlankOnly trail = true

namespace Base

def parts (b : Base) : List TypePart := b.scopes ++ [b.last]

def text (b : Base) : List Char := b.lead ++ (join ['.'] (b.parts.map TypePart.text) ++ b.trail)

def head (b : Base) : String := String.ofList b.last.name

/-- A base is implemented if its name starts with the letter `I` and another upper-case letter, and extended
otherwise. -/
def kind (b : Base) : RelationKind :=
  match b.last.name with
  | 'I' :: c :: _ => if isUpper c then .implements else .extends
  | _ => .extends

variable (b : Base)

theorem clauseKind_head : clauseKind b.head = b.kind := by
  unfold clauseKind baseKind? kind head
  split <;> simp_all

/-- No comma is among the parameters, and the last part has no parameters with parameters of their own. -/
def IsFlat : Prop := (∀ p ∈ b.parts, ∀ a ∈ p.params, ',' ∉ a) ∧ ¬ b.last.IsNested

theorem isTight_join : IsTight (join ['.'] (b.parts.map TypePart.text)) := by
  refine .join (by simp [parts]) (forall_mem_map.mpr fun p _ => ?_)
  have hname := p.name_word.isTight
  cases hparams : p.params with
  | none => simpa [TypePart.text, hparams] using hname
  | some a =>
    have hclosed : IsWord ['>'] := ⟨by simp, by decide⟩
    simpa [TypePart.text, hparams] using hname.append ('<' :: a) hclosed.isTight

/-- **The name of a base is read off its text** exactly if its last part is not nested. -/
theorem basePart_text_iff : basePart (String.ofList b.text) = b.head ↔ ¬ b.last.IsNested := by
  have htrim : Text.trim (String.ofList b.text) = String.ofList (join ['.'] (b.parts.map TypePart.text)) := by
    rw [Text.trim, String.toList_ofList, text, trim_append b.lead_blank, trim_append_of_blank b.trail_blank,
      b.isTight_join.trim_eq]
  obtain ⟨qs, q, hdrops, htight, hq, hnested, hplain⟩ := b.last.drops_join b.scopes
  have hjoin : IsTight (join ['.'] (qs ++ [q])) :=
    .join (by simp) (forall_mem_append.mpr ⟨htight, forall_mem_singleton.mpr hq⟩)
  have hread : basePart (String.ofList b.text) = TypeName.lastPart (String.ofList (join ['.'] (qs ++ [q]))) "." := by
    rw [basePart, htrim, parts, hdrops.dropParameters, Text.trim, String.toList_ofList, hjoin.trim_eq]
  have hdot : '.' ∉ b.last.name := fun hc => b.last.name_plain _ hc (by simp)
  have hclose : '>' ∉ b.last.name := fun hc => b.last.name_plain _ hc (by simp)
  rw [hread, TypeName.lastPart, Text.getLastD_splitOn_join rfl, head, String.ofList_inj]
  by_cases h : b.last.IsNested
  · have hleft := mem_getLastD_splitOn (hnested h) (c := '.') (by decide)
    exact iff_of_false (fun heq => hclose (heq ▸ hleft)) (not_not_intro h)
  · rw [hplain h, splitOn_of_not_mem hdot]
    exact iff_of_true rfl h

theorem mem_text_iff {c : Char} (hc : c = ',' ∨ c = '\x7b') : c ∈ b.text ↔ ∃ p ∈ b.parts, ∃ a ∈ p.params, c ∈ a := by
  have hblank : isBlank c = false := by rcases hc with rfl | rfl <;> rfl
  have hmember : c ∈ ['.', ',', '<', '>', '\x7b'] := by rcases hc with rfl | rfl <;> decide
  have hdot : c ∉ ['.'] := by rcases hc with rfl | rfl <;> decide
  have hlead := not_mem_of_blanks b.lead_blank hblank
  have htrail := not_mem_of_blanks b.trail_blank hblank
  rw [text, mem_append, mem_append, mem_join_iff hdot]
  simp only [hlead, htrail, false_or, or_false, mem_map, exists_exists_and_eq_and]
  refine exists_congr fun p => and_congr_right fun _ => p.mem_text_iff (fun hname => p.name_plain c hname hmember) ?_ ?_
  all_goals rcases hc with rfl | rfl <;> decide

theorem not_mem_text : '\x7b' ∉ b.text := fun hmem =>
  let ⟨p, _, a, ha, hc⟩ := (b.mem_text_iff (.inr rfl)).mp hmem
  p.params_open a ha hc

theorem isFlat_iff : b.IsFlat ↔ ',' ∉ b.text ∧ ¬ b.last.IsNested := by
  rw [IsFlat, b.mem_text_iff (.inl rfl)]
  push Not
  rfl

end Base

/-! ### What the pattern of classes takes -/

/-- What follows the name of a class up to the brace: nothing, or a colon and a list, which is kept without blanks
around it. -/
inductive IsTail (name : List Char) : List Char → Groups → Prop
  | none : IsTail name [] [(1, name)]
  | listed {b cl b' : List Char} (hb : isBlankOnly b = true) (hcl : '\x7b' ∉ cl) (hb' : isBlankOnly b' = true) :
      IsTail name (':' :: (b ++ (cl ++ b'))) [(2, cl), (1, name)]

namespace IsTail

variable {name tail : List Char} {g : Groups}

theorem not_mem (h : IsTail name tail g) : '\x7b' ∉ tail := by
  cases h with
  | none => exact not_mem_nil
  | listed hb hcl hb' => simp [hcl, not_mem_of_blanks (c := '\x7b') hb rfl, not_mem_of_blanks (c := '\x7b') hb' rfl]

theorem head (h : IsTail name tail g) : ∀ c ∈ tail.head?, c = ':' := by
  cases h <;> simp

theorem exists_listed {body : List Char} (h : IsTail name (':' :: body) g) : ∃ b cl b',
    isBlankOnly b ∧ isBlankOnly b' ∧ body = b ++ (cl ++ b') ∧ g = [(2, cl), (1, name)] := by
  cases h with
  | listed hb _ hb' => exact ⟨_, _, _, hb, hb', rfl, rfl⟩

end IsTail

structure Front where
  gap : List Char
  name : List Char
  space : List Char
  gap_blank : isBlankOnly gap = true
  gap_ne : gap ≠ []
  name_ok : IsName name
  space_blank : isBlankOnly space = true

namespace Front

variable (n : Front)

def front : List Char := n.gap ++ (n.name ++ n.space)

theorem not_mem_front {c : Char} (hc : isBlank c = false) (hname : isNameChar c = false) : c ∉ n.front := by
  have hmem : c ∉ n.name := by
    intro hmem
    rw [n.name_ok.isNameChar c hmem] at hname
    cases hname
  exact not_mem_append (not_mem_of_blanks n.gap_blank hc) (not_mem_append hmem (not_mem_of_blanks n.space_blank hc))

theorem trim_front : trim n.front = n.name := by
  rw [front, trim_append n.gap_blank, trim_append_of_blank n.space_blank, n.name_ok.isWord.isTight.trim_eq]

end Front

/-- A text that the pattern of classes takes: a modifier, blanks, the keyword, a name and a tail. -/
structure Taken extends Front where
  word : List Char
  lead : List Char
  tail : List Char
  groups : Groups
  word_ok : (∀ c ∈ word, isWordChar c = true) ∧ word.head? ≠ some 'c'
  lead_blank : isBlankOnly lead = true
  tail_ok : IsTail name tail groups

namespace Taken

def text (t : Taken) : List Char := t.word ++ (t.lead ++ ("class".toList ++ (t.front ++ (t.tail ++ ['\x7b']))))

variable {t t' : Taken}

theorem not_mem_body (t : Taken) : '\x7b' ∉ t.front ++ t.tail :=
  not_mem_append (t.not_mem_front rfl rfl) t.tail_ok.not_mem

theorem eq_of_body (h : t.front ++ t.tail = t'.front ++ t'.tail) : t.name = t'.name ∧ t.tail = t'.tail := by
  obtain ⟨hfront, htail⟩ := eq_of_append_of_not_mem (c := ':') (t.not_mem_front rfl rfl) (t'.not_mem_front rfl rfl)
    t.tail_ok.head t'.tail_ok.head h
  exact ⟨by rw [← t.trim_front, hfront, t'.trim_front], htail⟩

end Taken

theorem exists_taken {s : Place} {w : List Char} {g : Groups} (h : classPattern.Spells s w g) :
    ∃ t : Taken, w = t.text ∧ g = t.groups := by
  obtain ⟨_, _, _, _, ⟨_, rfl, rfl⟩, h, rfl, rfl⟩ := h
  obtain ⟨word, _, g, _, hword, h, rfl, rfl⟩ := h
  obtain ⟨lead, _, _, _, ⟨hlead, rfl⟩, h, rfl, rfl⟩ := h
  obtain ⟨key, _, _, _, hkey, h, rfl, rfl⟩ := h
  obtain ⟨rfl, rfl⟩ := Pattern.spells_word_iff.mp hkey
  obtain ⟨_, _, _, _, ⟨_, gap, _, _, ⟨⟨d, hd, rfl⟩, rfl⟩, ⟨hgap, rfl⟩, rfl, rfl⟩, h, rfl, rfl⟩ := h
  obtain ⟨_, _, _, _, ⟨_, ⟨_, cs, _, _, ⟨⟨c, hc, rfl⟩, rfl⟩, ⟨hcs, rfl⟩, rfl, rfl⟩, rfl⟩, h, rfl, rfl⟩ := h
  obtain ⟨space, _, _, _, ⟨hspace, rfl⟩, h, rfl, rfl⟩ := h
  obtain ⟨tail, _, _, _, htail, h, rfl, rfl⟩ := h
  obtain ⟨b, _, _, _, ⟨hb, rfl⟩, ⟨⟨e, he, rfl⟩, rfl⟩, rfl, rfl⟩ := h
  obtain rfl := beq_iff_eq.mp he
  have hmods : ∀ t ∈ ["public", "private", "protected", "internal", "abstract", "static", "sealed"],
      (∀ c ∈ t.toList, isWordChar c = true) ∧ t.toList.head? ≠ some 'c' := by decide
  have hmod : ((∀ c ∈ word, isWordChar c) ∧ word.head? ≠ some 'c') ∧ g = [] := by
    rcases hword with hword | ⟨rfl, rfl⟩
    · obtain ⟨t, ht, rfl, hg⟩ := hword.exists_mem
      exact ⟨hmods t ht, hg⟩
    · exact ⟨by simp, rfl⟩
  obtain ⟨hmod, rfl⟩ := hmod
  have hgap : isBlankOnly (d :: gap) := all_eq_true.mpr (forall_mem_cons.mpr ⟨hd, hgap⟩)
  have hname : IsName (c :: cs) := ⟨c, cs, rfl, hc, hcs⟩
  rcases htail with ⟨_, _, _, _, ⟨⟨e, he, rfl⟩, rfl⟩, htail, rfl, rfl⟩ | ⟨rfl, rfl⟩
  · obtain ⟨b', _, _, _, ⟨hb', rfl⟩, ⟨_, ⟨_, cl, _, _, ⟨⟨x, hx, rfl⟩, rfl⟩, ⟨hcl, rfl⟩, rfl, rfl⟩, rfl⟩, rfl, rfl⟩ :=
      htail
    obtain rfl := beq_iff_eq.mp he
    have hlisted : '\x7b' ∉ x :: cl := by
      rw [mem_cons, not_or]
      exact ⟨fun h => bne_iff_ne.mp hx h.symm, fun h => bne_iff_ne.mp (hcl _ h) rfl⟩
    exact ⟨⟨⟨d :: gap, c :: cs, space, hgap, by simp, hname, all_eq_true.mpr hspace⟩, word, lead, _, _, hmod,
      all_eq_true.mpr hlead, .listed (all_eq_true.mpr hb') hlisted (all_eq_true.mpr hb)⟩,
      by simp [Taken.text, Front.front], rfl⟩
  · have hspaces : isBlankOnly (space ++ b) := all_eq_true.mpr (forall_mem_append.mpr ⟨hspace, hb⟩)
    exact ⟨⟨⟨d :: gap, c :: cs, space ++ b, hgap, by simp, hname, hspaces⟩, word, lead, [], _, hmod,
      all_eq_true.mpr hlead, .none⟩, by simp [Taken.text, Front.front], rfl⟩

/-! ### Headers -/

/-- No word goes on after a text, and no class is left in the middle of its header: after each `class` a brace is
opened, or there is no colon. -/
structure IsClear (pre : List Char) : Prop where
  boundary : ∀ c ∈ pre.getLast?, isWordChar c = false
  closed : ∀ u x, pre = u ++ ("class".toList ++ x) → '\x7b' ∈ x ∨ ':' ∉ x

namespace IsClear

variable {t t' : Taken} {pre u v x post : List Char}

theorem not_word (hpre : IsClear pre) (hx : pre = u ++ x) (hne : x ≠ []) : ∃ c ∈ x, isWordChar c = false :=
  ⟨x.getLast hne, getLast_mem hne, hpre.boundary _ (by simp [hx, getLast?_append, getLast?_eq_some_getLast hne])⟩

theorem not_late (hpre : IsClear pre) (hx : u ++ (t.word ++ t.lead) = pre ++ 'c' :: x) : pre.length < u.length := by
  have hlead : 'c' ∉ t.lead := not_mem_of_blanks t.lead_blank rfl
  refine Nat.lt_of_not_le fun hle => ?_
  obtain ⟨y, rfl⟩ := prefix_of_prefix_length_le ⟨_, hx⟩ (prefix_append pre _) hle
  rw [append_assoc] at hx
  rcases append_eq_append_iff.mp (append_cancel_left hx) with ⟨z, _, hz⟩ | ⟨z, hword, hz⟩
  · exact hlead (by simp [hz])
  · cases z with
    | nil =>
      rw [show t.lead = 'c' :: x from hz.symm] at hlead
      exact hlead mem_cons_self
    | cons d z =>
      obtain ⟨rfl, _⟩ := cons_eq_cons.mp hz
      by_cases hy : y = []
      · exact t.word_ok.2 (by simp [hword, hy])
      · obtain ⟨c, hc, hcw⟩ := hpre.not_word rfl hy
        rw [t.word_ok.1 c (by simp [hword, hc])] at hcw
        cases hcw

theorem not_early (hpre : IsClear pre) (hx : pre = u ++ x) (hne : x ≠ [])
    (heq : "class".toList ++ (t.front ++ t.tail ++ '\x7b' :: v) =
      x ++ ("class".toList ++ (t'.front ++ t'.tail ++ '\x7b' :: post))) :
    ("class".toList ++ (t.front ++ t.tail)).length < x.length := by
  have hkey : ∀ c ∈ "class".toList, isWordChar c := by decide
  refine Nat.lt_of_not_le fun hle => ?_
  rcases append_eq_append_iff.mp heq with ⟨y, rfl, hy⟩ | ⟨y, hy, _⟩
  · have hbrace : '\x7b' ∉ y := by
      have hinit := prefix_of_prefix_length_le ⟨_, hy.symm⟩ (prefix_append _ _) (by simpa using hle)
      exact fun hmem => t.not_mem_body (hinit.subset hmem)
    have hcolon : ':' ∉ y := (hpre.closed u y hx).resolve_left hbrace
    have hbody : t.front ++ t.tail = y ++ ("class".toList ++ (t'.front ++ t'.tail)) := by
      rw [← append_assoc, ← append_assoc, append_assoc y] at hy
      refine (eq_of_append_of_not_mem t.not_mem_body ?_ (by simp) (by simp) hy).1
      exact not_mem_append hbrace (not_mem_append (by decide) t'.not_mem_body)
    have hfront : t.front = y ++ ("class".toList ++ t'.front) := by
      refine (eq_of_append_of_not_mem (c := ':') (t.not_mem_front rfl rfl) ?_ t.tail_ok.head t'.tail_ok.head
        (hbody.trans (by simp))).1
      exact not_mem_append hcolon (not_mem_append (by decide) (t'.not_mem_front rfl rfl))
    -- the keyword and the name of the header would both stand where there is one name
    have htight : IsTight ("class".toList ++ t'.gap ++ t'.name) :=
      (IsWord.isTight ⟨by decide, by decide⟩).append t'.gap t'.name_ok.isWord.isTight
    have htrim : trim (y ++ ("class".toList ++ t'.gap ++ t'.name) ++ t'.space) = t.name := by
      rw [← t.trim_front, hfront]
      simp [Front.front]
    have hsuffix := htight.suffix_trim y
    rw [← trim_append_of_blank t'.space_blank, htrim] at hsuffix
    obtain ⟨b, gap, hgap⟩ := exists_cons_of_ne_nil t'.gap_ne
    have hsolid := t.name_ok.isWord.solid b (hsuffix.subset (by simp [hgap]))
    rw [all_eq_true.mp t'.gap_blank b (by simp [hgap])] at hsolid
    cases hsolid
  · obtain ⟨c, hc, hcw⟩ := hpre.not_word hx hne
    rw [hkey c (by simp [hy, hc])] at hcw
    cases hcw

end IsClear

/-- The header of a class with bases, up to the brace that opens its body. -/
structure Header extends Front where
  bases : List Base
  bases_ne : bases ≠ []

namespace Header

def list (h : Header) : List Char := join [','] (h.bases.map Base.text)

def text (h : Header) : List Char := "class".toList ++ (h.front ++ ':' :: (h.list ++ ['\x7b']))

def clauses (h : Header) : List BaseClause := h.bases.map fun b => ⟨String.ofList h.name, b.head, b.kind⟩

theorem map_basePart (ps : List (List Char)) : (ps.map String.ofList).map basePart =
    (ps.map trim).map fun p => TypeName.lastPart (Text.trim (TypeName.dropParameters (String.ofList p))) "." := by
  simp [basePart, Text.trim]

theorem not_mem_list (h : Header) : '\x7b' ∉ h.list :=
  not_mem_join (by decide) (forall_mem_map.mpr fun b _ => b.not_mem_text)

def taken (h : Header) : Taken where
  toFront := h.toFront
  word := []
  lead := []
  tail := ':' :: ([] ++ (h.list ++ []))
  groups := [(2, h.list), (1, h.name)]
  word_ok := by simp
  lead_blank := rfl
  tail_ok := .listed rfl h.not_mem_list rfl

theorem list_ne (h : Header) : h.list ≠ [] := by
  obtain ⟨b, bs, hbases⟩ := exists_cons_of_ne_nil h.bases_ne
  obtain ⟨⟨c, t, ht, _⟩, _⟩ := b.isTight_join
  rw [list, hbases]
  cases bs <;> simp [join, Base.text, ht]

theorem spells (h : Header) {s : Place} (hs : s.isBoundary) : classPattern.Spells s h.text h.taken.groups := by
  obtain ⟨d, gap, hgap⟩ := exists_cons_of_ne_nil h.gap_ne
  obtain ⟨x, cl, hcl⟩ := exists_cons_of_ne_nil h.list_ne
  obtain ⟨c, cs, hname, hc, hcs⟩ := h.name_ok
  have hblank := all_eq_true.mp h.gap_blank
  have hlist : ∀ c ∈ h.list, (c != '\x7b') :=
    fun c hc => bne_iff_ne.mpr (ne_of_mem_of_not_mem hc h.not_mem_list)
  rw [hgap, forall_mem_cons] at hblank
  rw [hcl, forall_mem_cons] at hlist
  rw [text, Front.front, append_assoc, append_assoc]
  refine .next (w := []) ⟨hs, rfl, rfl⟩ (.next (w := []) (.inr ⟨rfl, rfl⟩) (.next (w := []) ⟨by simp, rfl⟩ ?_))
  refine .next (Pattern.spells_word_iff.mpr ⟨rfl, rfl⟩)
    (.next (w := h.gap) (hgap ▸ Pattern.spells_name hblank.1 hblank.2) ?_)
  refine ⟨h.name, _, [(1, h.name)], [(2, h.list)], ⟨[], hname ▸ Pattern.spells_name hc hcs, rfl⟩, ?_, rfl, rfl⟩
  refine .next ⟨all_eq_true.mp h.space_blank, rfl⟩ ?_
  refine ⟨':' :: h.list, ['\x7b'], [(2, h.list)], [], .inl ?_, ?_, rfl, rfl⟩
  · refine .next (w := [':']) ⟨⟨':', rfl, rfl⟩, rfl⟩ (.next (w := []) (v := h.list) ⟨by simp, rfl⟩ ⟨[], ?_, rfl⟩)
    exact hcl ▸ Pattern.spells_name hlist.1 hlist.2
  · exact .next (w := []) ⟨by simp, rfl⟩ ⟨⟨'\x7b', rfl, rfl⟩, rfl⟩

variable (h : Header) {pre : List Char}

/-- **A header in a clear place is found.** -/
theorem exists_taken_match (hpre : IsClear pre) (post : List Char) :
    ∃ m ∈ classPattern.findAll (pre ++ (h.text ++ post)), (m.first.pos ≤ pre.length ∧ pre.length < m.last.pos) ∧
      ∃ t : Taken, m.groups = t.groups ∧ t.name = h.name ∧ t.tail = h.taken.tail := by
  have hboundary : ((Place.start (pre ++ (h.text ++ post))).after pre).isBoundary := by
    have hkey : isWordChar 'c' := by decide
    have hword := hpre.boundary
    cases hlast : pre.getLast? <;> simp_all [Place.isBoundary, Place.after, Place.start, text]
  have hmatch : (classPattern.matchAt ((Place.start (pre ++ (h.text ++ post))).after pre)).isSome :=
    classPattern.run_isSome (h.spells hboundary) (by simp [Place.after, Place.start]) rfl
  have hsplit : pre ++ (h.text ++ post) = pre ++ 'c' :: (h.text ++ post).tail := rfl
  obtain ⟨m, hm, hle, hlt⟩ := Pattern.exists_covering hsplit (Nat.zero_le _) hmatch
  obtain ⟨u, w, v, hcs, hfirst, hlast, hw⟩ := Pattern.exists_spells_of_mem_findAll hm
  obtain ⟨t, rfl, hg⟩ := exists_taken hw
  have hfirstPos : m.first.pos = u.length := by simp [hfirst, Place.after, Place.start]
  have hlastPos : m.last.pos = u.length + t.text.length := by simp [hlast, Place.after, hfirstPos]
  have hlong : t.text.length = (t.word ++ t.lead).length + ("class".toList ++ (t.front ++ t.tail)).length + 1 := by
    simp [Taken.text]
    omega
  rw [Nat.zero_add] at hle hlt
  have heq : u ++ (t.word ++ t.lead) ++ ("class".toList ++ (t.front ++ t.tail ++ '\x7b' :: v)) =
      pre ++ ("class".toList ++ (h.taken.front ++ h.taken.tail ++ '\x7b' :: post)) := by
    simpa [Taken.text, taken, text] using hcs.symm
  have hplace : u ++ (t.word ++ t.lead) = pre := by
    rcases append_eq_append_iff.mp heq with ⟨x, hx, hrest⟩ | ⟨x, hx, hrest⟩
    · by_cases hne : x = []
      · simp [hx, hne]
      · have hlater := hpre.not_early hx hne hrest
        have hlength := congrArg List.length hx
        rw [length_append, length_append] at hlength
        omega
    · cases x with
      | nil => simpa using hx
      | cons c x =>
        obtain ⟨rfl, _⟩ := cons_eq_cons.mp hrest
        exact absurd (hpre.not_late hx) (by omega)
  rw [hplace] at heq
  have hbody := append_cancel_left (append_cancel_left heq)
  have hsame : t.name = h.taken.name ∧ t.tail = h.taken.tail :=
    Taken.eq_of_body (eq_of_append_of_not_mem t.not_mem_body h.taken.not_mem_body (by simp) (by simp) hbody).1
  exact ⟨m, hm, ⟨hle, by omega⟩, t, hg, hsame⟩

/-- **The bases of a header are told apart** exactly if all of them are flat: a comma among the parameters gives one
piece more, and of nested ones a bracket is left. -/
theorem names_read_iff : ((splitOn [','] h.list).map String.ofList).map basePart = h.bases.map Base.head ↔
    ∀ b ∈ h.bases, b.IsFlat := by
  have hne : h.bases.map Base.text ≠ [] := by simpa using h.bases_ne
  simp only [Base.isFlat_iff]
  by_cases hplain : ∀ b ∈ h.bases, ',' ∉ b.text
  · rw [list, splitOn_join hne (forall_mem_map.mpr hplain), map_map, map_map, map_inj_left]
    refine forall₂_congr fun b hb => ?_
    rw [Function.comp_apply, Function.comp_apply, b.basePart_text_iff, and_iff_right (hplain b hb)]
  · refine iff_of_false (fun heq => hplain ?_) fun hflat => hplain fun b hb => (hflat b hb).1
    have hlength : (splitOn [','] h.list).length = (h.bases.map Base.text).length := by
      simpa using congrArg List.length heq
    have htexts := not_mem_of_length_splitOn_join hne hlength.le
    exact fun b hb => htexts b.text (mem_map_of_mem hb)

/-- **What is read off a header**: its name and, if its bases are flat, the clauses that it stands for. -/
theorem exists_match (hpre : IsClear pre) (post : List Char) :
    ∃ m ∈ classPattern.findAll (pre ++ (h.text ++ post)), (m.first.pos ≤ pre.length ∧ pre.length < m.last.pos) ∧
      m.text 1 = String.ofList h.name ∧
      ((listedBases m).map basePart = h.bases.map Base.head ↔ ∀ b ∈ h.bases, b.IsFlat) ∧
      ((∀ b ∈ h.bases, b.IsFlat) → classClauses m = h.clauses) := by
  obtain ⟨m, hm, hpos, t, hg, hname, htail⟩ := h.exists_taken_match hpre post
  refine ⟨m, hm, hpos, ?_⟩
  have hread := t.tail_ok
  rw [hname, htail, ← hg] at hread
  obtain ⟨b, cl, b', hb, hb', hlist, hgroups⟩ := hread.exists_listed
  have htext : m.text 1 = String.ofList h.name := by simp [Pattern.Match.text, Pattern.Match.group?, hgroups]
  have hpieces : (splitOn [','] cl).map trim = (splitOn [','] h.list).map trim := by
    have hlist : h.list = b ++ (cl ++ b') := by simpa using hlist
    rw [hlist, map_trim_splitOn rfl hb]
    exact (map_trim_splitOnFrom rfl hb' [] cl).symm
  have hnames : (listedBases m).map basePart = h.bases.map Base.head ↔ ∀ b ∈ h.bases, b.IsFlat := by
    have hlisted : listedBases m = (splitOn [','] cl).map String.ofList := by
      simp [listedBases, Pattern.Match.group?, hgroups, Text.splitOn]
    rw [hlisted, map_basePart, hpieces, ← map_basePart, h.names_read_iff]
  have hkept : (h.bases.map Base.head).filter (· != "") = h.bases.map Base.head := by
    refine filter_eq_self.mpr (forall_mem_map.mpr fun b _ => ?_)
    rw [bne_iff_ne]
    exact fun h => b.last.name_word.ne_nil (String.ofList_eq_empty_iff.mp h)
  refine ⟨htext, hnames, fun hflat => ?_⟩
  rw [classClauses, hnames.mpr hflat, hkept, htext, clauses, map_map]
  exact map_congr_left fun b _ => congrArg _ b.clauseKind_head

end Header

/-! ### Reading a text -/

/-- A header lists a base that is named by the single letter `I`. -/
def listsI (m : Pattern.Match) : Bool := ((listedBases m).map basePart).contains "I"

theorem baseKind?_eq_none_iff {base : String} : baseKind? base = none ↔ base = "I" := by
  have hletter : base = "I" ↔ base.toList = ['I'] := String.toList_inj.symm
  unfold baseKind?
  split <;> simp_all

theorem addBases_told (cls : String) (parts : List String) (f : Findings) :
    (addBases cls parts f).1 = !(parts.map basePart).contains "I" := by
  induction parts generalizing f with
  | nil => rfl
  | cons part parts ih =>
    rw [addBases_cons, map_cons, contains_cons]
    by_cases hempty : basePart part = ""
    · rw [hempty]
      exact ih f
    · rw [if_neg (by simpa using hempty)]
      cases hkind : baseKind? (basePart part) with
      | none =>
        rw [baseKind?_eq_none_iff.mp hkind]
        rfl
      | some kind =>
        have hne : basePart part ≠ "I" := fun heq => by simp [baseKind?_eq_none_iff.mpr heq] at hkind
        rw [Option.elim_some, ih, beq_eq_false_iff_ne.mpr hne.symm, Bool.false_or]

theorem isSome_classEntries (package : String) (ms : List Pattern.Match) (f : Findings) :
    (classEntries package ms f).1.isSome = !ms.any listsI := by
  induction ms generalizing f with
  | nil => rfl
  | cons m ms ih =>
    have htold := addBases_told (m.text 1) (listedBases m) (f.addClass (m.text 1))
    rw [any_cons, Bool.not_or, listsI, ← htold]
    unfold classEntries
    simp only
    split
    next hbases =>
      rw [listedBases, hbases]
      rfl
    next hbases =>
      rw [listedBases, hbases, Option.isSome_map, ih]
      rfl

theorem names_classes (source package : String) (f : Findings) : (classes source package f).1.map (·.name) =
    if (classPattern.findAll source.toList).any listsI then []
    else (classPattern.findAll source.toList ++ interfacePattern.findAll source.toList).map (·.text 1) := by
  unfold classes
  simp only
  split
  next hentries =>
    have htold := (congrArg (·.1.isSome) hentries).symm.trans (isSome_classEntries ..)
    rw [if_pos (by simpa using htold)]
    rfl
  next hentries =>
    have htold := (congrArg (·.1.isSome) hentries).symm.trans (isSome_classEntries ..)
    rw [if_neg (by simpa using htold), map_append, map_append, names_classEntries (congrArg Prod.fst hentries)]
    exact congrArg (_ ++ ·) (names_readEach (fun m f => show (interfaceEntry _ m f).1.name = m.text 1 from rfl) _ _)

/-- **The bases in a header are read** exactly if they are flat, and all headers are, unless one of them lists a base
named `I`. -/
theorem classes_of_header {h : Header} {pre post : List Char} {source : String} (hpre : IsClear pre)
    (hsource : source.toList = pre ++ (h.text ++ post)) (package : String) (f : Findings) :
    (∃ m ∈ classPattern.findAll source.toList, (m.first.pos ≤ pre.length ∧ pre.length < m.last.pos) ∧
      m.text 1 = String.ofList h.name ∧
      ((listedBases m).map basePart = h.bases.map Base.head ↔ ∀ b ∈ h.bases, b.IsFlat) ∧
      ((∀ b ∈ h.bases, b.IsFlat) → classClauses m = h.clauses)) ∧
    if (classPattern.findAll source.toList).any listsI then (classes source package f).1 = []
    else (classes source package f).1.map (·.name) =
        (classPattern.findAll source.toList ++ interfacePattern.findAll source.toList).map (·.text 1) ∧
      (classes source package f).2.relations = f.relations ++
        (baseClauses source.toList).map BaseClause.toRelation := by
  have hmatch := h.exists_match hpre post
  rw [← hsource] at hmatch
  refine ⟨hmatch, ?_⟩
  have hnames := names_classes source package f
  by_cases hany : (classPattern.findAll source.toList).any listsI = true
  · rw [if_pos hany] at hnames ⊢
    exact map_eq_nil_iff.mp hnames
  · rw [if_neg hany] at hnames ⊢
    refine ⟨hnames, Workbench.relations_classesOf .csharp source package f fun hnone => ?_⟩
    obtain ⟨m, hm, _⟩ := hmatch
    rw [show (classes source package f).1 = [] from hnone, map_nil, map_append] at hnames
    rw [map_eq_nil_iff.mp (append_eq_nil_iff.mp hnames.symm).1] at hm
    cases hm

/-- The header `class Circle : IShape, Figures.Figure<T> {`. -/
def circle : Header where
  gap := [' ']
  name := "Circle".toList
  space := [' ']
  bases := [⟨[' '], [], ⟨"IShape".toList, none, ⟨by decide, by decide⟩, by decide, by simp, by simp⟩, [], rfl, rfl⟩,
    ⟨[' '], [⟨"Figures".toList, none, ⟨by decide, by decide⟩, by decide, by simp, by simp⟩],
      ⟨"Figure".toList, some ['T'], ⟨by decide, by decide⟩, by decide, by simp, by simp; decide⟩, [' '], rfl, rfl⟩]
  gap_blank := rfl
  gap_ne := by decide
  name_ok := ⟨'C', "ircle".toList, rfl, rfl, by decide⟩
  space_blank := rfl
  bases_ne := by simp

/-- The header `class Bag : List<List<int>> {`. -/
def bag : Header where
  gap := [' ']
  name := "Bag".toList
  space := [' ']
  bases := [⟨[' '], [], ⟨"List".toList, some "List<int>".toList, ⟨by decide, by decide⟩, by decide, by simp,
    by simp; decide⟩, [' '], rfl, rfl⟩]
  gap_blank := rfl
  gap_ne := by decide
  name_ok := ⟨'B', "ag".toList, rfl, rfl, by decide⟩
  space_blank := rfl
  bases_ne := by simp

theorem classes_of_header_circle :
    (∃ m ∈ classPattern.findAll "class Circle : IShape, Figures.Figure<T> \x7b\x7d".toList,
      classClauses m = [⟨"Circle", "IShape", .implements⟩, ⟨"Circle", "Figure", .extends⟩]) ∧
    ∃ m ∈ classPattern.findAll "class Bag : List<List<int>> \x7b\x7d".toList,
      (listedBases m).map basePart ≠ ["List"] := by
  have hclear : IsClear [] := ⟨by simp, by simp⟩
  have hcircle : "class Circle : IShape, Figures.Figure<T> \x7b\x7d".toList = [] ++ (circle.text ++ ['\x7d']) := rfl
  have hflat : ∀ b ∈ circle.bases, b.IsFlat := by
    simp [circle, Base.IsFlat, Base.parts, TypePart.IsNested]
  have hbag : "class Bag : List<List<int>> \x7b\x7d".toList = [] ++ (bag.text ++ ['\x7d']) := rfl
  have hnested : ¬ ∀ b ∈ bag.bases, b.IsFlat := by
    simp [bag, Base.IsFlat, Base.parts, TypePart.IsNested]
  obtain ⟨⟨m, hm, _, _, _, hclauses⟩, _⟩ := classes_of_header hclear hcircle "" {}
  obtain ⟨⟨m', hm', _, _, hnames, _⟩, _⟩ := classes_of_header hclear hbag "" {}
  exact ⟨⟨m, hm, hclauses hflat⟩, m', hm', mt hnames.mp hnested⟩

theorem classes_of_header_lost : (classes "class D : I \x7b\x7d" "" {}).1 = [] := by
  decide

end CSharp

end CodeAtlas
