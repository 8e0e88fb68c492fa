import CodeAtlas.Language.CppClasses
import CodeAtlas.Proofs.Text.Occurrence

/-!
# Comments of C and C++

A scan of a text from left to right passes line comments and block comments, whichever starts first, and knows no
comment inside another.  `Cpp.dropComments` takes the line comments out of the whole text first.  That is the same as
long as no line comment hides the end of a block comment.

* **`Cpp.dropComments_eq_of_scans`**: what is left of a text.
-/

namespace CodeAtlas.Cpp

open List Chars

def blockEnd : List Char := ['*', '/']

/-- The scan of a text from left to right: the block comments that it passes, each with the text behind it, and what it
leaves. A line comment ends before the line feed; a block that never ends is no comment. -/
inductive Scans : List Char → List (List Char × List Char) → List Char → Prop where
  | nil : Scans [] [] []
  | line {t out : List Char} {blocks : List (List Char × List Char)}
    (rest : Scans (t.dropWhile (· != '\n')) blocks out) : Scans ('/' :: '/' :: t) blocks out
  | block {body t out : List Char} {blocks : List (List Char × List Char)} (inside : ¬ blockEnd <:+: body ++ ['*'])
    (rest : Scans t blocks out) : Scans ('/' :: '*' :: (body ++ (blockEnd ++ t))) ((body, t) :: blocks) out
  | endless {t out : List Char} {blocks : List (List Char × List Char)} (inside : ¬ blockEnd <:+: t)
    (rest : Scans ('*' :: t) blocks out) : Scans ('/' :: '*' :: t) blocks ('/' :: out)
  | code {c : Char} {t out : List Char} {blocks : List (List Char × List Char)} (hline : ¬ ['/', '/'] <+: c :: t)
    (hblock : ¬ ['/', '*'] <+: c :: t) (rest : Scans t blocks out) : Scans (c :: t) blocks (c :: out)

theorem exists_scans (cs : List Char) : ∃ blocks out, Scans cs blocks out := by
  induction hn : cs.length using Nat.strongRecOn generalizing cs with
  | ind n ih =>
    subst hn
    have hshorter : ∀ t : List Char, t.length < cs.length → ∃ blocks out, Scans t blocks out :=
      fun t ht => ih t.length ht t rfl
    cases cs with
    | nil => exact ⟨[], [], .nil⟩
    | cons c t =>
      by_cases hline : ['/', '/'] <+: c :: t
      · obtain ⟨u, hu⟩ := hline
        rw [← hu] at hshorter ⊢
        obtain ⟨blocks, out, h⟩ := hshorter (u.dropWhile (· != '\n')) (by
          have := (dropWhile_sublist (l := u) (· != '\n')).length_le
          simp
          omega)
        exact ⟨blocks, out, .line h⟩
      by_cases hblock : ['/', '*'] <+: c :: t
      · obtain ⟨u, hu⟩ := hblock
        rw [← hu] at hshorter ⊢
        by_cases hend : blockEnd <:+: u
        · obtain ⟨body, v, rfl, hbody⟩ := exists_first hend (cons_ne_nil _ _)
          obtain ⟨blocks, out, h⟩ := hshorter v (by simp; omega)
          exact ⟨(body, v) :: blocks, out, .block hbody h⟩
        · obtain ⟨blocks, out, h⟩ := hshorter ('*' :: u) (by simp)
          exact ⟨blocks, '/' :: out, .endless hend h⟩
      obtain ⟨blocks, out, h⟩ := hshorter t (by simp)
      exact ⟨blocks, c :: out, .code hline hblock h⟩

/-! ### Taking line comments out -/

theorem dropLineComments_cons_of_not {c : Char} {cs : List Char} (h : ¬ ['/', '/'] <+: c :: cs) :
    dropLineComments false (c :: cs) = c :: dropLineComments false cs := by
  have hslashes : (c == '/' && cs.head? == some '/') = false := by
    rw [Bool.eq_false_iff]
    intro heq
    rw [Bool.and_eq_true, beq_iff_eq, beq_iff_eq, head?_eq_some_iff] at heq
    obtain ⟨rfl, t, rfl⟩ := heq
    exact h (prefix_append ['/', '/'] t)
  rw [dropLineComments, hslashes]
  rfl

theorem dropLineComments_inside (cs : List Char) :
    dropLineComments true cs = dropLineComments false (cs.dropWhile (· != '\n')) := by
  induction cs with
  | nil => rfl
  | cons c cs ih =>
    by_cases hc : c = '\n'
    · subst hc
      rfl
    · rw [dropWhile_cons_of_pos (by simpa using hc), ← ih, dropLineComments]
      simp [hc]

theorem dropLineComments_slashes (cs : List Char) :
    dropLineComments false ('/' :: '/' :: cs) = dropLineComments false (cs.dropWhile (· != '\n')) :=
  dropLineComments_inside ('/' :: cs)

theorem head?_dropLineComments {cs : List Char} {c : Char} (h : (dropLineComments false cs).head? = some c)
    (hc : c ≠ '\n') : cs.head? = some c := by
  cases cs with
  | nil => exact h
  | cons d cs =>
    by_cases hline : ['/', '/'] <+: d :: cs
    · obtain ⟨u, hu⟩ := hline
      rw [← hu, show ['/', '/'] ++ u = '/' :: '/' :: u from rfl, dropLineComments_slashes] at h
      cases hrest : u.dropWhile (· != '\n') with
      | nil => rw [hrest] at h; cases h
      | cons e t =>
        have he := head?_dropWhile_not (· != '\n') u
        rw [hrest] at he h
        have he : e = '\n' := by simpa using he
        subst he
        exact absurd (Option.some.inj h).symm hc
    · rw [dropLineComments_cons_of_not hline] at h
      exact h

theorem infix_of_infix_dropLineComments (inside : Bool) {cs : List Char}
    (h : blockEnd <:+: dropLineComments inside cs) : blockEnd <:+: cs := by
  induction cs generalizing inside with
  | nil => exact h
  | cons c cs ih =>
    cases inside with
    | true =>
      rw [dropLineComments, if_pos rfl] at h
      split at h
      next hc =>
        rw [infix_cons_iff] at h
        refine infix_cons (ih false (h.resolve_left fun hprefix => ?_))
        rw [beq_iff_eq.mp hc] at hprefix
        cases (cons_prefix_cons.mp hprefix).1
      next => exact infix_cons (ih true h)
    | false =>
      by_cases hline : ['/', '/'] <+: c :: cs
      · obtain ⟨u, hu⟩ := hline
        obtain ⟨rfl, rfl⟩ := cons.inj hu
        exact infix_cons (ih true h)
      · rw [dropLineComments_cons_of_not hline, infix_cons_iff] at h
        rcases h with h | h
        · obtain ⟨rfl, hslash⟩ := cons_prefix_cons.mp h
          obtain ⟨u, hu⟩ := hslash
          have hhead := head?_dropLineComments (c := '/') (by rw [← hu]; rfl) (by decide)
          obtain ⟨t, rfl⟩ := head?_eq_some_iff.mp hhead
          exact (prefix_append blockEnd t).isInfix
        · exact infix_cons (ih false h)

/-- A block comment does not hide its own end: what starts like a line comment in it ends with its line in it, and the
end makes no line comment with what follows. -/
def EndsInSight (body rest : List Char) : Prop :=
  (∀ b, '/' :: '/' :: b <:+ body → '\n' ∈ b) ∧ rest.head? ≠ some '/'

theorem dropLineComments_append_star (inside : Bool) {body : List Char} (hinside : inside → '\n' ∈ body)
    (hlines : ∀ b, '/' :: '/' :: b <:+ body → '\n' ∈ b) (t : List Char) :
    dropLineComments inside (body ++ '*' :: t) = dropLineComments inside body ++ '*' :: dropLineComments false t := by
  induction body generalizing inside with
  | nil =>
    cases inside with
    | true => cases hinside rfl
    | false => exact dropLineComments_cons_of_not (by simp)
  | cons c body ih =>
    have hlater : ∀ b, '/' :: '/' :: b <:+ body → '\n' ∈ b := fun b hb => hlines b (suffix_cons_iff.mpr (.inr hb))
    cases inside with
    | true =>
      rw [cons_append, dropLineComments, dropLineComments, if_pos rfl, if_pos rfl]
      split
      · rw [ih false (by simp) hlater]
        rfl
      next hc =>
        exact ih true (fun _ => (mem_cons.mp (hinside rfl)).resolve_left fun heq => hc (by rw [← heq]; rfl)) hlater
    | false =>
      by_cases hline : ['/', '/'] <+: c :: body
      · obtain ⟨u, hu⟩ := hline
        obtain ⟨rfl, rfl⟩ := cons.inj hu
        exact ih true (fun _ => mem_cons_of_mem _ (hlines u suffix_rfl)) hlater
      · have hline' : ¬ ['/', '/'] <+: c :: (body ++ '*' :: t) := by
          rwa [← cons_append, prefix_append_cons_iff (by decide)]
        rw [cons_append, dropLineComments_cons_of_not hline', dropLineComments_cons_of_not hline,
          ih false (by simp) hlater]
        rfl

/-- **A block comment whose end is in sight** stays a block comment when line comments are taken out. -/
theorem dropLineComments_block {body t : List Char} (h : EndsInSight body t) (hbody : ¬ blockEnd <:+: body ++ ['*']) :
    ∃ body', dropLineComments false (body ++ (blockEnd ++ t)) = body' ++ (blockEnd ++ dropLineComments false t) ∧
      ¬ blockEnd <:+: body' ++ ['*'] := by
  have hstar := dropLineComments_append_star false (by simp) h.1
  refine ⟨dropLineComments false body, ?_, fun hend => hbody ?_⟩
  · have hslash : dropLineComments false ('/' :: t) = '/' :: dropLineComments false t := by
      refine dropLineComments_cons_of_not fun hprefix => ?_
      obtain ⟨u, hu⟩ := (cons_prefix_cons.mp hprefix).2
      exact h.2 (by rw [← hu]; rfl)
    exact (hstar ('/' :: t)).trans (by rw [hslash]; rfl)
  · refine infix_of_infix_dropLineComments false ?_
    rw [hstar []]
    exact hend

/-! ### Taking block comments out -/

theorem dropBlockComments_skip (a b : List Char) : dropBlockComments a.length (a ++ b) = dropBlockComments 0 b := by
  induction a with
  | nil => rfl
  | cons c a ih =>
    rw [length_cons, cons_append, dropBlockComments]
    exact ih

theorem dropBlockComments_block {body : List Char} (h : ¬ blockEnd <:+: body ++ ['*']) (t : List Char) :
    dropBlockComments 0 ('/' :: '*' :: (body ++ (blockEnd ++ t))) = dropBlockComments 0 t := by
  have hfind : find? ['*', '/'] (body ++ (blockEnd ++ t)) = some body.length :=
    find?_append h (cons_ne_nil _ _) t
  have hskip := dropBlockComments_skip ('*' :: (body ++ blockEnd)) t
  rw [dropBlockComments]
  simp only [head?_cons, drop_succ_cons, drop_zero, hfind]
  rw [← hskip]
  simp [blockEnd]

theorem dropBlockComments_endless {t : List Char} (h : ¬ blockEnd <:+: t) :
    dropBlockComments 0 ('/' :: '*' :: t) = '/' :: dropBlockComments 0 ('*' :: t) := by
  have hfind : find? ['*', '/'] t = none := find?_eq_none_iff.mpr h
  rw [dropBlockComments]
  simp [hfind]

theorem dropBlockComments_cons_of_not {c : Char} {t : List Char} (h : ¬ (c = '/' ∧ t.head? = some '*')) :
    dropBlockComments 0 (c :: t) = c :: dropBlockComments 0 t := by
  rw [dropBlockComments]
  simp [h]

/-! ### The two together -/

theorem dropComments_line (t : List Char) :
    dropComments ('/' :: '/' :: t) = dropComments (t.dropWhile (· != '\n')) := by
  rw [dropComments, dropLineComments_slashes, dropComments]

theorem dropComments_block {body t : List Char} (hsight : EndsInSight body t) (h : ¬ blockEnd <:+: body ++ ['*']) :
    dropComments ('/' :: '*' :: (body ++ (blockEnd ++ t))) = dropComments t := by
  obtain ⟨body', hdrop, hinside⟩ := dropLineComments_block hsight h
  rw [dropComments, dropLineComments_cons_of_not (by simp), dropLineComments_cons_of_not (by simp), hdrop,
    dropBlockComments_block hinside, dropComments]

theorem dropComments_endless {t : List Char} (h : ¬ blockEnd <:+: t) :
    dropComments ('/' :: '*' :: t) = '/' :: dropComments ('*' :: t) := by
  rw [dropComments, dropComments, dropLineComments_cons_of_not (by simp), dropLineComments_cons_of_not (by simp),
    dropBlockComments_endless (mt (infix_of_infix_dropLineComments false) h)]

theorem dropComments_code {c : Char} {t : List Char} (hline : ¬ ['/', '/'] <+: c :: t)
    (hblock : ¬ ['/', '*'] <+: c :: t) : dropComments (c :: t) = c :: dropComments t := by
  rw [dropComments, dropLineComments_cons_of_not hline, dropBlockComments_cons_of_not, dropComments]
  rintro ⟨rfl, hstar⟩
  obtain ⟨t, rfl⟩ := head?_eq_some_iff.mp (head?_dropLineComments hstar (by decide))
  exact hblock (prefix_append ['/', '*'] t)

/-- What is left from a block comment on: what follows the first end of a block that no line comment hides, or the whole
text without line comments if there is no such end. -/
def leftFrom (body t : List Char) : List Char :=
  let plain := dropLineComments false (body ++ (blockEnd ++ t))
  (find? blockEnd plain).elim ('/' :: dropBlockComments 0 ('*' :: plain)) fun i => dropBlockComments 0
    (plain.drop (i + 2))

theorem dropComments_eq_leftFrom (body t : List Char) :
    dropComments ('/' :: '*' :: (body ++ (blockEnd ++ t))) = leftFrom body t := by
  rw [dropComments, dropLineComments_cons_of_not (by simp), dropLineComments_cons_of_not (by simp), leftFrom]
  generalize dropLineComments false (body ++ (blockEnd ++ t)) = plain
  by_cases hend : blockEnd <:+: plain
  · obtain ⟨x, y, rfl, hx⟩ := exists_first hend (by decide)
    rw [find?_append hx (by decide), Option.elim_some, dropBlockComments_block hx, ← append_assoc,
      drop_left' (by simp [blockEnd])]
  · rw [find?_eq_none_iff.mpr hend, Option.elim_none, dropBlockComments_endless hend]

/-- **Up to a block comment** a text is left as its scan leaves it, if all block comments before it end in sight. -/
theorem dropComments_of_scans {cs out : List Char} {blocks : List (List Char × List Char)} (h : Scans cs blocks out)
    {seen later : List (List Char × List Char)} {b : List Char × List Char} (hblocks : blocks = seen ++ b :: later)
    (hseen : ∀ s ∈ seen, EndsInSight s.1 s.2) : ∃ before after, out = before ++ after ∧ Scans b.2 later after ∧
      dropComments cs = before ++ leftFrom b.1 b.2 := by
  induction h generalizing seen with
  | nil => cases seen <;> cases hblocks
  | line rest ih =>
    rw [dropComments_line]
    exact ih hblocks hseen
  | @block body t out blocks inside rest ih =>
    cases seen with
    | nil =>
      cases hblocks
      exact ⟨[], out, rfl, rest, dropComments_eq_leftFrom body t⟩
    | cons s seen =>
      cases hblocks
      obtain ⟨hsight, hseen⟩ := forall_mem_cons.mp hseen
      rw [dropComments_block hsight inside]
      exact ih rfl hseen
  | endless inside rest ih =>
    obtain ⟨before, after, rfl, hafter, hdrop⟩ := ih hblocks hseen
    exact ⟨'/' :: before, after, rfl, hafter, by rw [dropComments_endless inside, hdrop]; rfl⟩
  | @code c t out blocks hline hblock rest ih =>
    obtain ⟨before, after, rfl, hafter, hdrop⟩ := ih hblocks hseen
    exact ⟨c :: before, after, rfl, hafter, by rw [dropComments_code hline hblock, hdrop]; rfl⟩

/-- **What is left of a text is what its scan leaves**, if no line comment in it hides the end of a block comment.  From
the first block comment on that hides its own end, what is left is given by `leftFrom`, and the two results differ
exactly if that is not what the scan leaves behind this comment. -/
theorem dropComments_eq_of_scans (cs : List Char) : (∃ blocks out, Scans cs blocks out) ∧
    ∀ blocks out, Scans cs blocks out → ((∀ b ∈ blocks, EndsInSight b.1 b.2) → dropComments cs = out) ∧
      ∀ seen b later, blocks = seen ++ b :: later → (∀ s ∈ seen, EndsInSight s.1 s.2) →
        ∃ before after, out = before ++ after ∧ Scans b.2 later after ∧ dropComments cs = before ++ leftFrom b.1 b.2 ∧
          (dropComments cs ≠ out ↔ leftFrom b.1 b.2 ≠ after) := by
  refine ⟨exists_scans cs, fun blocks out h => ⟨fun hsight => ?_, fun seen b later hblocks hseen => ?_⟩⟩
  · induction h with
    | nil => rfl
    | line rest ih => rw [dropComments_line, ih hsight]
    | block inside rest ih =>
      obtain ⟨hbody, hlater⟩ := forall_mem_cons.mp hsight
      rw [dropComments_block hbody inside, ih hlater]
    | endless inside rest ih => rw [dropComments_endless inside, ih hsight]
    | code hline hblock rest ih => rw [dropComments_code hline hblock, ih hsight]
  · obtain ⟨before, after, rfl, hafter, hdrop⟩ := dropComments_of_scans h hblocks hseen
    exact ⟨before, after, rfl, hafter, hdrop, by rw [hdrop, ne_eq, append_cancel_left_eq]⟩

/-- A block comment in which there is a line that looks like a comment, and a line comment after it. -/
theorem dropComments_two_lines : Scans "a/*//\n*/b//c".toList [("//\n".toList, "b//c".toList)] "ab".toList ∧
    dropComments "a/*//\n*/b//c".toList = "ab".toList := by
  have hscan : Scans "a/*//\n*/b//c".toList [("//\n".toList, "b//c".toList)] "ab".toList :=
    .code (by decide) (by decide) (.block (by decide : ¬ blockEnd <:+: ['/', '/', '\n'] ++ ['*'])
      (.code (by decide) (by decide) (.line .nil)))
  refine ⟨hscan, ((dropComments_eq_of_scans _).2 _ _ hscan).1 (forall_mem_singleton.mpr ⟨fun b hb => ?_, by decide⟩)⟩
  simp [suffix_cons_iff] at hb
  simp [hb]

/-- A block comment that hides its own end is not taken out. -/
theorem dropComments_hidden_end : Scans "/* // */ x".toList [(" // ".toList, " x".toList)] " x".toList ∧
    dropComments "/* // */ x".toList = "/* ".toList :=
  ⟨.block (by decide : ¬ blockEnd <:+: [' ', '/', '/', ' '] ++ ['*'])
    (.code (by decide) (by decide) (.code (by decide) (by decide) .nil)), by decide⟩

end CodeAtlas.Cpp
