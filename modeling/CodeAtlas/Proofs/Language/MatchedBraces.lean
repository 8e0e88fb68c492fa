import CodeAtlas.Proofs.Language.Locality
import CodeAtlas.Proofs.Text.Occurrence

/-!
# Matched braces

The body of a declaration is the text from the first opening brace to the first place where as many braces are closed
as opened. `Braces.IsBody` says so by counting and `Braces.close` by keeping a depth; they agree on every text.
-/

namespace CodeAtlas

open List Pattern

namespace Braces

/-- A text ends as soon as it has closed `owed` braces more than it opened. -/
def Settles (owed : Nat) (w : List Char) : Prop := w.count '\x7d' = w.count '\x7b' + owed ∧
  ∀ p, p <+: w → p ≠ [] → p ≠ w → p.count '\x7d' ≠ p.count '\x7b' + owed

/-- A text starts at the first opening brace of another one and ends as soon as its braces are balanced. -/
structure IsBody (cs body : List Char) : Prop where
  within : ∃ front back, cs = front ++ (body ++ back) ∧ '\x7b' ∉ front
  opens : body.head? = some '\x7b'
  settles : Settles 0 body

section

variable {owed k : Nat} {c : Char} {cs w : List Char}

/-- The first character changes what the others owe by one at most; if they owe nothing, there are none. -/
theorem settles_cons_iff (hc : [c].count '\x7d' + k = [c].count '\x7b' + owed) :
    Settles owed (c :: w) ↔ Settles k w ∧ (k = 0 → w = []) := by
  have hsame (p : List Char) :
      (c :: p).count '\x7d' = (c :: p).count '\x7b' + owed ↔ p.count '\x7d' = p.count '\x7b' + k := by
    rw [← singleton_append, count_append, count_append]
    omega
  constructor
  · rintro ⟨hcount, hfirst⟩
    refine ⟨⟨(hsame w).mp hcount, fun p hp _ hne heq => ?_⟩, fun hzero => Decidable.byContradiction fun hw => ?_⟩
    · exact hfirst _ (cons_prefix_cons.mpr ⟨rfl, hp⟩) (cons_ne_nil c p) (by simpa using hne) ((hsame p).mpr heq)
    · exact hfirst [c] ⟨w, rfl⟩ (cons_ne_nil c []) (by simpa using Ne.symm hw) ((hsame []).mpr (by simp [hzero]))
  · rintro ⟨⟨hcount, hfirst⟩, hzero⟩
    refine ⟨(hsame w).mpr hcount, fun p hp hnil hne heq => ?_⟩
    obtain ⟨d, p, rfl⟩ := exists_cons_of_ne_nil hnil
    obtain ⟨rfl, hpre⟩ := cons_prefix_cons.mp hp
    have heq := (hsame p).mp heq
    cases p with
    | nil => exact hne (congrArg _ (hzero (by simpa using heq.symm)).symm)
    | cons e p => exact hfirst _ hpre (cons_ne_nil e p) (by simpa using hne) heq

theorem prefix_cons_settles_iff (howed : owed ≠ 0)
    (hc : [c].count '\x7d' + k = [c].count '\x7b' + owed) :
    (w <+: c :: cs ∧ Settles owed w) ↔ ∃ v, (v <+: cs ∧ Settles k v ∧ (k = 0 → v = [])) ∧ c :: v = w := by
  rw [prefix_cons_iff]
  constructor
  · rintro ⟨rfl | ⟨v, rfl, hv⟩, hw⟩
    · exact absurd (by simpa using hw.1.symm) howed
    · exact ⟨v, ⟨hv, (settles_cons_iff hc).mp hw⟩, rfl⟩
  · rintro ⟨v, ⟨hv, hw⟩, rfl⟩
    exact ⟨.inr ⟨v, rfl, hv⟩, (settles_cons_iff hc).mpr hw⟩

/-- **A depth is what is owed**: closing at a depth gives the text that ends as soon as it closes one brace more. -/
theorem close_eq_some_iff {depth : Nat} : close depth cs = some w ↔ w <+: cs ∧ Settles (depth + 1) w := by
  induction cs generalizing depth w with
  | nil =>
    constructor
    · intro h
      cases h
    · rintro ⟨hpre, hcount, -⟩
      rw [prefix_nil.mp hpre] at hcount
      simp at hcount
  | cons c cs ih =>
    have hstep (d : Nat) (hc : [c].count '\x7d' + (d + 1) = [c].count '\x7b' + (depth + 1)) :
        (close d cs).map (c :: ·) = some w ↔ w <+: c :: cs ∧ Settles (depth + 1) w := by
      rw [prefix_cons_settles_iff (Nat.succ_ne_zero depth) hc]
      simp [ih]
    unfold close
    split
    next hopen => exact hstep (depth + 1) (by simp [beq_iff_eq.mp hopen]; omega)
    next hopen =>
      split
      next hclose =>
        obtain rfl := beq_iff_eq.mp hclose
        split
        · rw [prefix_cons_settles_iff (k := 0) (Nat.succ_ne_zero 0) rfl]
          constructor
          · exact fun h => ⟨[], ⟨ nil_prefix, by simp [Settles], fun _ => rfl⟩, Option.some.inj h⟩
          · rintro ⟨v, ⟨-, -, hv⟩, rfl⟩
            rw [hv rfl]
        · exact hstep _ (by simp; omega)
      next hclose => exact hstep depth (by simp [count_cons, hopen, hclose])

end

section

variable {cs body p : List Char}

theorem body?_eq_some_iff : body? cs = some body ↔ IsBody cs body := by
  have hstart (v : List Char) : Settles 0 ('\x7b' :: v) ↔ Settles 1 v := by
    rw [settles_cons_iff (k := 1) rfl]
    simp
  constructor
  · intro h
    unfold body? at h
    have hfirst := head?_dropWhile_not (· != '\x7b') cs
    have hfront : '\x7b' ∉ cs.takeWhile (· != '\x7b') := fun hmem => by simpa using mem_takeWhile_imp hmem
    rw [← takeWhile_append_dropWhile (p := (· != '\x7b')) (l := cs)]
    split at h
    · cases h
    next c rest hdrop =>
      rw [hdrop] at hfirst ⊢
      obtain rfl : c = '\x7b' := by simpa using hfirst
      obtain ⟨v, hv, rfl⟩ := Option.map_eq_some_iff.mp h
      obtain ⟨⟨back, rfl⟩, hsettles⟩ := close_eq_some_iff.mp hv
      exact ⟨⟨_, back, rfl, hfront⟩, rfl, (hstart v).mpr hsettles⟩
  · rintro ⟨⟨front, back, rfl, hfront⟩, hopens, hsettles⟩
    obtain ⟨v, rfl⟩ := head?_eq_some_iff.mp hopens
    have hpass : ∀ c ∈ front, (c != '\x7b') = true := fun c hc => bne_iff_ne.mpr fun h => hfront (h ▸ hc)
    have hclose := close_eq_some_iff.mpr ⟨prefix_append v back, (hstart v).mp hsettles⟩
    rw [body?, dropWhile_append_of_pos hpass]
    simp [hclose]

/-- Where no text is a body, the empty text stands for it. -/
theorem getD_body?_spec (cs body : List Char) : ((body? cs).getD [] = body ∧ body ≠ [] ↔ IsBody cs body) ∧
    ((body? cs).getD [] = [] ↔ ∀ b, ¬IsBody cs b) := by
  simp only [← body?_eq_some_iff]
  cases hbody : body? cs with
  | none => simp +contextual [eq_comm]
  | some b =>
    have hne : b ≠ [] := by
      rintro rfl
      cases (body?_eq_some_iff.mp hbody).opens
    refine ⟨?_, by simp [hne]⟩
    rw [Option.getD_some, Option.some.injEq, and_iff_left_iff_imp]
    rintro rfl
    exact hne

namespace IsBody

/-- Along a body the surplus of opening braces changes by one at most, so it never falls below zero unseen. -/
theorem count_lt (h : IsBody cs body) (hp : p <+: body) (hnil : p ≠ []) (hne : p ≠ body) :
    p.count '\x7d' < p.count '\x7b' := by
  induction p using reverseRecOn with
  | nil => exact absurd rfl hnil
  | append_singleton p c ih =>
    obtain ⟨back, rfl⟩ := hp
    have hend := h.settles.2 _ (prefix_append _ back) hnil hne
    have hone : [c].count '\x7d' ≤ 1 := count_le_length
    rw [count_append, count_append] at hend ⊢
    cases p with
    | nil =>
      obtain rfl : c = '\x7b' := by simpa using h.opens
      decide
    | cons d p =>
      have hbefore := ih ⟨c :: back, by simp⟩ (cons_ne_nil d p) (by simp)
      omega

theorem getLast? (h : IsBody cs body) : body.getLast? = some '\x7d' := by
  have hbalanced := h.settles.1
  induction body using reverseRecOn with
  | nil => cases h.opens
  | append_singleton p c =>
    rw [getLast?_concat]
    cases p with
    | nil =>
      obtain rfl : c = '\x7b' := by simpa using h.opens
      simp at hbalanced
    | cons d p =>
      have hbefore := h.count_lt (prefix_append _ [c]) (cons_ne_nil d p) (by simp)
      rw [count_append, count_append] at hbalanced
      have hc : 0 < [c].count '\x7d' := by omega
      rw [mem_singleton.mp (count_pos_iff.mp hc)]

end IsBody

end

end Braces

namespace Java

/-- In a text, after `u`, the whole words `class` and a name with a gap between them are written as `w`. -/
structure Mentions (cs : List Char) (name : String) (u w : List Char) : Prop where
  within : u ++ w <+: cs
  words : ∃ gap, gap ≠ [] ∧ (∀ c ∈ gap, isBlank c) ∧ w = "class".toList ++ (gap ++ name.toList)
  whole : ((Place.start cs).after u).isBoundary ∧ ((Place.start cs).after (u ++ w)).isBoundary

variable {name : String} {cs u w : List Char} {g : Groups} {m : Match}

theorem mentions_of_spells (hpre : u ++ w <+: cs) (h : (classPattern name).Spells ((Place.start cs).after u) w g) :
    Mentions cs name u w := by
  obtain ⟨_, _, _, _, ⟨hstart, rfl, rfl⟩, ⟨_, _, _, _, hclass, ⟨_, _, _, _, hgap, hrest, rfl, rfl⟩, rfl, rfl⟩,
    rfl, rfl⟩ := h
  obtain ⟨_, _, _, _, hname, ⟨hend, rfl, rfl⟩, rfl, rfl⟩ := hrest
  obtain ⟨rfl, rfl⟩ := spells_word_iff.mp hclass
  obtain ⟨rfl, rfl⟩ := spells_word_iff.mp hname
  obtain ⟨_, gap, _, _, ⟨⟨c, hc, rfl⟩, rfl⟩, ⟨hgap, rfl⟩, rfl, rfl⟩ := hgap
  refine ⟨hpre, ⟨c :: gap, cons_ne_nil c gap, forall_mem_cons.mpr ⟨hc, hgap⟩, by simp⟩, hstart, ?_⟩
  simpa [Place.after_append] using hend

theorem Mentions.matchAt_ne_none (h : Mentions cs name u w) :
    (classPattern name).matchAt ((Place.start cs).after u) ≠ none := by
  obtain ⟨⟨v, rfl⟩, ⟨gap, hne, hgap, rfl⟩, hstart, hend⟩ := h
  obtain ⟨c, gap, rfl⟩ := exists_cons_of_ne_nil hne
  obtain ⟨hc, hgap⟩ := forall_mem_cons.mp hgap
  have hspells :
      (classPattern name).Spells ((Place.start (u ++ ("class".toList ++ (c :: gap ++ name.toList)) ++ v)).after u)
      ("class".toList ++ (c :: gap ++ name.toList)) [] := by
    refine .next (w := []) ⟨hstart, rfl, rfl⟩ (.next (spells_word_iff.mpr ⟨rfl, rfl⟩) (.next (spells_name hc hgap) ?_))
    rw [← append_nil name.toList]
    refine .next (spells_word_iff.mpr ⟨rfl, rfl⟩) ⟨?_, rfl, rfl⟩
    simpa [Place.after_append] using hend
  exact Option.isSome_iff_ne_none.mp (run_isSome _ hspells (by simp [Place.after, Place.start]) rfl)

/-- The first match is the first mention, and the text after it starts where the mention ends. -/
theorem exists_mention (h : (classPattern name).findFirst cs = some m) :
    ∃ u w, cs = u ++ (w ++ m.last.rest) ∧ Mentions cs name u w ∧ ∀ u' w', Mentions cs name u' w' →
      u.length ≤ u'.length := by
  obtain ⟨u, ⟨t, rfl⟩, hm, hearlier⟩ := findFirstFrom_eq_some h
  obtain ⟨w, hw, ⟨v, hv⟩, -, hlast⟩ := matchAt_spells hm
  obtain rfl : w ++ v = t := by simpa [Place.after] using hv
  refine ⟨u, w, by simp [hlast, Place.after], mentions_of_spells ⟨v, append_assoc ..⟩ hw, fun u' w' h' => ?_⟩
  by_contra hlt
  exact h'.matchAt_ne_none (hearlier u' ((prefix_append u' w').trans h'.within) (Nat.lt_of_not_le hlt))

theorem not_mentions_of_findFirst (h : (classPattern name).findFirst cs = none) : ¬Mentions cs name u w := by
  intro hw
  obtain ⟨v, hv⟩ := hw.within
  obtain ⟨gap, -, -, rfl⟩ := hw.words
  exact hw.matchAt_ne_none
    (matchAt_of_findFirstFrom_eq_none (c := 'c') (t := "lass".toList ++ (gap ++ name.toList) ++ v) h (by simp [← hv]))

/-- The text of a class is the body after the first mention of its name. -/
theorem classText?_spec (source name : String) :
    (classText? source name = none ∧ ∀ u w, ¬Mentions source.toList name u w) ∨
    ∃ u w v, source.toList = u ++ (w ++ v) ∧ Mentions source.toList name u w ∧
      (∀ u' w', Mentions source.toList name u' w' → u.length ≤ u'.length) ∧
      ∀ body, classText? source name = some body ↔ Braces.IsBody v body := by
  unfold classText?
  cases hm : (classPattern name).findFirst source.toList with
  | none => exact .inl ⟨rfl, fun u w => not_mentions_of_findFirst hm⟩
  | some m =>
    obtain ⟨u, w, hcs, hw, hleast⟩ := exists_mention hm
    exact .inr ⟨u, w, m.last.rest, hcs, hw, hleast, fun body => Braces.body?_eq_some_iff⟩

end Java

/-- **Bodies are matched braces.** From any place, a body is read exactly, and nothing is read only where there is none;
it ends in a closing brace and before its end more braces are open than closed.  A class is sought by its name first. -/
theorem bodies_matched (text : List Char) (pos : Nat) (before : Option Char) (last : Place) (groups : Groups)
    (source name : String) (body : List Char) :
    let m : Match := ⟨⟨before, pos, text.drop pos⟩, last, groups⟩
    (∀ got ∈ [CSharp.bodyOf m, TypeScript.bodyOf m, Cpp.bodyOf m],
      (got = body ∧ body ≠ [] ↔ Braces.IsBody (text.drop pos) body) ∧
      (got = [] ↔ ∀ b, ¬Braces.IsBody (text.drop pos) b)) ∧
    ((Java.classText? source name = none ∧ ∀ u w, ¬Java.Mentions source.toList name u w) ∨
      ∃ u w v, source.toList = u ++ (w ++ v) ∧ Java.Mentions source.toList name u w ∧
        (∀ u' w', Java.Mentions source.toList name u' w' → u.length ≤ u'.length) ∧
        ∀ b, Java.classText? source name = some b ↔ Braces.IsBody v b) ∧
    (Braces.IsBody text body → body.getLast? = some '\x7d' ∧
      ∀ p, p <+: body → p ≠ [] → p ≠ body → p.count '\x7d' < p.count '\x7b') := by
  intro m
  refine ⟨?_, Java.classText?_spec source name, fun h => ⟨h.getLast?, fun p hp hnil hne => h.count_lt hp hnil hne⟩⟩
  simpa [m, CSharp.bodyOf, TypeScript.bodyOf, Cpp.bodyOf] using Braces.getD_body?_spec _ body

end CodeAtlas
