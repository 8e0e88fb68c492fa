import CodeAtlas.Text.Pattern

/-!
# What the matches of a pattern take and keep

`Pattern.Spells` says which texts a pattern can take at a place and what it keeps of them, without regard to the order
in which the matcher tries them.
-/

namespace CodeAtlas

open List Place

def Place.after (s : Place) (w : List Char) : Place := ⟨w.getLast?.or s.before, s.pos + w.length, s.rest.drop w.length⟩

@[simp] theorem Place.after_nil (s : Place) : s.after [] = s := by
  simp [after]

theorem Place.after_append (s : Place) (w v : List Char) : (s.after w).after v = s.after (w ++ v) := by
  simp [after, getLast?_append, drop_drop, Nat.add_assoc, Option.or_assoc]

theorem Place.after_cons (before : Option Char) (pos : Nat) (c : Char) (w cs : List Char) :
    (⟨before, pos, c :: cs⟩ : Place).after (c :: w) = (⟨some c, pos + 1, cs⟩ : Place).after w := by
  simp [after, getLast?_cons, Option.or_some, Nat.add_assoc, Nat.add_comm 1]

theorem Place.upTo_after {s : Place} {w : List Char} (h : w <+: s.rest) : s.upTo (s.after w) = w := by
  rw [upTo, after, Nat.add_sub_cancel_left]
  exact (prefix_iff_eq_take.mp h).symm

namespace Pattern

/-- A pattern can take a text at a place, and keeps some of it. -/
def Spells : Pattern → Place → List Char → Groups → Prop
  | empty, _, w, g => w = [] ∧ g = []
  | one p, _, w, g => (∃ c, p c = true ∧ w = [c]) ∧ g = []
  | many p, _, w, g => (∀ c ∈ w, p c = true) ∧ g = []
  | few p, _, w, g => (∀ c ∈ w, p c = true) ∧ g = []
  | seq a b, s, w, g =>
    ∃ u v h k, a.Spells s u h ∧ b.Spells (s.after u) v k ∧ w = u ++ v ∧ g = k ++ h
  | either a b, s, w, g => a.Spells s w g ∨ b.Spells s w g
  | maybe a, s, w, g => a.Spells s w g ∨ (w = [] ∧ g = [])
  | group n a, s, w, g => ∃ h, a.Spells s w h ∧ g = (n, w) :: h
  | boundary, s, w, g => s.isBoundary = true ∧ w = [] ∧ g = []

section

variable {β : Type} {p : Char → Bool} {k : Place → Option β}

/-- A repetition takes one more character of its class or goes on with the continuation, in whatever order. -/
structure Repeats (p : Char → Bool) (k : Place → Option β) (f : Option Char → Nat → List Char → Option β) : Prop where
  nil : ∀ before pos, f before pos [] = k ⟨before, pos, []⟩
  cons : ∀ before pos c cs r, f before pos (c :: cs) = some r →
    k ⟨before, pos, c :: cs⟩ = some r ∨ (p c = true ∧ f (some c) (pos + 1) cs = some r)
  isSome_cons : ∀ before pos c cs, (k ⟨before, pos, c :: cs⟩).isSome ∨ (p c = true ∧ (f (some c) (pos + 1) cs).isSome) →
    (f before pos (c :: cs)).isSome

theorem repeats_runMany (p : Char → Bool) (k : Place → Option β) : Repeats p k (runMany p k) where
  nil _ _ := rfl
  cons before pos c cs r h := by
    unfold runMany at h
    split at h
    next hc =>
      split at h
      next hmore => exact .inr ⟨hc, hmore.trans h⟩
      next => exact .inl h
    next => exact .inl h
  isSome_cons before pos c cs h := by
    unfold runMany
    cases hmore : runMany p k (some c) (pos + 1) cs <;> cases hc : p c <;> simp_all

theorem repeats_runFew (p : Char → Bool) (k : Place → Option β) : Repeats p k (runFew p k) where
  nil _ _ := rfl
  cons before pos c cs r h := by
    unfold runFew at h
    split at h
    next hnow => exact .inl (hnow.trans h)
    next =>
      split at h
      next hc => exact .inr ⟨hc, h⟩
      next => cases h
  isSome_cons before pos c cs h := by
    unfold runFew
    cases hnow : k ⟨before, pos, c :: cs⟩ <;> simp_all

namespace Repeats

variable {f : Option Char → Nat → List Char → Option β} {before : Option Char} {pos : Nat} {cs : List Char}

theorem spells (hf : Repeats p k f) {r : β} (h : f before pos cs = some r) :
    ∃ w, (∀ c ∈ w, p c) ∧ w <+: cs ∧ k ((⟨before, pos, cs⟩ : Place).after w) = some r := by
  induction cs generalizing before pos with
  | nil => exact ⟨[], by simp, nil_prefix, by rwa [after_nil, ← hf.nil]⟩
  | cons c cs ih =>
    rcases hf.cons _ _ _ _ _ h with hk | ⟨hc, hmore⟩
    · exact ⟨[], by simp, nil_prefix, by rwa [after_nil]⟩
    · obtain ⟨w, hw, hpre, hk⟩ := ih hmore
      exact ⟨c :: w, forall_mem_cons.mpr ⟨hc, hw⟩, cons_prefix_cons.mpr ⟨rfl, hpre⟩, by rwa [after_cons]⟩

theorem isSome (hf : Repeats p k f) {w : List Char} (hw : ∀ c ∈ w, p c) (hpre : w <+: cs)
    (hk : (k ((⟨before, pos, cs⟩ : Place).after w)).isSome) : (f before pos cs).isSome := by
  induction cs generalizing before pos w with
  | nil =>
    obtain rfl := prefix_nil.mp hpre
    rwa [after_nil, ← hf.nil] at hk
  | cons c cs ih =>
    refine hf.isSome_cons _ _ _ _ ?_
    cases w with
    | nil => exact .inl (by rwa [after_nil] at hk)
    | cons d w =>
      obtain ⟨rfl, hrest⟩ := cons_prefix_cons.mp hpre
      rw [after_cons] at hk
      exact .inr ⟨(forall_mem_cons.mp hw).1, ih (forall_mem_cons.mp hw).2 hrest hk⟩

end Repeats

end

section

variable {β : Type} {s : Place} {g : Groups} {k : Place → Groups → Option β}

/-- **A run takes a text that the pattern spells**, and its continuation succeeds after that text. -/
theorem run_spells (p : Pattern) {r : β} (h : p.run s g k = some r) :
    ∃ w h', p.Spells s w h' ∧ w <+: s.rest ∧ k (s.after w) (h' ++ g) = some r := by
  induction p generalizing s g k with
  | empty => exact ⟨[], [], ⟨rfl, rfl⟩, nil_prefix, by rwa [after_nil]⟩
  | one p =>
    obtain ⟨before, pos, rest⟩ := s
    cases rest with
    | nil => cases h
    | cons c cs =>
      simp only [run] at h
      split at h
      next hc => exact ⟨[c], [], ⟨⟨c, hc, rfl⟩, rfl⟩, ⟨cs, rfl⟩, by rwa [after_cons, after_nil]⟩
      next => cases h
  | many p =>
    obtain ⟨w, hw, hpre, hk⟩ := (repeats_runMany _ _).spells h
    exact ⟨w, [], ⟨hw, rfl⟩, hpre, hk⟩
  | few p =>
    obtain ⟨w, hw, hpre, hk⟩ := (repeats_runFew _ _).spells h
    exact ⟨w, [], ⟨hw, rfl⟩, hpre, hk⟩
  | seq a b iha ihb =>
    obtain ⟨u, h₁, hu, hpre, h⟩ := iha h
    obtain ⟨v, h₂, hv, hpre', h⟩ := ihb h
    refine ⟨u ++ v, h₂ ++ h₁, ⟨u, v, h₁, h₂, hu, hv, rfl, rfl⟩, ?_, by rwa [← after_append, append_assoc]⟩
    obtain ⟨t, ht⟩ := hpre
    rw [Place.after, ← ht, drop_left] at hpre'
    rw [← ht]
    exact (prefix_append_right_inj u).mpr hpre'
  | either a b iha ihb =>
    simp only [run] at h
    split at h
    next hrun =>
      cases h
      obtain ⟨w, h', hw, hk⟩ := iha hrun
      exact ⟨w, h', .inl hw, hk⟩
    next =>
      obtain ⟨w, h', hw, hk⟩ := ihb h
      exact ⟨w, h', .inr hw, hk⟩
  | maybe a ih =>
    simp only [run] at h
    split at h
    next hrun =>
      cases h
      obtain ⟨w, h', hw, hk⟩ := ih hrun
      exact ⟨w, h', .inl hw, hk⟩
    next => exact ⟨[], [], .inr ⟨rfl, rfl⟩, nil_prefix, by simpa using h⟩
  | group n a ih =>
    obtain ⟨w, h', hw, hpre, hk⟩ := ih h
    rw [upTo_after hpre] at hk
    exact ⟨w, (n, w) :: h', ⟨h', hw, rfl⟩, hpre, hk⟩
  | boundary =>
    simp only [run] at h
    split at h
    next hb => exact ⟨[], [], ⟨hb, rfl, rfl⟩, nil_prefix, by simpa using h⟩
    next => cases h

/-- **No text is missed**: where the continuation succeeds after a text that the pattern spells, so does the run. -/
theorem run_isSome (p : Pattern) {w : List Char} {h : Groups} (hw : p.Spells s w h) (hpre : w <+: s.rest)
    (hk : (k (s.after w) (h ++ g)).isSome) : (p.run s g k).isSome := by
  induction p generalizing s g k w h with
  | empty =>
    obtain ⟨rfl, rfl⟩ := hw
    simpa [run] using hk
  | one p =>
    obtain ⟨⟨c, hc, rfl⟩, rfl⟩ := hw
    obtain ⟨before, pos, rest⟩ := s
    obtain ⟨cs, rfl⟩ := hpre
    rw [singleton_append, after_cons, after_nil] at hk
    simpa [run, hc] using hk
  | many p =>
    obtain ⟨hw, rfl⟩ := hw
    exact (repeats_runMany _ _).isSome hw hpre hk
  | few p =>
    obtain ⟨hw, rfl⟩ := hw
    exact (repeats_runFew _ _).isSome hw hpre hk
  | seq a b iha ihb =>
    obtain ⟨u, v, h₁, h₂, hu, hv, rfl, rfl⟩ := hw
    obtain ⟨t, ht⟩ := hpre
    rw [← after_append, append_assoc] at hk
    refine iha hu ⟨v ++ t, by rw [← ht, append_assoc]⟩ (ihb hv ?_ hk)
    rw [Place.after, ← ht, append_assoc, drop_left]
    exact prefix_append v t
  | either a b iha ihb =>
    simp only [run]
    split
    · rfl
    next hnone =>
      rcases hw with hw | hw
      · have hrun := iha hw hpre hk
        rw [hnone] at hrun
        cases hrun
      · exact ihb hw hpre hk
  | maybe a ih =>
    simp only [run]
    split
    · rfl
    next hnone =>
      rcases hw with hw | ⟨rfl, rfl⟩
      · have hrun := ih hw hpre hk
        rw [hnone] at hrun
        cases hrun
      · simpa using hk
  | group n a ih =>
    obtain ⟨h', hw, rfl⟩ := hw
    refine ih hw hpre ?_
    rwa [upTo_after hpre]
  | boundary =>
    obtain ⟨hb, rfl, rfl⟩ := hw
    simpa [run, hb] using hk

end

/-! ### Words and names -/

section

variable {s : Place} {w : List Char} {g : Groups}

theorem Spells.next {a b : Pattern} {v : List Char} (ha : a.Spells s w []) (hb : b.Spells (s.after w) v g) :
    (seq a b).Spells s (w ++ v) g := ⟨w, v, [], g, ha, hb, rfl, (append_nil g).symm⟩

theorem spells_name {p q : Char → Bool} {c : Char} (hc : p c) (hw : ∀ d ∈ w, q d) :
    (name p q).Spells s (c :: w) [] := .next (w := [c]) ⟨⟨c, hc, rfl⟩, rfl⟩ ⟨hw, rfl⟩

theorem spells_chars_iff {cs : List Char} : (all (cs.map char)).Spells s w g ↔ w = cs ∧ g = [] := by
  induction cs generalizing s w g with
  | nil => rfl
  | cons c cs ih =>
    cases cs with
    | nil => simp [all, char, Spells]
    | cons d cs =>
      constructor
      · rintro ⟨_, _, _, _, ⟨⟨e, he, rfl⟩, rfl⟩, hrest, rfl, rfl⟩
        obtain ⟨rfl, rfl⟩ := ih.mp hrest
        exact ⟨congrArg (· :: _) (beq_iff_eq.mp he), rfl⟩
      · rintro ⟨rfl, rfl⟩
        exact .next (w := [c]) ⟨⟨c, beq_self_eq_true c, rfl⟩, rfl⟩ (ih.mpr ⟨rfl, rfl⟩)

theorem spells_word_iff {t : String} : (word t).Spells s w g ↔ w = t.toList ∧ g = [] := spells_chars_iff

theorem Spells.exists_mem {ts : List String} (h : (oneOf ts).Spells s w g) : ∃ t ∈ ts, w = t.toList ∧ g = [] := by
  induction ts with
  | nil =>
    obtain ⟨⟨c, hc, _⟩, _⟩ := h
    cases hc
  | cons t ts ih =>
    cases ts with
    | nil => exact ⟨t, mem_cons_self, spells_word_iff.mp h⟩
    | cons t' ts =>
      rcases h with h | h
      · exact ⟨t, mem_cons_self, spells_word_iff.mp h⟩
      · obtain ⟨t'', ht, hw⟩ := ih h
        exact ⟨t'', mem_cons_of_mem t ht, hw⟩

end

/-! ### Matches of a text -/

section

variable {p : Pattern} {m : Match} {before : Option Char} {pos : Nat} {cs : List Char}

theorem matchAt_spells {s : Place} (h : p.matchAt s = some m) :
    ∃ w, p.Spells s w m.groups ∧ w <+: s.rest ∧ m.first = s ∧ m.last = s.after w := by
  obtain ⟨w, g, hw, hpre, hm⟩ := p.run_spells h
  cases hm
  exact ⟨w, by simpa using hw, hpre, rfl, rfl⟩

theorem exists_matchAt_of_mem_findAllFrom {resume : Nat} (h : m ∈ p.findAllFrom resume before pos cs) :
    ∃ u, u <+: cs ∧ p.matchAt ((⟨before, pos, cs⟩ : Place).after u) = some m := by
  induction cs generalizing resume before pos with
  | nil => cases h
  | cons c cs ih =>
    have hlater : ∀ {resume : Nat}, m ∈ p.findAllFrom resume (some c) (pos + 1) cs →
        ∃ u, u <+: c :: cs ∧ p.matchAt ((⟨before, pos, c :: cs⟩ : Place).after u) = some m := by
      intro resume h
      obtain ⟨u, hu, hm⟩ := ih h
      exact ⟨c :: u, cons_prefix_cons.mpr ⟨rfl, hu⟩, by rwa [after_cons]⟩
    unfold findAllFrom at h
    split at h
    · exact hlater h
    · split at h
      · exact hlater h
      next hm =>
        rcases mem_cons.mp h with rfl | h
        · exact ⟨[], nil_prefix, by rwa [after_nil]⟩
        · exact hlater h

theorem exists_spells_of_mem_findAll (h : m ∈ p.findAll cs) : ∃ u w v, cs = u ++ (w ++ v) ∧
    m.first = (start cs).after u ∧ m.last = m.first.after w ∧ p.Spells m.first w m.groups := by
  obtain ⟨u, ⟨t, ht⟩, hm⟩ := exists_matchAt_of_mem_findAllFrom h
  obtain ⟨w, hw, ⟨v, hv⟩, hfirst, hlast⟩ := matchAt_spells hm
  refine ⟨u, w, v, ?_, hfirst, hfirst ▸ hlast, hfirst ▸ hw⟩
  rw [hv, ← ht, Place.after, drop_left]

theorem exists_covering {resume : Nat} {u : List Char} {c : Char} {t : List Char} (ht : cs = u ++ c :: t)
    (hresume : resume ≤ pos + u.length) (h : (p.matchAt ((⟨before, pos, cs⟩ : Place).after u)).isSome) :
    ∃ m ∈ p.findAllFrom resume before pos cs, m.first.pos ≤ pos + u.length ∧
      (m.first.pos = pos + u.length ∨ pos + u.length < m.last.pos) := by
  induction cs generalizing resume before pos u with
  | nil => simp at ht
  | cons d cs ih =>
    have hlater : ∀ resume', resume' ≤ pos + u.length → u ≠ [] → ∃ m ∈ p.findAllFrom resume' (some d) (pos + 1) cs,
        m.first.pos ≤ pos + u.length ∧ (m.first.pos = pos + u.length ∨ pos + u.length < m.last.pos) := by
      intro resume' hle hu
      obtain ⟨e, u, rfl⟩ := exists_cons_of_ne_nil hu
      obtain ⟨rfl, hrest⟩ := cons_eq_cons.mp ht
      rw [after_cons] at h
      rw [length_cons, Nat.add_comm u.length, ← Nat.add_assoc] at hle ⊢
      exact ih hrest hle h
    unfold findAllFrom
    split
    next hlt => exact hlater _ hresume (by rintro rfl; simp at hresume; omega)
    next =>
      split
      next hnone =>
        refine hlater _ hresume ?_
        rintro rfl
        rw [after_nil, hnone] at h
        cases h
      next m hm =>
        obtain ⟨w, _, _, hfirst, _⟩ := matchAt_spells hm
        have hpos : m.first.pos = pos := by rw [hfirst]
        by_cases hcover : m.first.pos = pos + u.length ∨ pos + u.length < m.last.pos
        · exact ⟨m, mem_cons_self, by omega, hcover⟩
        · obtain ⟨m', hm', hplace⟩ := hlater m.last.pos (by omega) (by rintro rfl; simp [hpos] at hcover)
          exact ⟨m', mem_cons_of_mem _ hm', hplace⟩

/-- The first match is at the first place where there is one. -/
theorem findFirstFrom_eq_some (h : p.findFirstFrom before pos cs = some m) :
    ∃ u, u <+: cs ∧ p.matchAt ((⟨before, pos, cs⟩ : Place).after u) = some m ∧
      ∀ v, v <+: cs → v.length < u.length → p.matchAt ((⟨before, pos, cs⟩ : Place).after v) = none := by
  induction cs generalizing before pos with
  | nil => cases h
  | cons c cs ih =>
    unfold findFirstFrom at h
    split at h
    next hm =>
      cases h
      exact ⟨[], nil_prefix, by rwa [after_nil], fun v _ hlt => absurd hlt (Nat.not_lt_zero _)⟩
    next hnone =>
      obtain ⟨u, hu, hm, hearlier⟩ := ih h
      refine ⟨c :: u, cons_prefix_cons.mpr ⟨rfl, hu⟩, by rwa [after_cons], fun v hv hlt => ?_⟩
      rcases prefix_cons_iff.mp hv with rfl | ⟨v, rfl, hrest⟩
      · rwa [after_nil]
      · rw [after_cons]
        exact hearlier v hrest (Nat.lt_of_succ_lt_succ hlt)

theorem matchAt_of_findFirstFrom_eq_none {u t : List Char} {c : Char} (h : p.findFirstFrom before pos cs = none)
    (ht : cs = u ++ c :: t) : p.matchAt ((⟨before, pos, cs⟩ : Place).after u) = none := by
  induction cs generalizing before pos u with
  | nil => simp at ht
  | cons d cs ih =>
    unfold findFirstFrom at h
    split at h
    · cases h
    next hnone =>
      cases u with
      | nil => rwa [after_nil]
      | cons e u =>
        obtain ⟨rfl, hrest⟩ := cons_eq_cons.mp ht
        rw [after_cons]
        exact ih h hrest

end

/-! ### Taking -/

/-- At a place, the first way to match a pattern takes a text, if what comes after it accepts that. -/
def Takes (p : Pattern) (before : Option Char) (w rest : List Char) (h : Groups) : Prop :=
  ∀ (β : Type) (k : Place → Groups → Option β) (pos : Nat) (g : Groups) (r : β),
    k ⟨w.getLast?.or before, pos + w.length, rest⟩ (h ++ g) = some r → p.run ⟨before, pos, w ++ rest⟩ g k = some r

section

variable {a b : Pattern} {p q : Char → Bool} {u v w rest : List Char} {g h : Groups} {before : Option Char}

theorem takes_one {c : Char} (hc : p c) : (one p).Takes before [c] rest [] := by
  intro β k pos g r hk
  simpa [run, hc] using hk

theorem takes_many (hw : ∀ c ∈ w, p c) (hrest : ∀ c ∈ rest.head?, p c = false) :
    (many p).Takes before w rest [] := by
  intro β k pos g r hk
  show runMany p (fun t => k t g) before pos (w ++ rest) = some r
  induction w generalizing before pos with
  | nil =>
    cases rest with
    | nil => simpa [runMany] using hk
    | cons c rest => simpa [runMany, hrest c rfl] using hk
  | cons c w ih =>
    obtain ⟨hc, hw⟩ := forall_mem_cons.mp hw
    rw [getLast?_cons, length_cons] at hk
    rw [cons_append, runMany, if_pos hc, ih hw (pos + 1)]
    simpa [Nat.add_assoc, Nat.add_comm 1, Option.or_some] using hk

theorem takes_boundary {c : Char} (hbefore : ∀ d ∈ before, isWordChar d = false) (hc : isWordChar c) :
    boundary.Takes before [] (c :: rest) [] := by
  intro β k pos g r hk
  have hplace : Place.isBoundary ⟨before, pos, c :: rest⟩ := by
    cases before <;> simp_all [Place.isBoundary]
  simpa [run, hplace] using hk

theorem Takes.seq (ha : a.Takes before u (v ++ rest) g) (hb : b.Takes (u.getLast?.or before) v rest h) :
    (seq a b).Takes before (u ++ v) rest (h ++ g) := by
  intro β k pos g' r hk
  rw [getLast?_append, Option.or_assoc, length_append, ← Nat.add_assoc, append_assoc] at hk
  rw [append_assoc]
  exact ha β _ pos g' r (hb β k _ _ r hk)

theorem Takes.next (ha : a.Takes before u (v ++ rest) []) (hb : b.Takes (u.getLast?.or before) v rest h) :
    (Pattern.seq a b).Takes before (u ++ v) rest h := by
  simpa using ha.seq hb

theorem Takes.maybe (ha : a.Takes before w rest g) : (maybe a).Takes before w rest g := by
  intro β k pos g' r hk
  simp only [run, ha β k pos g' r hk]

theorem takes_maybe_nil {c : Char} (hc : ∀ d ∈ rest.head?, d ≠ c) :
    (maybe (.seq (.seq (char c) a) b)).Takes before [] rest [] := by
  intro β k pos g r hk
  cases rest with
  | nil => simpa [run, char] using hk
  | cons d rest => simpa [run, char, hc d rfl] using hk

theorem Takes.group (n : Nat) (ha : a.Takes before w rest g) : (group n a).Takes before w rest ((n, w) :: g) := by
  intro β k pos g' r hk
  refine ha β _ pos g' r ?_
  simpa [Place.upTo] using hk

theorem takes_chars (cs rest : List Char) : (all (cs.map char)).Takes before cs rest [] := by
  induction cs generalizing before with
  | nil => exact fun β k pos g r hk => by simpa [all, run] using hk
  | cons c cs ih =>
    cases cs with
    | nil => exact takes_one (beq_self_eq_true c)
    | cons d cs => exact (takes_one (beq_self_eq_true c)).seq ih

theorem takes_name {c : Char} (hc : p c) (hw : ∀ d ∈ w, q d) (hrest : ∀ d ∈ rest.head?, q d = false) :
    (name p q).Takes before (c :: w) rest [] := (takes_one hc).seq (takes_many hw hrest)

theorem Takes.matchAt (ha : a.Takes before w rest g) (pos : Nat) : a.matchAt ⟨before, pos, w ++ rest⟩ =
    some ⟨⟨before, pos, w ++ rest⟩, ⟨w.getLast?.or before, pos + w.length, rest⟩, g⟩ :=
  ha _ _ pos [] _ (by rw [append_nil])

theorem findAllFrom_skip (a : Pattern) {resume pos : Nat} (h : pos + w.length ≤ resume) :
    a.findAllFrom resume before pos (w ++ rest) = a.findAllFrom resume (w.getLast?.or before)
      (pos + w.length) rest := by
  induction w generalizing before pos with
  | nil => rfl
  | cons c w ih =>
    rw [length_cons] at h ⊢
    rw [cons_append, findAllFrom, if_pos (by omega), ih (by omega), getLast?_cons, Nat.add_assoc, Nat.add_comm 1]
    simp [Option.or_some]

theorem splitFrom_skip (a : Pattern) (acc : List Char) {resume pos : Nat} (h : pos + w.length ≤ resume) :
    a.splitFrom acc resume before pos (w ++ rest) = a.splitFrom acc resume (w.getLast?.or before)
      (pos + w.length) rest := by
  induction w generalizing before pos with
  | nil => rfl
  | cons c w ih =>
    rw [length_cons] at h ⊢
    rw [cons_append, splitFrom, if_pos (by omega), ih (by omega), getLast?_cons, Nat.add_assoc, Nat.add_comm 1]
    simp [Option.or_some]

theorem Takes.findAllFrom (ha : a.Takes before w rest g) (hne : w ≠ []) {resume pos : Nat} (hpos : resume ≤ pos) :
    a.findAllFrom resume before pos (w ++ rest) =
      ⟨⟨before, pos, w ++ rest⟩, ⟨w.getLast?.or before, pos + w.length, rest⟩, g⟩ ::
        a.findAllFrom (pos + w.length) (w.getLast?.or before) (pos + w.length) rest := by
  have hmatch := ha.matchAt pos
  obtain ⟨c, w, rfl⟩ := exists_cons_of_ne_nil hne
  rw [cons_append] at hmatch ⊢
  rw [Pattern.findAllFrom, if_neg (by omega), hmatch]
  simp only [length_cons]
  rw [findAllFrom_skip a (by omega), getLast?_cons, Nat.add_assoc, Nat.add_comm 1]
  simp [Option.or_some]

end

/-! ### Cutting -/

/-- The pieces of a text between the matches, whatever stands before it. -/
def Cuts (p : Pattern) (s q : List Char) (qs : List (List Char)) : Prop := ∀ acc resume before pos, resume ≤ pos →
  p.splitFrom acc resume before pos s = (acc.reverse ++ q) :: qs

namespace Cuts

variable {p : Pattern} {s w q : List Char} {qs : List (List Char)}

theorem nil (p : Pattern) : p.Cuts [] [] [] := by
  intro acc resume before pos _
  simp [splitFrom]

theorem cons (h : p.Cuts s q qs) {c : Char} (hc : ∀ before pos, p.matchAt ⟨before, pos, c :: s⟩ = none) :
    p.Cuts (c :: s) (c :: q) qs := by
  intro acc resume before pos hle
  rw [splitFrom, if_neg (by omega), hc]
  simpa using h (c :: acc) resume (some c) (pos + 1) (by omega)

theorem append (h : p.Cuts s q qs) (hw : ∀ c ∈ w, ∀ t before pos, p.matchAt ⟨before, pos, c :: t⟩ = none) :
    p.Cuts (w ++ s) (w ++ q) qs := by
  induction w with
  | nil => exact h
  | cons c w ih =>
    obtain ⟨hc, hw⟩ := forall_mem_cons.mp hw
    exact (ih hw).cons (hc _)

theorem taken (h : p.Cuts s q qs) {g : Groups} (hw : ∀ before, p.Takes before w s g) (hne : w ≠ []) :
    p.Cuts (w ++ s) [] (q :: qs) := by
  intro acc resume before pos hle
  have hmatch := (hw before).matchAt pos
  obtain ⟨c, w, rfl⟩ := exists_cons_of_ne_nil hne
  rw [cons_append] at hmatch ⊢
  rw [splitFrom, if_neg (by omega), hmatch, append_nil]
  simp only [length_cons]
  rw [splitFrom_skip p [] (by omega), h [] _ _ _ (by omega)]
  rfl

theorem split_eq (h : p.Cuts s q qs) : p.split s = q :: qs := h [] 0 none 0 (Nat.le_refl 0)

end Cuts

/-! ### Texts that are always kept -/

def consumes : Pattern → Bool
  | one _ => true
  | seq a b => a.consumes || b.consumes
  | either a b => a.consumes && b.consumes
  | group _ a => a.consumes
  | _ => false

def keeps (n : Nat) : Pattern → Bool
  | seq a b => a.keeps n || b.keeps n
  | either a b => a.keeps n && b.keeps n
  | group m a => m == n || a.keeps n
  | _ => false

/-- No match keeps the empty text under the number. -/
def fills (n : Nat) : Pattern → Bool
  | seq a b => a.fills n && b.fills n
  | either a b => a.fills n && b.fills n
  | maybe a => a.fills n
  | group m a => (m != n || a.consumes) && a.fills n
  | _ => true

def avoids (c : Char) : Pattern → Bool
  | one p => !p c
  | many p => !p c
  | few p => !p c
  | seq a b => a.avoids c && b.avoids c
  | either a b => a.avoids c && b.avoids c
  | maybe a => a.avoids c
  | group _ a => a.avoids c
  | _ => true

def keepsOut (n : Nat) (c : Char) : Pattern → Bool
  | seq a b => a.keepsOut n c && b.keepsOut n c
  | either a b => a.keepsOut n c && b.keepsOut n c
  | maybe a => a.keepsOut n c
  | group m a => (m != n || a.avoids c) && a.keepsOut n c
  | _ => true

section

variable {p : Pattern} {s : Place} {w : List Char} {g : Groups} {n : Nat}

theorem Spells.ne_nil (h : p.Spells s w g) (hc : p.consumes) : w ≠ [] := by
  induction p generalizing s w g with
  | one q =>
    obtain ⟨⟨c, _, rfl⟩, _⟩ := h
    exact cons_ne_nil c []
  | seq a b iha ihb =>
    obtain ⟨u, v, _, _, hu, hv, rfl, _⟩ := h
    rcases Bool.or_eq_true_iff.mp hc with hc | hc
    · exact append_ne_nil_of_left_ne_nil (iha hu hc) v
    · exact append_ne_nil_of_right_ne_nil u (ihb hv hc)
  | either a b iha ihb =>
    obtain ⟨hca, hcb⟩ := Bool.and_eq_true_iff.mp hc
    exact h.elim (iha · hca) (ihb · hcb)
  | group m a ih =>
    obtain ⟨_, h, _⟩ := h
    exact ih h hc
  | empty | many _ | few _ | maybe _ | boundary => cases hc

theorem Spells.exists_kept (h : p.Spells s w g) (hk : p.keeps n) : ∃ e ∈ g, e.1 = n := by
  induction p generalizing s w g with
  | seq a b iha ihb =>
    obtain ⟨u, v, _, _, hu, hv, _, rfl⟩ := h
    rcases Bool.or_eq_true_iff.mp hk with hk | hk
    · obtain ⟨e, he, hn⟩ := iha hu hk
      exact ⟨e, mem_append_right _ he, hn⟩
    · obtain ⟨e, he, hn⟩ := ihb hv hk
      exact ⟨e, mem_append_left _ he, hn⟩
  | either a b iha ihb =>
    obtain ⟨hka, hkb⟩ := Bool.and_eq_true_iff.mp hk
    exact h.elim (iha · hka) (ihb · hkb)
  | group m a ih =>
    obtain ⟨_, h, rfl⟩ := h
    rcases Bool.or_eq_true_iff.mp hk with hk | hk
    · exact ⟨_, mem_cons_self, beq_iff_eq.mp hk⟩
    · obtain ⟨e, he, hn⟩ := ih h hk
      exact ⟨e, mem_cons_of_mem _ he, hn⟩
  | empty | one _ | many _ | few _ | maybe _ | boundary => cases hk

theorem Spells.filled (h : p.Spells s w g) (hf : p.fills n) : ∀ e ∈ g, e.1 = n → e.2 ≠ [] := by
  induction p generalizing s w g <;> grind [Spells, fills, Spells.ne_nil]

variable {cs : List Char} {m : Match} {c : Char}

theorem text_ne_empty (hk : p.keeps n) (hf : p.fills n) (hm : m ∈ p.findAll cs) : m.text n ≠ "" := by
  obtain ⟨_, w, _, _, _, _, hw⟩ := exists_spells_of_mem_findAll hm
  obtain ⟨e, he, hen⟩ := hw.exists_kept hk
  cases hfind : m.groups.find? (·.1 == n) with
  | none => exact absurd hen (by simpa using find?_eq_none.mp hfind e he)
  | some d =>
    have hd := hw.filled hf d (mem_of_find?_eq_some hfind) (by simpa using find?_some hfind)
    simp only [Match.text, Match.group?, hfind, Option.map_some, Option.getD_some]
    exact fun hempty => hd (String.ofList_eq_empty_iff.mp hempty)

theorem Spells.not_mem (h : p.Spells s w g) (ha : p.avoids c) : c ∉ w := by
  induction p generalizing s w g <;> grind [Spells, avoids]

theorem Spells.not_mem_kept (h : p.Spells s w g) (ho : p.keepsOut n c) : ∀ e ∈ g, e.1 = n → c ∉ e.2 := by
  induction p generalizing s w g <;> grind [Spells, keepsOut, Spells.not_mem]

theorem not_mem_text (ho : p.keepsOut n c) (hm : m ∈ p.findAll cs) : c ∉ (m.text n).toList := by
  obtain ⟨_, w, _, _, _, _, hw⟩ := exists_spells_of_mem_findAll hm
  unfold Match.text Match.group?
  cases hfind : m.groups.find? (·.1 == n) with
  | none => simp
  | some e =>
    simpa using hw.not_mem_kept ho e (mem_of_find?_eq_some hfind) (by simpa using find?_some hfind)

end

end Pattern

end CodeAtlas
