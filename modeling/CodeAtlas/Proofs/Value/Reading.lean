import CodeAtlas.Proofs.Text.Occurrence
import CodeAtlas.Value.JsonReader
import Mathlib.Data.List.Find

/-!
# What a document reads as

What the reader takes of a text does not depend on a line feed after it, and no string goes on over the end of a line.

* `Json.readPlain_append`: numbers and constants end where they cannot go on;
* `Json.Continues`, `Json.readValue_continues`: what follows from reading a value;
* **`Json.parse_append_feed`**, **`Json.not_blocked_of_parse`**: and from reading a document.
-/

namespace CodeAtlas.Json

open List Chars

variable {t u : List Char}

/-! ### Numbers and constants -/

/-- A text before which numbers and constants end. -/
def Ends (r : List Char) : Prop := ∀ c ∈ r.head?, isPlain c = false

theorem takeWhile_append_ends {r : List Char} (hr : Ends r) (t : List Char) :
    (t ++ r).takeWhile isPlain = t.takeWhile isPlain ∧ (t ++ r).dropWhile isPlain = t.dropWhile isPlain ++ r := by
  induction t with
  | nil =>
    cases r with
    | nil => exact ⟨rfl, rfl⟩
    | cons c r => simp [hr c rfl]
  | cons c t ih => cases hc : isPlain c <;> simp [hc, ih]

theorem readPlain_append {r : List Char} (hr : Ends r) {v : Value} (h : readPlain t = .ok (v, u)) :
    readPlain (t ++ r) = .ok (v, u ++ r) := by
  obtain ⟨htake, hdrop⟩ := takeWhile_append_ends hr t
  unfold readPlain at h ⊢
  rw [htake, hdrop]
  split at h
  next =>
    cases h
    rw [append_assoc]
  next => cases h

/-! ### Places that nothing can be read over -/

/-- After a backtick the line ends before there is a quote. -/
def Blocked (t : List Char) : Prop := ∃ a x y, t = a ++ '\x60' :: (x ++ '\n' :: y) ∧ '"' ∉ x

theorem blocked_of_append {w : List Char} (h : Blocked (w ++ u)) (hw : '\x60' ∉ w) : Blocked u := by
  obtain ⟨a, x, y, heq, hx⟩ := h
  rcases append_eq_append_iff.mp heq with ⟨b, rfl, hu⟩ | ⟨b, rfl, hu⟩
  · exact ⟨b, x, y, hu, hx⟩
  · cases b with
    | nil => exact ⟨[], x, y, hu.symm, hx⟩
    | cons c b =>
      obtain ⟨rfl, _⟩ := cons.inj hu
      simp at hw

/-- A text is blocked if another one is that it ends. -/
def Passes (t u : List Char) : Prop := Blocked t → Blocked u

theorem Passes.trans {r : List Char} (h : Passes t r) (h' : Passes r u) : Passes t u := h' ∘ h

theorem Passes.cons {c : Char} (hc : '\x60' ≠ c) (h : Passes t u) : Passes (c :: t) u :=
  fun hblocked => h (blocked_of_append (w := [c]) hblocked (by simpa using hc))

theorem passes_skipSpace (t : List Char) : Passes t (skipSpace t) := by
  intro hblocked
  rw [← takeWhile_append_dropWhile (p := isSpace) (l := t)] at hblocked
  exact blocked_of_append hblocked fun hmem => absurd (all_eq_true.mp all_takeWhile _ hmem) (by decide)

theorem passes_string {w : List Char} (hw : '\n' ∉ w) (u : List Char) : Passes (w ++ '"' :: u) u := by
  rintro ⟨a, x, y, heq, hx⟩
  rcases append_eq_append_iff.mp heq with ⟨b, rfl, hu⟩ | ⟨b, rfl, hu⟩
  · exact blocked_of_append (w := ['"']) ⟨b, x, y, hu, hx⟩ (by decide)
  · cases b with
    | nil => cases hu
    | cons c b =>
      -- the string would go on over the end of the line
      rcases append_eq_append_iff.mp (cons.inj hu).2 with ⟨z, rfl, hz⟩ | ⟨z, rfl, hz⟩
      all_goals
        cases z with
        | nil => cases hz
        | cons d z =>
          obtain ⟨rfl, _⟩ := cons.inj hz
          simp_all

theorem passes_plain {v : Value} (h : readPlain t = .ok (v, u)) : Passes t u := by
  intro hblocked
  unfold readPlain at h
  split at h
  next v n _ =>
    cases h
    rw [← takeWhile_append_dropWhile (p := isPlain) (l := t)] at hblocked
    obtain ⟨a, x, y, heq, hx⟩ :=
      blocked_of_append hblocked fun hmem => absurd (all_eq_true.mp all_takeWhile _ hmem) (by decide)
    exact ⟨(t.takeWhile isPlain).drop n ++ a, x, y, by rw [heq, append_assoc], hx⟩
  next => cases h

/-! ### Strings -/

theorem skipSpace_append {c : Char} (h : skipSpace t = c :: u) : skipSpace (t ++ ['\n']) = c :: (u ++ ['\n']) := by
  unfold skipSpace at h ⊢
  rw [dropWhile_append, h]
  rfl

theorem hex4?_spec {k : Nat} (h : hex4? t = some k) :
    4 ≤ t.length ∧ '\n' ∉ t.take 4 ∧ ∀ r, hex4? (t ++ r) = some k := by
  have hfeed : hexDigit? '\n' = none := rfl
  match t, h with
  | a :: b :: c :: d :: t, h =>
    refine ⟨by simp, fun hmem => ?_, fun r => h⟩
    simp only [take_succ_cons, take_zero, mem_cons, not_mem_nil, or_false] at hmem
    rcases hmem with rfl | rfl | rfl | rfl <;> simp [hex4?, hfeed] at h

/-- An escape takes no line feed, and no character after it unless an escape follows. -/
theorem unicodeEscape_spec {c : Char} {n : Nat} (h : unicodeEscape t = .ok (c, n))
    (hlong : ∀ more, t.drop n = '\\' :: 'u' :: more → ¬ more.length < 5) :
    '\n' ∉ t.take n ∧ n ≤ t.length ∧ unicodeEscape (t ++ ['\n']) = .ok (c, n) := by
  unfold unicodeEscape at h ⊢
  split at h
  next => cases h
  next k hk =>
    obtain ⟨hlength, hfeed, happend⟩ := hex4?_spec hk
    rw [happend, drop_append_of_le_length hlength]
    simp only
    split at h
    next hhigh =>
      rw [if_pos hhigh]
      split at h
      next more hmore =>
        split at h
        next hshort =>
          cases h
          exact absurd hshort (hlong more hmore)
        next =>
          split at h
          next low hlow =>
            obtain ⟨_, hfeed', happend'⟩ := hex4?_spec hlow
            rw [hmore, cons_append, cons_append]
            split at h
            · obtain ⟨rfl, rfl⟩ := Prod.mk.inj (Except.ok.inj h)
              have htake := take_add (l := t) (i := 4) (j := 6)
              have hdrop := congrArg List.length hmore
              rw [hmore] at htake
              rw [length_drop, length_cons, length_cons] at hdrop
              refine ⟨?_, by omega, by simp [*]⟩
              rw [show t.take 10 = t.take 4 ++ '\\' :: 'u' :: more.take 4 from htake]
              simp [hfeed, hfeed']
            · cases h
              exact ⟨hfeed, hlength, by simp [*]⟩
          next => cases h
      next hnot =>
        cases h
        refine ⟨hfeed, hlength, ?_⟩
        split
        next more hmore =>
          match t.drop 4, hmore, hnot with
          | [], hmore, _ => cases hmore
          | [_], hmore, _ => cases hmore
          | _ :: _ :: r, hmore, hnot =>
            cases hmore
            exact absurd rfl (hnot r)
        next => rfl
    next hhigh =>
      split at h <;> cases h <;> exact ⟨hfeed, hlength, by simp [*]⟩

theorem readChars_spec {start fuel : Nat} {acc : List Char} {k : String} (h : readChars start fuel acc t = .ok (k, u)) :
    (∃ w, t = w ++ '"' :: u ∧ '\n' ∉ w) ∧
      ∀ start' m, fuel ≤ m → readChars start' m acc (t ++ ['\n']) = .ok (k, u ++ ['\n']) := by
  induction fuel generalizing acc t with
  | zero => cases h
  | succ fuel ih =>
    -- one character is read off `w`, and the rest of the string off `t'`
    have hmore : ∀ {c : Char} {w t' : List Char}, t = w ++ t' → '\n' ∉ w →
        readChars start fuel (c :: acc) t' = .ok (k, u) →
        (∀ start' m, readChars start' (m + 1) acc (t ++ ['\n']) = readChars start' m (c :: acc) (t' ++ ['\n'])) →
        (∃ w, t = w ++ '"' :: u ∧ '\n' ∉ w) ∧
          ∀ start' m, fuel + 1 ≤ m → readChars start' m acc (t ++ ['\n']) = .ok (k, u ++ ['\n']) := by
      intro c w t' ht hw h hstep
      obtain ⟨⟨w', rfl, hw'⟩, hread⟩ := ih h
      refine ⟨⟨w ++ w', by rw [ht, append_assoc], not_mem_append hw hw'⟩, fun start' m hm => ?_⟩
      obtain ⟨m, rfl⟩ : ∃ m', m = m' + 1 := ⟨m - 1, by omega⟩
      rw [hstep, hread start' m (by omega)]
    unfold readChars at h
    split at h
    next => cases h
    next =>
      cases h
      refine ⟨⟨[], rfl, not_mem_nil⟩, fun start' m hm => ?_⟩
      obtain ⟨m, rfl⟩ : ∃ m', m = m' + 1 := ⟨m - 1, by omega⟩
      rfl
    next => cases h
    next t =>
      split at h
      next => cases h
      next hlength =>
        split at h
        next c n hescape =>
          obtain ⟨hfeed, hn, happend⟩ := unicodeEscape_spec hescape fun more hdrop hshort => by
            rw [hdrop] at h
            cases fuel <;> simp [readChars, hshort] at h
          refine hmore (w := '\\' :: 'u' :: t.take n) (by simp) (by simpa using hfeed) h fun start' m => ?_
          simp only [cons_append, readChars, happend, length_append, length_singleton,
            if_neg (show ¬ t.length + 1 < 5 by omega), drop_append_of_le_length hn]
        next => cases h
    next e t hunicode =>
      split at h
      next c hescape =>
        have he : e ≠ '\n' := by
          rintro rfl
          cases hescape
        refine hmore (w := ['\\', e]) rfl (by simpa using he.symm) h fun start' m => ?_
        simp [readChars, hescape]
      next => cases h
    next c t hquote hsingle hunicode hescape =>
      split at h
      next => cases h
      next hcontrol =>
        have hc : c ≠ '\n' := by
          rintro rfl
          exact hcontrol (by decide)
        have hbackslash : c ≠ '\\' := by
          rintro rfl
          cases t with
          | nil => exact hsingle rfl rfl
          | cons e t => exact hescape e t rfl rfl
        refine hmore (w := [c]) rfl (by simpa using hc.symm) h fun start' m => ?_
        simp [readChars, hbackslash, hcontrol]

/-! ### Reading before a line feed -/

/-- What is read does not reach over a blocked place, and is read before a line feed too. -/
def Continues {α : Type} (read read' : List Char → Reading α) : Prop :=
  ∀ t a u, read t = .ok (a, u) → Passes t u ∧ read' (t ++ ['\n']) = .ok (a, u ++ ['\n'])

namespace Continues

variable {α β : Type} {read read' : List Char → Reading α}

theorem bind (h : Continues read read') {k k' : α → List Char → Reading β} (hk : ∀ a, Continues (k a) (k' a)) :
    Continues (fun t => (read t).bind fun x => k x.1 x.2) fun t => (read' t).bind fun x => k' x.1 x.2 := by
  intro t b u hread
  cases hfirst : read t with
  | error e => simp [hfirst, Except.bind] at hread
  | ok x =>
    obtain ⟨hpasses, happend⟩ := h t x.1 x.2 hfirst
    simp only [hfirst, Except.bind] at hread
    obtain ⟨hpasses', happend'⟩ := hk x.1 x.2 b u hread
    exact ⟨hpasses' ∘ hpasses, by simp [happend, Except.bind, happend']⟩

theorem map (h : Continues read read') (f : α → β) :
    Continues (fun t => (read t).map fun x => (f x.1, x.2)) fun t => (read' t).map fun x => (f x.1, x.2) := by
  intro t b u hread
  cases hfirst : read t with
  | error e => simp [hfirst, Except.map] at hread
  | ok x =>
    obtain ⟨hpasses, happend⟩ := h t x.1 x.2 hfirst
    simp only [hfirst, Except.map] at hread
    cases hread
    exact ⟨hpasses, by simp [happend, Except.map]⟩

theorem ok (a : α) : Continues (fun t => .ok (a, t)) fun t => .ok (a, t) := by
  rintro t _ _ ⟨⟩
  exact ⟨id, rfl⟩

theorem error (e : List Char → Stop) : Continues (fun t => .error (e t)) read' := by
  rintro t _ _ ⟨⟩

theorem ite {b : Bool} {other other' : List Char → Reading α} (h : Continues read read')
    (hother : Continues other other') :
    Continues (fun t => if b then read t else other t) fun t => if b then read' t else other' t := by
  cases b
  · exact hother
  · exact h

theorem afterSpace {cause : Cause} {go go' : Char → List Char → Reading α} (h : ∀ c, Continues (go c) (go' c))
    (htick : ∀ t x, go '\x60' t ≠ .ok x) : Continues (afterSpace cause go) (afterSpace cause go') := by
  intro t a u hread
  have hpasses := passes_skipSpace t
  unfold Json.afterSpace at hread ⊢
  split at hread
  next => cases hread
  next c r hspace =>
    obtain ⟨hpasses', happend⟩ := h c r a u hread
    have hc : '\x60' ≠ c := by
      rintro rfl
      exact htick r _ hread
    rw [hspace] at hpasses
    refine ⟨.trans hpasses (.cons hc hpasses'), ?_⟩
    rw [skipSpace_append hspace]
    exact happend

theorem skip (h : Continues read read') (hnil : ∀ x, read [] ≠ .ok x) :
    Continues (fun t => read (skipSpace t)) fun t => read' (skipSpace t) := by
  intro t a u hread
  beta_reduce at hread ⊢
  obtain ⟨hpasses, happend⟩ := h _ a u hread
  refine ⟨.trans (passes_skipSpace t) hpasses, ?_⟩
  cases hspace : skipSpace t with
  | nil => exact absurd (hspace ▸ hread) (hnil _)
  | cons c r =>
    rw [hspace] at happend
    simpa [skipSpace_append hspace] using happend

end Continues

theorem readString_continues : Continues readString readString := by
  intro t k u h
  obtain ⟨⟨w, rfl, hw⟩, hread⟩ := readChars_spec h
  exact ⟨passes_string hw u, hread _ _ (by simp)⟩

variable {read read' : List Char → Reading Value}

theorem readField_continues (h : Continues read read') (hnil : ∀ x, read [] ≠ .ok x) (acc : Record) :
    Continues (readField read acc) (readField read' acc) := by
  intro t a u hread
  unfold readField at hread
  split at hread
  next t =>
    have hvalue (k : String) : Continues (readFieldValue read acc k) (readFieldValue read' acc k) :=
      .afterSpace (fun _ => .ite ((h.skip hnil).map (Record.put (.text k) · acc)) (.error _)) (by simp)
    exact (readString_continues.bind hvalue t a u hread).imp_left (.cons (by decide))
  next => cases hread

theorem readParts_nil_ne {α : Type} {close : Char} {part : α → List Char → Reading α}
    (hnil : ∀ acc x, part acc [] ≠ .ok x) (fuel : Nat) (acc : α) (x : α × List Char) :
    readParts close part fuel acc [] ≠ .ok x := by
  cases fuel with
  | zero => simp [readParts]
  | succ fuel =>
    cases hpart : part acc [] with
    | error e => simp [readParts, hpart, Except.bind]
    | ok y => exact absurd hpart (hnil acc y)

section

variable {α : Type} {close : Char} {part part' : α → List Char → Reading α}
  (hclose : close ≠ '\x60') (h : ∀ acc, Continues (part acc) (part' acc)) (hnil : ∀ acc x, part acc [] ≠ .ok x)

include hclose h hnil

theorem readParts_continues {fuel m : Nat} (hm : fuel ≤ m) (acc : α) :
    Continues (readParts close part fuel acc) (readParts close part' m acc) := by
  induction fuel generalizing acc m with
  | zero => exact .error _
  | succ fuel ih =>
    obtain ⟨m, rfl⟩ : ∃ m', m = m' + 1 := ⟨m - 1, by omega⟩
    have hmore (acc : α) :
        Continues (readMore close (readParts close part fuel) acc) (readMore close (readParts close part' m) acc) :=
      .afterSpace
        (fun c => .ite (.ok acc) (.ite ((ih (by omega) acc).skip (readParts_nil_ne hnil fuel acc)) (.error _)))
        (by simp [hclose.symm])
    exact (h acc).bind hmore

theorem readBracketed_continues (none : α) :
    Continues (readBracketed close part none) (readBracketed close part' none) := by
  intro t a u hread
  unfold readBracketed at hread ⊢
  have hpasses := passes_skipSpace t
  cases hspace : skipSpace t with
  | nil => simp [hspace, readParts_nil_ne hnil] at hread
  | cons c r =>
    simp only [hspace, head?_cons, drop_one, tail_cons] at hpasses hread
    simp only [skipSpace_append hspace, head?_cons, drop_one, tail_cons]
    by_cases hc : some c == some close
    · rw [if_pos hc] at hread ⊢
      cases hread
      have hc' : c = close := by simpa using hc
      exact ⟨.trans hpasses (.cons (hc' ▸ hclose.symm) id), rfl⟩
    · rw [if_neg hc] at hread ⊢
      rw [length_append]
      exact (readParts_continues hclose h hnil (Nat.le_succ _) none _ a u hread).imp_left (.trans hpasses)

end

theorem readValue_nil_ne (d : Nat) (x : Value × List Char) : readValue d [] ≠ .ok x := by
  cases d <;> simp [readValue, show readPlain [] = .error ⟨.expectingValue, 0⟩ from rfl]

theorem readItem_nil_ne (d : Nat) (acc : List Value) (x : List Value × List Char) :
    readItem (readValue d) acc [] ≠ .ok x := by
  cases d <;> simp [readItem, readValue, show readPlain [] = .error ⟨.expectingValue, 0⟩ from rfl, Except.map]

theorem readValue_continues {d d' : Nat} (hd : d ≤ d') : Continues (readValue d) (readValue d') := by
  induction d generalizing d' with
  | zero => exact .error _
  | succ d ih =>
    obtain ⟨d', rfl⟩ : ∃ m, d' = m + 1 := ⟨d' - 1, by omega⟩
    have hvalue := ih (Nat.le_of_succ_le_succ hd)
    intro t v u h
    unfold readValue at h
    split at h
    next t => exact ((readString_continues.map _) t v u h).imp_left (.cons (by decide))
    next t =>
      have hrecord := (readBracketed_continues (by decide : '\x7d' ≠ '\x60')
        (readField_continues hvalue (readValue_nil_ne d)) (by simp [readField]) []).map Value.record
      exact (hrecord t v u h).imp_left (.cons (by decide))
    next t =>
      have hlist := (readBracketed_continues (by decide : ']' ≠ '\x60') (fun acc => hvalue.map (· :: acc))
        (readItem_nil_ne d) []).map (Value.list ·.reverse)
      exact (hlist t v u h).imp_left (.cons (by decide))
    next h₁ h₂ h₃ =>
      refine ⟨passes_plain h, ?_⟩
      have happend := readPlain_append (r := ['\n']) (fun c hc => by cases hc; decide) h
      cases t with
      | nil => cases h
      | cons c t => simp_all [readValue]

/-! ### Documents -/

theorem parse_eq_ok_iff {doc : String} {v : Value} : parse doc = .ok v ↔
    doc.toList.head? ≠ some (Char.ofNat 0xFEFF) ∧
      ∃ u, readValue (doc.toList.length + 1) (skipSpace doc.toList) = .ok (v, u) ∧ skipSpace u = [] := by
  unfold parse
  dsimp only
  split
  next hmark => simp_all
  next hmark =>
    split
    next e hread => simp_all
    next w u hread =>
      split <;> simp_all

theorem parse_append_feed {doc : String} {v : Value} (h : parse doc = .ok v) : parse (doc ++ "\n") = .ok v := by
  obtain ⟨hmark, u, hread, hu⟩ := parse_eq_ok_iff.mp h
  have hcont := (readValue_continues (Nat.le_succ (doc.toList.length + 1))).skip (readValue_nil_ne _) _ _ _ hread
  refine parse_eq_ok_iff.mpr ⟨?_, u ++ ['\n'], ?_, ?_⟩
  · cases hdoc : doc.toList with
    | nil => simp [hdoc]
    | cons c t => simpa [hdoc] using hmark
  · simpa using hcont.2
  · unfold skipSpace at hu ⊢
    rw [dropWhile_append, hu]
    rfl

theorem not_blocked_of_parse {doc : String} {v : Value} (h : parse doc = .ok v) : ¬ Blocked doc.toList := by
  intro hblocked
  obtain ⟨-, u, hread, hu⟩ := parse_eq_ok_iff.mp h
  have hcont := (readValue_continues (Nat.le_refl _)).skip (readValue_nil_ne _) _ _ _ hread
  obtain ⟨a, x, y, heq, -⟩ := passes_skipSpace u (hcont.1 hblocked)
  rw [hu] at heq
  simp at heq

end CodeAtlas.Json
