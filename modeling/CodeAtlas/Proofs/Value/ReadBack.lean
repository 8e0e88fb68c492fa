import CodeAtlas.Proofs.Value.Loose
import CodeAtlas.Proofs.Value.Reading
import CodeAtlas.Value.JsonWriter

/-!
# Documents that are read back

A value that is written as a document is read back from it, whether it stands on one line or on several, as long as its
atoms are no fractions and its records have every key once.  Characters that would end a string are escaped, and the
reader takes each escape for the character it stands for.

* `Json.readString_stringChar`: a string is read as it was written;
* `Json.readPlain_int`: and an integer;
* `Json.readBracketed_flatMap`: and what is in brackets, if each part is;
* **`Json.parse_write`**: reading after writing.
-/

namespace CodeAtlas.Json

open List

/-! ### Strings -/

theorem length_le_flatMap {α β : Type} {f : α → List β} (h : ∀ a, f a ≠ []) (l : List α) :
    l.length ≤ (l.flatMap f).length := by
  induction l with
  | nil => exact Nat.le_refl 0
  | cons a l ih =>
    have hpos := length_pos_iff.mpr (h a)
    rw [flatMap_cons, length_append, length_cons]
    omega

theorem hexText_succ (w n : Nat) : hexText (w + 2) n = hexText (w + 1) (n / 16) ++ [Nat.digitChar (n % 16)] := by
  have hrec := Nat.toDigits_eq_if (b := 16) (n := n) (by decide)
  by_cases hn : n < 16
  · rw [if_pos hn] at hrec
    simp [hexText, hrec, Nat.div_eq_of_lt hn, Nat.mod_eq_of_lt hn, show Nat.toDigits 16 0 = ['0'] from rfl,
      ← replicate_succ']
  · rw [if_neg hn] at hrec
    simp [hexText, hrec]

theorem exists_hexText {n : Nat} (hn : n < 0x10000) :
    ∃ a b c d, hexText 4 n = [a, b, c, d] ∧ ∀ t, hex4? (a :: b :: c :: d :: t) = some n := by
  have hdigit : ∀ k < 16, hexDigit? (Nat.digitChar k) = some k := by decide
  have htext : hexText 4 n = [n / 16 / 16 / 16, n / 16 / 16 % 16, n / 16 % 16, n % 16].map Nat.digitChar := by
    rw [hexText_succ, hexText_succ, hexText_succ, hexText, Nat.toDigits_of_lt_base (by omega)]
    rfl
  refine ⟨_, _, _, _, htext, fun t => ?_⟩
  rw [hex4?, hdigit (n / 16 / 16 / 16) (by omega), hdigit (n / 16 / 16 % 16) (by omega),
    hdigit (n / 16 % 16) (by omega), hdigit (n % 16) (by omega)]
  exact congrArg some (by omega)

section

variable (start fuel : Nat) (acc : List Char) {tail : List Char} (htail : tail ≠ [])

include htail

theorem readChars_unicode {n : Nat} (hn : n < 0x10000) (hhalf : ¬ (0xD800 ≤ n ∧ n ≤ 0xDFFF)) :
    readChars start (fuel + 1) acc (unicodeText n ++ tail) = readChars start fuel (Char.ofNat n :: acc) tail := by
  obtain ⟨a, b, c, d, htext, hread⟩ := exists_hexText hn
  have hlength := length_pos_iff.mpr htail
  simp [readChars, unicodeText, htext, unicodeEscape, hread, show ¬ tail.length + 1 + 1 + 1 + 1 < 5 by omega,
    show ¬ (0xD800 ≤ n ∧ n ≤ 0xDBFF) by omega, show ¬ (0xDC00 ≤ n ∧ n ≤ 0xDFFF) by omega]

theorem readChars_halves {n : Nat} (hn : n < 0x100000) :
    readChars start (fuel + 1) acc (unicodeText (0xD800 + n / 0x400) ++ unicodeText (0xDC00 + n % 0x400) ++ tail) =
      readChars start fuel (Char.ofNat (0x10000 + n) :: acc) tail := by
  obtain ⟨a, b, c, d, htext, hread⟩ := exists_hexText (n := 0xD800 + n / 0x400) (by omega)
  obtain ⟨a', b', c', d', htext', hread'⟩ := exists_hexText (n := 0xDC00 + n % 0x400) (by omega)
  have hlength := length_pos_iff.mpr htail
  have hjoin : joinHalves (0xD800 + n / 0x400) (0xDC00 + n % 0x400) = Char.ofNat (0x10000 + n) := by
    exact congrArg Char.ofNat (by omega)
  simp [readChars, unicodeText, htext, htext', unicodeEscape, hread, hread', hjoin,
    show ¬ tail.length + 1 + 1 + 1 + 1 + 1 + 1 + 1 + 1 + 1 + 1 < 5 by omega,
      show ¬ tail.length + 1 + 1 + 1 + 1 < 5 by omega,
    show 0xD800 + n / 0x400 ≤ 0xDBFF by omega, show 0xDC00 + n % 0x400 ≤ 0xDFFF by omega]

theorem readChars_stringChar (ascii : Bool) (c : Char) :
    readChars start (fuel + 1) acc (stringChar ascii c ++ tail) = readChars start fuel (c :: acc) tail := by
  have hvalid : c.toNat < 0xD800 ∨ 0xDFFF < c.toNat ∧ c.toNat < 0x110000 := c.valid
  unfold stringChar
  by_cases hspecial : c ∈ ['"', '\\', '\n', '\r', '\t', '\x0c', '\x08']
  · simp only [mem_cons, not_mem_nil, or_false] at hspecial
    rcases hspecial with rfl | rfl | rfl | rfl | rfl | rfl | rfl <;> simp [readChars, escape?]
  · simp only [mem_cons, not_mem_nil, or_false, not_or] at hspecial
    simp only [beq_iff_eq, hspecial, if_false]
    split
    next hcontrol => rw [readChars_unicode start fuel acc htail (by omega) (by omega), Char.ofNat_toNat]
    next hcontrol =>
      split
      next =>
        split
        next hn => rw [readChars_unicode start fuel acc htail hn (by omega), Char.ofNat_toNat]
        next hn =>
          rw [readChars_halves start fuel acc htail (by omega), Nat.add_sub_cancel' (by omega), Char.ofNat_toNat]
      next => simp [readChars, hspecial, hcontrol]

end

theorem readChars_flatMap (start : Nat) (ascii : Bool) (s r : List Char) {fuel : Nat} (hfuel : s.length < fuel)
    (acc : List Char) : readChars start fuel acc (s.flatMap (stringChar ascii) ++ '"' :: r) =
      .ok (String.ofList (acc.reverse ++ s), r) := by
  induction s generalizing fuel acc with
  | nil =>
    obtain ⟨k, rfl⟩ : ∃ k, fuel = k + 1 := ⟨fuel - 1, by omega⟩
    simp [readChars]
  | cons c s ih =>
    obtain ⟨k, rfl⟩ : ∃ k, fuel = k + 1 := ⟨fuel - 1, by omega⟩
    rw [flatMap_cons, append_assoc, readChars_stringChar start k acc (by simp), ih (by simpa using hfuel)]
    simp

theorem toList_stringText (ascii : Bool) (s : String) :
    (stringText ascii s).toList = '"' :: (s.toList.flatMap (stringChar ascii) ++ ['"']) := by
  simp [stringText]

theorem stringChar_ne_nil (ascii : Bool) (c : Char) : stringChar ascii c ≠ [] := by
  unfold stringChar
  repeat' split
  all_goals exact cons_ne_nil _ _

theorem readString_stringChar (ascii : Bool) (s : String) (r : List Char) :
    readString (s.toList.flatMap (stringChar ascii) ++ '"' :: r) = .ok (s, r) := by
  have hlength := length_le_flatMap (stringChar_ne_nil ascii) s.toList
  rw [readString, readChars_flatMap _ _ _ _ (by rw [length_append]; omega)]
  simp

/-! ### Integers -/

theorem eq_nil_of_toDigits {n : Nat} {t : List Char} (h : Nat.toDigits 10 n = '0' :: t) : t = [] := by
  induction n using Nat.base_induction 10 (by decide) generalizing t with
  | single m hm =>
    rw [Nat.toDigits_of_lt_base hm] at h
    exact (cons.inj h).2.symm
  | digit m k hk hm ih =>
    rw [← Nat.toDigits_append_toDigits (by decide) hm hk] at h
    cases hfirst : Nat.toDigits 10 m with
    | nil => exact absurd hfirst Nat.toDigits_ne_nil
    | cons c r =>
      rw [hfirst] at h
      obtain ⟨rfl, -⟩ := cons.inj h
      have hvalue := Nat.ofDigitChars_ten_toDigits (n := m)
      rw [hfirst, ih hfirst] at hvalue
      exact absurd hvalue (Nat.ne_of_lt hm)

theorem isDigit_of_mem_toDigits {n : Nat} {c : Char} (h : c ∈ Nat.toDigits 10 n) : isDigit c :=
  Nat.isDigit_of_mem_toDigits (by decide) (by decide) h

theorem unsigned?_toDigits (neg : Bool) (n : Nat) : unsigned? neg (Nat.toDigits 10 n) =
    some (.int (if neg then -n else n), (Nat.toDigits 10 n).length) := by
  have hall : (Nat.toDigits 10 n).takeWhile isDigit = Nat.toDigits 10 n :=
    takeWhile_eq_self_iff.mpr fun c hc => isDigit_of_mem_toDigits hc
  have hwhole : wholePart (Nat.toDigits 10 n) = Nat.toDigits 10 n := by
    unfold wholePart
    split
    next t heq => rw [heq, eq_nil_of_toDigits heq]
    next => exact hall
  have hdecimal : decimal (Nat.toDigits 10 n) = n := by
    have hvalue := Nat.ofDigitChars_ten_toDigits (n := n)
    simp only [Nat.ofDigitChars_eq_foldl, Nat.mul_comm] at hvalue
    exact hvalue
  simp [unsigned?, hwhole, hdecimal, fractionPart, mantissaSize, exponentPart?]

theorem plain?_toDigits (neg : Bool) (n : Nat) : plain? ((if neg then ['-'] else []) ++ Nat.toDigits 10 n) =
    some (.int (if neg then -n else n), (if neg then 1 else 0) + (Nat.toDigits 10 n).length) := by
  have hread := unsigned?_toDigits neg n
  cases hdigits : Nat.toDigits 10 n with
  | nil => exact absurd hdigits Nat.toDigits_ne_nil
  | cons c t =>
    rw [hdigits] at hread
    have hc : ∀ d ∈ ['n', 't', 'f', 'N', 'I', '-'], d ≠ c := by
      have hnot : ∀ d ∈ ['n', 't', 'f', 'N', 'I', '-'], ¬ isDigit d := by decide
      rintro d hd rfl
      exact hnot d hd (isDigit_of_mem_toDigits (hdigits ▸ mem_cons_self))
    simp only [mem_cons, not_mem_nil, or_false, forall_eq_or_imp, forall_eq] at hc
    have hconstants (k : List Char × Value) (hk : k ∈ constants) :
        k.1.isPrefixOf ((if neg then ['-'] else []) ++ c :: t) = false := by
      simp only [constants, mem_cons, not_mem_nil, or_false] at hk
      cases neg <;> rcases hk with rfl | rfl | rfl | rfl | rfl | rfl <;> simp [isPrefixOf, hc]
    have hnone : constants.find? (fun k => k.1.isPrefixOf ((if neg then ['-'] else []) ++ c :: t)) = none :=
      find?_eq_none.mpr fun k hk => by simp [hconstants k hk]
    rw [plain?, hnone]
    cases neg
    · simpa [number?, hc.2.2.2.2.2.symm] using hread
    · simp [number?, hread, Nat.add_comm]

theorem readPlain_int (n : Int) : readPlain (toString n).toList = .ok (.int n, []) := by
  have hword (neg : Bool) (m : Nat) (c : Char) (hc : c ∈ (if neg then ['-'] else []) ++ Nat.toDigits 10 m) :
      isPlain c = true := by
    rcases mem_append.mp hc with hc | hc
    · cases neg <;> simp_all [isPlain, constants]
    · simp [isPlain, isDigit_of_mem_toDigits hc]
  have hread (neg : Bool) (m : Nat) : readPlain ((if neg then ['-'] else []) ++ Nat.toDigits 10 m) =
      .ok (.int (if neg then -m else m), []) := by
    rw [readPlain, takeWhile_eq_self_iff.mpr (hword neg m), plain?_toDigits, dropWhile_eq_nil_iff.mpr (hword neg m)]
    cases neg <;> simp [Nat.add_comm]
  rw [Int.toString_eq_repr, Int.repr_eq_if]
  split
  next hn => simpa [Int.toNat_of_nonneg hn] using hread false n.toNat
  next hn =>
    have hread := hread true (-n).toNat
    rw [Int.toNat_of_nonneg (by omega)] at hread
    simpa using hread

/-! ### Parts in brackets -/

def Blank (b : List Char) : Prop := ∀ c ∈ b, isSpace c = true

def Marks (d : Char) (s : String) : Prop := ∃ b, s.toList = d :: b ∧ Blank b

/-- A layout that keeps the order of fields and has only white space after its marks. -/
structure Style.IsReadable (style : Style) : Prop where
  comma : Marks ',' style.comma
  colon : Marks ':' style.colon
  unsorted : style.sorted = false

variable {b b' t : List Char} {c : Char}

theorem skipSpace_self (hc : isSpace c = false) (t : List Char) : skipSpace (c :: t) = c :: t :=
  dropWhile_cons_of_neg (by simp [hc])

theorem skipSpace_blank (hb : Blank b) (hc : isSpace c = false) (t : List Char) : skipSpace (b ++ c :: t) = c :: t := by
  rw [skipSpace, dropWhile_append_of_pos hb]
  exact skipSpace_self hc t

theorem ends_of_blank (hb : Blank b) (hc : isPlain c = false) (t : List Char) : Ends (b ++ c :: t) := by
  intro d hd
  cases b with
  | nil =>
    cases hd
    exact hc
  | cons e b =>
    cases hd
    have he : isSpace d := hb d mem_cons_self
    simp only [isSpace, Bool.or_eq_true, beq_iff_eq] at he
    rcases he with ((rfl | rfl) | rfl) | rfl <;> decide

theorem blank_lineStart (style : Style) (n : Nat) : Blank (lineStart style n).toList := by
  intro c hc
  unfold lineStart at hc
  split at hc
  next => simp at hc
  next w _ =>
    have hc : c = '\n' ∨ c ∈ List.replicate (w * n) ' ' := by simpa using hc
    rcases hc with rfl | hc
    · rfl
    · rw [eq_of_mem_replicate hc]
      rfl

theorem Style.IsReadable.between {style : Style} (h : style.IsReadable) (n : Nat) : Marks ',' (between style n) := by
  unfold Json.between
  split
  next => exact h.comma
  next => exact ⟨_, String.toList_append, blank_lineStart style n⟩

section

variable {α β : Type} {close : Char} {part : α → List Char → Reading α} {step : α → β → α} {w : β → List Char}
  {x : β} {xs : List β}

theorem readParts_flatMap (hclose : close ∈ ['\x7d', ']'])
    (hread : ∀ y ∈ x :: xs, ∀ acc r, Ends r → part acc (w y ++ r) = .ok (step acc y, r))
    (hopen : ∀ y ∈ x :: xs, ∃ c t, w y = c :: t ∧ isSpace c = false) (hb : Blank b) (hb' : Blank b') {fuel : Nat}
    (hfuel : xs.length < fuel) (acc : α) (r : List Char) :
    readParts close part fuel acc (w x ++ (xs.flatMap (fun y => ',' :: (b ++ w y)) ++ (b' ++ close :: r))) =
      .ok ((x :: xs).foldl step acc, r) := by
  have hmarks : ∀ c ∈ ['\x7d', ']'], isSpace c = false ∧ isPlain c = false ∧ ',' ≠ c := by decide
  obtain ⟨hspace, hends, hcomma⟩ := hmarks close hclose
  induction xs generalizing x acc fuel with
  | nil =>
    obtain ⟨k, rfl⟩ : ∃ k, fuel = k + 1 := ⟨fuel - 1, by omega⟩
    simp [readParts, hread x mem_cons_self acc _ (ends_of_blank hb' hends r), Except.bind, readMore, afterSpace,
      skipSpace_blank hb' hspace]
  | cons y ys ih =>
    obtain ⟨k, rfl⟩ : ∃ k, fuel = k + 1 := ⟨fuel - 1, by omega⟩
    obtain ⟨c, t, htext, hc⟩ := hopen y (by simp)
    have hrest := ih (x := y) (fun z hz => hread z (mem_cons_of_mem x hz)) (fun z hz => hopen z (mem_cons_of_mem x hz))
      (Nat.lt_of_succ_lt_succ hfuel) (step acc x)
    have hskip := skipSpace_blank hb hc (t ++ (ys.flatMap (fun y => ',' :: (b ++ w y)) ++ (b' ++ close :: r)))
    rw [← cons_append, ← htext] at hskip
    rw [flatMap_cons, append_assoc, cons_append, append_assoc, readParts,
      hread x mem_cons_self acc _ (by intro d hd; cases hd; decide)]
    simp [Except.bind, readMore, afterSpace, skipSpace_self (c := ',') rfl, hcomma, hskip, hrest]

theorem intercalate_cons (sep p : List Char) (ps : List (List Char)) :
    sep.intercalate (p :: ps) = p ++ ps.flatMap (sep ++ ·) := by
  induction ps generalizing p with
  | nil => simp
  | cons q ps ih => simp [intercalate_cons_cons, ih]

def inBrackets (style : Style) (n : Nat) (close : Char) (w : β → List Char) (xs : List β) : List Char :=
  if xs.isEmpty then [close]
  else (lineStart style (n + 1)).toList ++ ((between style (n + 1)).toList.intercalate (xs.map w) ++
    ((lineStart style n).toList ++ [close]))

theorem inBrackets_cons (style : Style) (n : Nat) (close : Char) (w : β → List Char) (x : β) (xs : List β) :
    inBrackets style n close w (x :: xs) = (lineStart style (n + 1)).toList ++ (w x ++
      (xs.flatMap (fun y => (between style (n + 1)).toList ++ w y) ++ ((lineStart style n).toList ++ [close]))) := by
  simp [inBrackets, intercalate_cons, flatMap_map]

theorem length_lt_inBrackets (style : Style) (n : Nat) (close : Char) (w : β → List Char) {y : β} (hy : y ∈ xs) :
    (w y).length < (inBrackets style n close w xs).length := by
  cases xs with
  | nil => cases hy
  | cons x xs =>
    simp only [inBrackets_cons, length_append, length_singleton]
    rcases mem_cons.mp hy with rfl | hy
    · omega
    · have hpart :=
          (sublist_flatten_of_mem (mem_map_of_mem (f := fun y => (between style (n + 1)).toList ++ w y) hy)).length_le
      rw [← flatMap_def, length_append] at hpart
      omega

theorem readBracketed_inBrackets {style : Style} (hstyle : style.IsReadable) (n : Nat) (hclose : close ∈ ['\x7d', ']'])
    (hread : ∀ y ∈ xs, ∀ acc r, Ends r → part acc (w y ++ r) = .ok (step acc y, r))
    (hopen : ∀ y ∈ xs, ∃ c t, w y = c :: t ∧ isSpace c = false ∧ c ≠ close) (none : α) (r : List Char) :
    readBracketed close part none (inBrackets style n close w xs ++ r) = .ok (xs.foldl step none, r) := by
  cases xs with
  | nil =>
    have hspace : ∀ c ∈ ['\x7d', ']'], isSpace c = false := by decide
    simp [inBrackets, readBracketed, skipSpace_self (hspace close hclose)]
  | cons x xs =>
    obtain ⟨b, hcomma, hb⟩ := hstyle.between (n + 1)
    obtain ⟨c, t, htext, hc, hne⟩ := hopen x mem_cons_self
    have hparts {fuel : Nat} (hfuel : xs.length < fuel) := readParts_flatMap hclose hread
      (fun y hy => (hopen y hy).imp fun c => Exists.imp fun t h => ⟨h.1, h.2.1⟩) hb
      (blank_lineStart style n) hfuel none r
    have hlength := length_le_flatMap (fun y => cons_ne_nil ',' (b ++ w y)) xs
    simp only [inBrackets_cons, hcomma, htext, cons_append, append_assoc, nil_append] at hparts ⊢
    rw [readBracketed, skipSpace_blank (blank_lineStart style (n + 1)) hc, if_neg (by simpa using hne)]
    refine hparts ?_
    simp only [length_append, length_cons] at hlength ⊢
    omega

end

theorem foldl_put {acc fs : List (String × Value)} (h : ((acc ++ fs).map (·.1)).Nodup) :
    fs.foldl (fun r f => Record.put (.text f.1) f.2 r) (acc.map fun f => (.text f.1, f.2)) =
      (acc ++ fs).map fun f => (.text f.1, f.2) := by
  have hput {f : String × Value} : ∀ {acc : List (String × Value)}, f.1 ∉ acc.map (·.1) →
      Record.put (.text f.1) f.2 (acc.map fun f => (.text f.1, f.2)) = (acc ++ [f]).map fun f => (.text f.1, f.2) := by
    intro acc hf
    induction acc with
    | nil => rfl
    | cons g acc ih =>
      rw [map_cons, mem_cons, not_or] at hf
      rw [map_cons, Record.put, if_neg, ih hf.2]
      · rfl
      · rw [Atom.same_text_iff, Atom.text.injEq]
        exact fun heq => hf.1 heq.symm
  induction fs generalizing acc with
  | nil => rw [append_nil, foldl_nil]
  | cons f fs ih =>
    have hf : f.1 ∉ acc.map (·.1) := by
      rw [map_append, nodup_append] at h
      exact fun hmem => h.2.2 _ hmem _ (by simp) rfl
    rw [foldl_cons, hput hf, ih (by simpa using h), append_assoc]
    rfl

/-! ### Values -/

/-- A value without fractions, whose records have texts as keys and every key once. -/
inductive IsJson : Value → Prop where
  | atom (a : Atom) (whole : ∀ x, a ≠ .float x) : IsJson (.atom a)
  | list (xs : List Value) (items : ∀ x ∈ xs, IsJson x) : IsJson (.list xs)
  | record (fs : List (String × Value)) (keys : (fs.map (·.1)).Nodup) (fields : ∀ f ∈ fs, IsJson f.2) :
    IsJson (.ofFields fs)

theorem IsJson.text (s : String) : IsJson (.text s) := .atom _ nofun

def ascending (fs : List (String × Value)) : List (String × Value) := fs.mergeSort fun f g => f.1 ≤ g.1

def Style.order (style : Style) (fs : List (String × Value)) : List (String × Value) :=
  if style.sorted then ascending fs else fs

def written (style : Style) (n : Nat) (v : Value) : List Char := (writeAt style n v).toList

def writtenField (style : Style) (n : Nat) (f : String × Value) : List Char :=
  (stringText style.ascii f.1).toList ++ (style.colon.toList ++ written style n f.2)

theorem written_list (style : Style) (n : Nat) (xs : List Value) :
    written style n (.list xs) = '[' :: inBrackets style n ']' (written style (n + 1)) xs := by
  have hitems (ys : List Value) : (writeItems style (n + 1) ys).toList =
      ys.flatMap fun y => (between style (n + 1)).toList ++ written style (n + 1) y := by
    induction ys with
    | nil => simp [writeItems]
    | cons y ys ih => simp [writeItems, ih, written]
  cases xs with
  | nil => simp [written, writeAt, inBrackets]
  | cons x xs => simp [written, writeAt, inBrackets_cons, hitems]

theorem exists_cons_of_plain {w : List Char} {x : Value × List Char} (h : readPlain w = .ok x) :
    ∃ c t, w = c :: t ∧ isPlain c := by
  cases w with
  | nil => cases h
  | cons c t =>
    refine ⟨c, t, rfl, ?_⟩
    cases hc : isPlain c with
    | true => rfl
    | false => simp [readPlain, hc, show plain? [] = none from rfl] at h

theorem readPlain_atomText (style : Style) {a : Atom} (hfloat : ∀ x, a ≠ .float x) (htext : ∀ s, a ≠ .text s) :
    readPlain (atomText style.ascii a).toList = .ok (.atom a, []) := by
  cases a with
  | null =>
    simp only [atomText, String.reduceToList]
    rfl
  | bool b => cases b <;> simp only [atomText] <;> rfl
  | int n => exact readPlain_int n
  | float x => exact absurd rfl (hfloat x)
  | text s => exact absurd rfl (htext s)

theorem written_record (style : Style) (n : Nat) (fs : List (String × Value)) : written style n (.ofFields fs) =
    '\x7b' :: inBrackets style n '\x7d' (writtenField style (n + 1)) (style.order fs) := by
  let field (g : String × Value) : String := keyText style.ascii (.text g.1) ++ style.colon ++ writeAt style (n + 1) g.2
  have htexts (gs : List (String × Value)) : fieldTexts style (n + 1) (gs.map fun g => (.text g.1, g.2)) =
      gs.map fun g => (.text g.1, field g) := by
    induction gs with
    | nil => rfl
    | cons g gs ih => rw [map_cons, fieldTexts, ih, map_cons]
  have hordered : (if style.sorted then (fieldTexts style (n + 1) (fs.map fun g => (.text g.1, g.2))).mergeSort
      fun a b => keyLe (a.1, .null) (b.1, .null) else fieldTexts style (n + 1) (fs.map fun g => (.text g.1, g.2))) =
      (style.order fs).map fun g => (.text g.1, field g) := by
    unfold Style.order
    split
    · rw [htexts, ascending, map_mergeSort]
      exact fun _ _ _ _ => rfl
    · exact htexts fs
  have hfield : (String.toList ∘ Prod.snd ∘ fun g => (Atom.text g.1, field g)) = writtenField style (n + 1) := by
    funext g
    simp [field, keyText, writtenField, written]
  cases fs with
  | nil => simp [written, Value.ofFields, writeAt, Style.order, ascending, inBrackets]
  | cons f fs =>
    have hne : (style.order (f :: fs)).isEmpty = false := by
      unfold Style.order
      split
      · exact isEmpty_eq_false_iff.mpr (ne_nil_of_length_pos (by simp [ascending]))
      · rfl
    rw [map_cons] at hordered
    simp [written, Value.ofFields, writeAt, hordered, hne, String.toList_intercalate, hfield, inBrackets]

theorem exists_written_cons {v : Value} (h : IsJson v) (style : Style) (n : Nat) :
    ∃ c t, written style n v = c :: t ∧ isSpace c = false ∧ c ∉ ['\x7d', ']', Char.ofNat 0xFEFF] := by
  cases h with
  | atom a whole =>
    by_cases htext : ∃ s, a = .text s
    · obtain ⟨s, rfl⟩ := htext
      exact ⟨'"', _, toList_stringText _ s, by decide, by decide⟩
    · obtain ⟨c, t, hcons, hc⟩ := exists_cons_of_plain (readPlain_atomText style whole (not_exists.mp htext))
      refine ⟨c, t, hcons, Bool.eq_false_iff.mpr fun hspace => ?_, fun hmem => ?_⟩
      · simp only [isSpace, Bool.or_eq_true, beq_iff_eq] at hspace
        rcases hspace with ((rfl | rfl) | rfl) | rfl <;> cases hc
      · simp only [mem_cons, not_mem_nil, or_false] at hmem
        rcases hmem with rfl | rfl | rfl <;> cases hc
  | list xs _ => exact ⟨'[', _, written_list _ n xs, by decide, by decide⟩
  | record fs _ _ => exact ⟨'\x7b', _, written_record style n fs, by decide, by decide⟩

/-- A value is read back from what is written for it, at any depth and before any text that ends it. -/
def ReadsBack (style : Style) (v : Value) : Prop :=
  ∀ n d r, (written style n v).length ≤ d → Ends r → readValue d (written style n v ++ r) = .ok (v, r)

section

variable {style : Style} {v : Value} {d : Nat} {r : List Char}

theorem readsBack_plain {a : Atom} (h : readPlain (atomText style.ascii a).toList = .ok (.atom a, [])) :
    ReadsBack style (.atom a) := by
  intro n d r hd hr
  have hread := readPlain_append hr h
  rw [written, writeAt] at hd ⊢
  obtain ⟨c, w, htext, hc⟩ := exists_cons_of_plain h
  rw [htext] at hread hd ⊢
  obtain ⟨k, rfl⟩ : ∃ k, d = k + 1 := ⟨d - 1, by rw [length_cons] at hd; omega⟩
  have hne : c ≠ '"' ∧ c ≠ '\x7b' ∧ c ≠ '[' := by
    refine ⟨?_, ?_, ?_⟩ <;> rintro rfl <;> cases hc
  rw [cons_append] at hread ⊢
  simp [readValue, hread, hne]

theorem readsBack_text (s : String) : ReadsBack style (.text s) := by
  intro n d r hd hr
  rw [written, Value.text, writeAt, atomText, toList_stringText] at hd ⊢
  obtain ⟨k, rfl⟩ : ∃ k, d = k + 1 := ⟨d - 1, by rw [length_cons] at hd; omega⟩
  simp [readValue, readString_stringChar, Except.map]
  rfl

variable (hstyle : style.IsReadable)

include hstyle

theorem readsBack_list {xs : List Value} (hjson : ∀ x ∈ xs, IsJson x) (hback : ∀ x ∈ xs, ReadsBack style x) :
    ReadsBack style (.list xs) := by
  intro n d r hd hr
  rw [written_list, length_cons] at hd
  obtain ⟨k, rfl⟩ : ∃ k, d = k + 1 := ⟨d - 1, by omega⟩
  have hread : ∀ y ∈ xs, ∀ acc r, Ends r →
      readItem (readValue k) acc (written style (n + 1) y ++ r) = .ok (y :: acc, r) := by
    intro y hy acc r hr
    have hlength := length_lt_inBrackets style n ']' (written style (n + 1)) hy
    rw [readItem, hback y hy (n + 1) k r (by omega) hr]
    rfl
  have hopen : ∀ y ∈ xs, ∃ c t, written style (n + 1) y = c :: t ∧ isSpace c = false ∧ c ≠ ']' := by
    intro y hy
    obtain ⟨c, t, htext, hc, hnot⟩ := exists_written_cons (hjson y hy) style (n + 1)
    exact ⟨c, t, htext, hc, fun heq => hnot (by simp [heq])⟩
  have hparts := readBracketed_inBrackets hstyle n (by decide) hread hopen [] r
  simp [written_list, readValue, hparts, Except.map]

theorem readField_written {f : String × Value} (hjson : IsJson f.2) {n : Nat}
    (hread : readValue d (written style n f.2 ++ r) = .ok (f.2, r)) (acc : Record) :
    readField (readValue d) acc (writtenField style n f ++ r) = .ok (acc.put (.text f.1) f.2, r) := by
  obtain ⟨b, hcolon, hb⟩ := hstyle.colon
  obtain ⟨c, t, htext, hc, -⟩ := exists_written_cons hjson style n
  have hskip := skipSpace_blank hb hc (t ++ r)
  rw [← cons_append, ← htext] at hskip
  simp [writtenField, toList_stringText, readField, readString_stringChar, Except.bind, readFieldValue,
    afterSpace, hcolon, skipSpace_self (c := ':') rfl, hskip, hread, Except.map]

theorem readsBack_record {fs : List (String × Value)} (hkeys : (fs.map (·.1)).Nodup) (hjson : ∀ f ∈ fs, IsJson f.2)
    (hback : ∀ f ∈ fs, ReadsBack style f.2) : ReadsBack style (.ofFields fs) := by
  intro n d r hd hr
  have horder : style.order fs = fs := by simp [Style.order, hstyle.unsorted]
  rw [written_record, horder, length_cons] at hd
  obtain ⟨k, rfl⟩ : ∃ k, d = k + 1 := ⟨d - 1, by omega⟩
  have hread : ∀ f ∈ fs, ∀ acc r, Ends r →
      readField (readValue k) acc (writtenField style (n + 1) f ++ r) = .ok (acc.put (.text f.1) f.2, r) := by
    intro f hf acc r hr
    have hlength := length_lt_inBrackets style n '\x7d' (writtenField style (n + 1)) hf
    refine readField_written hstyle (hjson f hf) (hback f hf (n + 1) k r ?_ hr) acc
    simp only [writtenField, length_append] at hlength
    omega
  have hopen : ∀ f ∈ fs, ∃ c t, writtenField style (n + 1) f = c :: t ∧ isSpace c = false ∧ c ≠ '\x7d' :=
    fun f _ => ⟨'"', _, by rw [writtenField, toList_stringText, cons_append], by decide, by decide⟩
  have hparts := readBracketed_inBrackets hstyle n (by decide) hread
    hopen [] r
  have hfields := @foldl_put [] fs hkeys
  simp only [map_nil, nil_append] at hfields
  rw [written_record, horder]
  simp [readValue, hparts, hfields, Except.map, Value.ofFields]

/-- **A document is read back as it was written.** -/
theorem parse_write (h : IsJson v) : parse (write style v) = .ok v := by
  have hback : ReadsBack style v := by
    induction h with
    | atom a whole =>
      by_cases htext : ∃ s, a = .text s
      · obtain ⟨s, rfl⟩ := htext
        exact readsBack_text s
      · exact readsBack_plain (readPlain_atomText style whole (not_exists.mp htext))
    | list xs items ih => exact readsBack_list hstyle items ih
    | record fs keys fields ih => exact readsBack_record hstyle keys fields ih
  obtain ⟨c, t, htext, hc, hmark⟩ := exists_written_cons h style 0
  have hread := hback 0 ((write style v).toList.length + 1) [] (Nat.le_succ _) (by simp [Ends])
  rw [append_nil] at hread
  have hlist : (write style v).toList = written style 0 v := rfl
  refine parse_eq_ok_iff.mpr ⟨?_, [], ?_, rfl⟩
  · rw [hlist, htext]
    simp_all
  · rw [hlist] at hread ⊢
    rwa [htext, skipSpace_self hc, ← htext]

end

theorem isReadable_pretty : pretty.IsReadable :=
  ⟨⟨[' '], rfl, by simp [Blank, isSpace]⟩, ⟨[' '], rfl, by simp [Blank, isSpace]⟩, rfl⟩

end CodeAtlas.Json
