import CodeAtlas.Diagram.Schema
import CodeAtlas.Proofs.Diagram.Truncation
import CodeAtlas.Proofs.Value.Display
import CodeAtlas.Proofs.Value.Fields

/-!
# Plain schemas

A schema is plain when its texts are on one line and none of them starts like the note of a cut.  What diagrams write of
a plain schema is then on one line as well and is not taken for that note.

* `Value.isPlain_of_getD`, `Value.isPlain_of_mem_items`: the parts of plain values are plain;
* `Line.isSafe_plain`, `Line.isSafe_declares`, `Line.isSafe_joins`: lines that are cut like any other.
-/

namespace CodeAtlas

open Text SizeLimit

/-- A text on one line that does not start like the note of a cut. -/
def Text.isPlain (s : String) : Bool := isOneLine s && !opensNote s

theorem Text.isPlain_iff {s : String} : isPlain s ↔ isOneLine s ∧ opensNote s = false := by
  rw [isPlain, Bool.and_eq_true, Bool.not_eq_true']

def Atom.allTexts (p : String → Bool) : Atom → Bool
  | .text s => p s
  | _ => true

namespace Value

mutual

/-- Whether all texts of a value have a property, the keys of records among them. -/
def allTexts (p : String → Bool) : Value → Bool
  | .atom a => a.allTexts p
  | .list xs => allTextsIn p xs
  | .record fs => allTextsInFields p fs

def allTextsIn (p : String → Bool) : List Value → Bool
  | [] => true
  | x :: xs => allTexts p x && allTextsIn p xs

def allTextsInFields (p : String → Bool) : List (Atom × Value) → Bool
  | [] => true
  | (k, v) :: fs => k.allTexts p && allTexts p v && allTextsInFields p fs

end

def isPlain (v : Value) : Bool := v.allTexts Text.isPlain

theorem isPlain_list_iff {xs : List Value} : (Value.list xs).isPlain ↔ ∀ x ∈ xs, x.isPlain := by
  show allTextsIn Text.isPlain xs = true ↔ _
  induction xs with
  | nil => simp [allTextsIn]
  | cons x xs ih => simp [allTextsIn, isPlain, ih]

theorem isPlain_record_iff {fs : List (Atom × Value)} :
    (Value.record fs).isPlain ↔ ∀ f ∈ fs, f.1.allTexts Text.isPlain ∧ f.2.isPlain := by
  show allTextsInFields Text.isPlain fs = true ↔ _
  induction fs with
  | nil => simp [allTextsInFields]
  | cons f fs ih =>
    obtain ⟨k, v⟩ := f
    simp [allTextsInFields, isPlain, ih]

/-! ### Parts -/

def HasField (v w : Value) : Prop := ∃ fs k, v = .record fs ∧ (k, w) ∈ fs

variable {v w d x : Value} {key : String}

theorem hasField_of_getD (h : v.getD key d = .ok w) : w = d ∨ v.HasField w := by
  obtain ⟨fs, hfs, h⟩ := Loose.of_bind h
  cases h
  have hv : v = .record fs := by
    cases v <;> cases hfs
    rfl
  cases hget : Record.get? (.text key) fs with
  | none => exact .inl rfl
  | some u =>
    obtain ⟨l, hl, _⟩ := Record.exists_of_get? hget
    exact .inr ⟨fs, l, hv, hl⟩

theorem hasField_of_firstOf {keys : List String} (h : v.firstOf keys d = .ok w) : w = d ∨ v.HasField w := by
  induction keys with
  | nil => exact .inl (Except.ok.inj h).symm
  | cons k ks ih =>
    obtain ⟨u, hu, h⟩ := Loose.of_bind h
    split at h
    next htruthy =>
      cases h
      rcases hasField_of_getD hu with rfl | hfield
      · cases htruthy
      · exact .inr hfield
    next => exact ih h

theorem isPlain_of_hasField (hv : v.isPlain) (h : v.HasField w) : w.isPlain := by
  obtain ⟨fs, k, rfl, hmem⟩ := h
  exact (isPlain_record_iff.mp hv (k, w) hmem).2

theorem isPlain_of_getD (hv : v.isPlain) (hd : d.isPlain) (h : v.getD key d = .ok w) :
    w.isPlain := by
  rcases hasField_of_getD h with rfl | hfield
  · exact hd
  · exact isPlain_of_hasField hv hfield

theorem isPlain_of_get (hv : v.isPlain) (h : v.get key = .ok w) : w.isPlain := isPlain_of_getD hv rfl h

theorem isPlain_of_firstOf {keys : List String} (hv : v.isPlain) (hd : d.isPlain)
    (h : v.firstOf keys d = .ok w) : w.isPlain := by
  rcases hasField_of_firstOf h with rfl | hfield
  · exact hd
  · exact isPlain_of_hasField hv hfield

theorem opensNote_singleton (c : Char) : opensNote (String.singleton c) = false := by
  rw [opensNote_eq_false_iff]
  intro hprefix
  have hlength : (Chars.trimStart [c]).length ≤ 1 := (List.dropWhile_sublist _).length_le
  have hnote : noteStart.length = 15 := by decide
  have hle := hprefix.length_le
  rw [String.toList_singleton] at hle
  omega

theorem isPlain_of_mem_items {xs : List Value} (hv : v.isPlain) (h : v.items = .ok xs) (hx : x ∈ xs) :
    x.isPlain := by
  unfold items at h
  split at h
  next ys =>
    cases h
    exact isPlain_list_iff.mp hv x hx
  next fs =>
    cases h
    obtain ⟨f, hf, rfl⟩ := List.mem_map.mp hx
    exact (isPlain_record_iff.mp hv f hf).1
  next s =>
    cases h
    obtain ⟨c, hc, rfl⟩ := List.mem_map.mp hx
    have hbreak := Chars.isOneLine_iff.mp (isPlain_iff.mp hv).1 c hc
    refine isPlain_iff.mpr ⟨?_, opensNote_singleton c⟩
    simp [Text.isOneLine, Chars.isOneLine, hbreak]
  next => cases h

theorem items_takeFirst {n : Nat} {xs : List Value} (h : v.takeFirst n = .ok w) (hw : w.items = .ok xs) :
    ∃ ys, v.items = .ok ys ∧ xs = ys.take n := by
  unfold takeFirst at h
  split at h
  next ys =>
    cases h
    exact ⟨ys, rfl, (Except.ok.inj hw).symm⟩
  next s =>
    cases h
    refine ⟨_, rfl, ?_⟩
    rw [← Except.ok.inj hw, take, String.toList_ofList, List.map_take]
  next => cases h
  next => cases h

/-! ### Texts -/

theorem isOneLine_display (h : v.isPlain) : Text.isOneLine v.display := by
  unfold display
  split
  · exact (isPlain_iff.mp h).1
  · exact isOneLine_nested _

theorem isOneLine_of_textFor {name s : String} (hv : v.isPlain) (h : v.textFor name = .ok s) :
    Text.isOneLine s := by
  unfold textFor at h
  split at h
  · cases h
    exact (isPlain_iff.mp hv).1
  · cases h

theorem opensNote_numeral {s : String} (h : s.toList ⊆ numeralChars) : opensNote s = false :=
  opensNote_of_not_mem fun hmem => absurd (h hmem) (by decide)

theorem opensNote_display (h : v.isPlain) : opensNote v.display = false := by
  cases v with
  | atom a =>
    cases a with
    | null => exact opensNote_of_not_mem (by decide)
    | bool b => cases b <;> exact opensNote_of_not_mem (by decide)
    | int n => exact opensNote_numeral (int_subset n)
    | float y => exact opensNote_numeral y.text_subset
    | text s => exact (isPlain_iff.mp h).2
  | list xs =>
    rw [display, nested, String.append_assoc]
    · exact opensNote_append (by decide) _
    · intro s hs
      cases hs
  | record fs =>
    rw [display, nested, String.append_assoc]
    · exact opensNote_append (by decide) _
    · intro s hs
      cases hs

/-- **The text of a plain value is plain.** -/
theorem isPlain_display (h : v.isPlain) : Text.isPlain v.display :=
  isPlain_iff.mpr ⟨isOneLine_display h, opensNote_display h⟩

/-! ### Names -/

/-- The fields under which entries of a schema hold names of classes. -/
def nameKeys : List String := ["class", "controller", "from", "to"]

/-- Whether the names that an entry of a schema holds are texts, or absent. -/
def hasTextNames (entry : Value) : Bool := nameKeys.all fun k => (entry.part k).isTextOrNull

theorem isTextOrNull_of_getD (hv : v.hasTextNames) (hkey : key ∈ nameKeys) (hd : d.isTextOrNull)
    (h : v.getD key d = .ok w) : w.isTextOrNull := by
  have hpart := List.all_eq_true.mp hv key hkey
  rw [getD_eq_field? (isRecord_of_getD h)] at h
  cases h
  rw [part] at hpart
  cases hfield : v.field? key with
  | none => exact hd
  | some u => rwa [hfield] at hpart

theorem isTextOrNull_of_get (hv : v.hasTextNames) (hkey : key ∈ nameKeys) (h : v.get key = .ok w) :
    w.isTextOrNull := isTextOrNull_of_getD hv hkey rfl h

theorem eq_of_same {a b : Atom} (ha : (atom a).isTextOrNull) (h : b.same a) : b = a := by
  cases a with
  | text s => exact Atom.same_text_iff.mp h
  | null =>
    cases b with
    | null => rfl
    | _ => cases h
  | _ => cases ha

end Value

namespace Schema

/-- Whether the names in the entries that a schema lists are texts, or absent. -/
def hasTextNames : Value → Bool
  | .record fs => fs.all fun f =>
    match f.2 with
    | .list es => es.all Value.hasTextNames
    | _ => true
  | _ => true

theorem hasTextNames_of_mem {schema entries e : Value} {items : List Value} (h : hasTextNames schema)
    (hfield : schema.HasField entries) (hitems : entries.items = .ok items) (he : e ∈ items) :
    e.hasTextNames := by
  obtain ⟨fs, k, rfl, hmem⟩ := hfield
  have hlisted := List.all_eq_true.mp h (k, entries) hmem
  have hatom : ∀ a, (Value.atom a).hasTextNames := fun _ => rfl
  cases entries with
  | list es =>
    cases hitems
    exact List.all_eq_true.mp hlisted e he
  | record gs =>
    cases hitems
    obtain ⟨f, _, rfl⟩ := List.mem_map.mp he
    exact hatom f.1
  | atom a =>
    cases a with
    | text s =>
      cases hitems
      obtain ⟨c, _, rfl⟩ := List.mem_map.mp he
      exact hatom _
    | _ => cases hitems

end Schema

/-! ### Lines -/

theorem Text.isPlain_append {p s : String} (hp : Departs p ∧ isOneLine p) (hs : isOneLine s) : isPlain (p ++ s) := by
  rw [isPlain_iff, isOneLine_append, hp.2, hs]
  exact ⟨rfl, opensNote_append hp.1 s⟩

namespace Line

theorem isSafe_plain {s : String} (h : Text.isPlain s) : (plain s).IsSafe :=
  ⟨(isPlain_iff.mp h).1, (isPlain_iff.mp h).2, fun hends => absurd rfl hends⟩

theorem isSafe_inner {s : String} (h : Text.isPlain s) : (inner (plain s)).IsSafe := by
  refine ⟨?_, ?_, fun hends => absurd rfl hends⟩
  · rw [text, text, isOneLine_append, (isPlain_iff.mp h).1]
    rfl
  · rw [text, text, opensNote_blanks (by decide)]
    exact (isPlain_iff.mp h).2

theorem isPlain_mark (d : Declarator) {s : String} (h : Text.isOneLine s) :
    Text.isPlain (d.mark ++ s) := by
  cases d <;> exact isPlain_append (by decide) h

theorem isSafe_declares {d : Declarator} {name rest : String} (hname : Text.isOneLine name)
    (hrest : Text.isOneLine rest) : (declares d name rest).IsSafe := by
  have hplain : Text.isPlain (declares d name rest).text := by
    rw [text, String.append_assoc]
    exact isPlain_mark d (by rw [isOneLine_append, hname, hrest]; rfl)
  exact ⟨(isPlain_iff.mp hplain).1, (isPlain_iff.mp hplain).2, fun hends => absurd rfl hends⟩

theorem isSafe_joins {source arrow target rest : String} {c : Char} (hc : c = '-' ∨ c = '.') (harrow : c ∈ arrow.toList)
    (h : Text.isPlain (source ++ arrow ++ target ++ rest)) : (joins source arrow target rest).IsSafe := by
  refine ⟨(isPlain_iff.mp h).1, (isPlain_iff.mp h).2, fun _ => closes_eq_false hc ?_⟩
  simp only [text, String.toList_append, List.mem_append]
  exact .inl (.inl (.inr harrow))

end Line

end CodeAtlas
