import CodeAtlas.Proofs.Value.Loose

/-!
# Fields of records

A field of a record is looked up in two ways: as a computation that fails for values that are no records, and, where
the value is known to be a record, as a plain function.

* `Value.get_eq_part`: for records both ways agree;
* `Value.field?_ofFields_append`, `Value.field?_ofFields_of_mem`, `Value.field?_ofFields_texts`: the fields of a record
  that is put together from lists of fields.
-/

namespace CodeAtlas

open List

theorem Record.exists_of_get? {k : Atom} {fs : Record} {v : Value} (h : get? k fs = some v) :
    ∃ j, (j, v) ∈ fs ∧ j.same k := by
  induction fs with
  | nil => cases h
  | cons f fs ih =>
    rw [get?] at h
    split at h
    next hsame =>
      cases h
      exact ⟨f.1, mem_cons_self, hsame⟩
    · obtain ⟨j, hj, hsame⟩ := ih h
      exact ⟨j, mem_cons_of_mem _ hj, hsame⟩

namespace Value

def field? (v : Value) (key : String) : Option Value :=
  match v with
  | .record fs => Record.get? (.text key) fs
  | _ => none

def part (v : Value) (key : String) : Value := (v.field? key).getD .null

/-- The text that a field holds; the empty one where it holds none. -/
def textAt (v : Value) (key : String) : String := (v.part key).text?.getD ""

def textsAt (v : Value) (key : String) : List String :=
  match v.part key with
  | .list xs => xs.filterMap text?
  | _ => []

/-- The list that a field holds; nothing where it holds none. -/
def listAt (v : Value) (key : String) : List Value :=
  match v.part key with
  | .list xs => xs
  | _ => []

def isAtom : Value → Bool
  | .atom _ => true
  | _ => false

def isTextOrNull (v : Value) : Bool := v.isNull || v.text?.isSome

def isTextsOrNull : Value → Bool
  | .list xs => xs.all (·.text?.isSome)
  | v => v.isNull

/-! ### Both ways of looking a field up -/

variable {v w : Value} {key s : String} {xs : List Value}

theorem getD_eq_field? (h : v.isRecord) (key : String) (d : Value) :
    v.getD key d = .ok ((v.field? key).getD d) := by
  cases v with
  | record fs => rfl
  | _ => cases h

theorem get_eq_part (h : v.isRecord) (key : String) : v.get key = .ok (v.part key) := getD_eq_field? h key .null

theorem isRecord_of_getD {d : Value} (h : v.getD key d = .ok w) : v.isRecord := by
  cases v with
  | record fs => rfl
  | _ => cases h

theorem isRecord_of_get (h : v.get key = .ok w) : v.isRecord := isRecord_of_getD h

theorem part_of_get (h : v.get key = .ok w) : v.part key = w :=
  Except.ok.inj ((get_eq_part (isRecord_of_get h) key).symm.trans h)

theorem part_of_field? (h : v.field? key = some w) : v.part key = w := by
  rw [part, h, Option.getD_some]

theorem isRecord_of_field? (h : v.field? key = some w) : v.isRecord := by
  cases v with
  | record fs => rfl
  | _ => cases h

theorem field_of_field? (h : v.field? key = some w) : v.field key = .ok w := by
  cases v with
  | record fs =>
    have hget : Record.get? (.text key) fs = some w := h
    rw [field, hget]
  | _ => cases h

theorem firstOf_eq_orElse (h : v.isRecord) (key : String) (d : Value) :
    v.firstOf [key] d = .ok ((v.part key).orElse d) := by
  rw [firstOf, get_eq_part h, Loose.ok_bind, orElse]
  split <;> rfl

theorem truthy_getD_nil (v : Value) (key : String) : ((v.field? key).getD (.list [])).truthy = (v.part key).truthy := by
  rw [part]
  cases v.field? key <;> rfl

theorem getD_eq_part_of_truthy (h : (v.part key).truthy) (d : Value) : (v.field? key).getD d = v.part key := by
  rw [part] at h ⊢
  cases hfield : v.field? key with
  | some w => rfl
  | none =>
    rw [hfield] at h
    cases h

/-! ### Lists -/

theorem listAt_of_field? (h : v.field? key = some (.list xs)) : v.listAt key = xs := by
  rw [listAt, part_of_field? h]

theorem listAt_of_none (h : v.field? key = none) : v.listAt key = [] := by
  rw [listAt, part, h]
  rfl

/-! ### Texts -/

theorem text?_eq_some_iff : v.text? = some s ↔ v = .text s := by
  constructor
  · intro h
    unfold text? at h
    split at h
    · cases h
      rfl
    · cases h
  · rintro rfl
    rfl

theorem eq_text_of_isText (h : v.isText s) : v = .text s := by
  unfold isText at h
  split at h
  · rw [beq_iff_eq.mp h]
    rfl
  · cases h

theorem eq_null_of_isNull (h : v.isNull) : v = .null := by
  unfold isNull at h
  split at h
  · rfl
  · cases h

theorem part_cases (h : (v.part key).isTextOrNull) :
    (v.part key = .null ∧ v.textAt key = "") ∨ v.part key = .text (v.textAt key) := by
  unfold isTextOrNull at h
  rcases (Bool.or_eq_true _ _).mp h with hnull | htext
  · refine .inl ⟨eq_null_of_isNull hnull, ?_⟩
    rw [textAt, eq_null_of_isNull hnull]
    rfl
  · obtain ⟨s, hs⟩ := Option.isSome_iff_exists.mp htext
    refine .inr ?_
    rw [textAt, hs, text?_eq_some_iff.mp hs]
    rfl

theorem truthy_text (s : String) : (Value.text s).truthy = (s != "") := rfl

theorem truthy_part (h : (v.part key).isTextOrNull) : (v.part key).truthy = (v.textAt key != "") := by
  rcases part_cases h with ⟨hpart, hempty⟩ | hpart
  · rw [hpart, hempty]
    rfl
  · rw [hpart, truthy_text]

theorem part_eq_text (h : (v.part key).isTextOrNull) (hne : v.textAt key ≠ "") :
    v.part key = .text (v.textAt key) := by
  rcases part_cases h with ⟨_, hempty⟩ | hpart
  · exact absurd hempty hne
  · exact hpart

theorem orText_part (h : (v.part key).isTextOrNull) (d : String) :
    (v.part key).orText d = .text (if v.textAt key = "" then d else v.textAt key) := by
  unfold orText orElse
  rw [truthy_part h]
  by_cases hempty : v.textAt key = ""
  · rw [if_pos hempty, hempty]
    rfl
  · rw [if_neg hempty, if_pos (by simpa using hempty)]
    exact part_eq_text h hempty

theorem texts_filterMap (h : xs.all (·.text?.isSome)) : xs = (xs.filterMap text?).map text := by
  induction xs with
  | nil => rfl
  | cons x xs ih =>
    rw [all_cons, Bool.and_eq_true] at h
    obtain ⟨s, hs⟩ := Option.isSome_iff_exists.mp h.1
    rw [filterMap_cons_some hs, map_cons, ← ih h.2, text?_eq_some_iff.mp hs]

theorem filterMap_text?_map (ss : List String) : (ss.map text).filterMap text? = ss := by
  induction ss with
  | nil => rfl
  | cons s ss ih =>
    have hs : (text s).text? = some s := rfl
    rw [map_cons, filterMap_cons_some hs, ih]

theorem textAt_of_field? (h : v.field? key = some (.text s)) : v.textAt key = s := by
  rw [textAt, part_of_field? h]
  rfl

theorem textsAt_of_field? {ss : List String} (h : v.field? key = some (.texts ss)) : v.textsAt key = ss := by
  rw [textsAt, part_of_field? h]
  exact filterMap_text?_map ss

/-! ### Records that are put together -/

@[simp] theorem field?_ofFields_nil (key : String) : (ofFields []).field? key = none := rfl

@[simp] theorem field?_ofFields_cons (k : String) (v : Value) (fs : List (String × Value)) (key : String) :
    (ofFields ((k, v) :: fs)).field? key = if k = key then some v else (ofFields fs).field? key := by
  show (if (Atom.text k).same (.text key) then some v else _) = _
  simp only [Atom.same_text_iff, Atom.text.injEq]
  rfl

theorem field?_ofFields_append (fs gs : List (String × Value)) (key : String) :
    (ofFields (fs ++ gs)).field? key = ((ofFields fs).field? key).or ((ofFields gs).field? key) := by
  induction fs with
  | nil => rfl
  | cons f fs ih =>
    rw [cons_append, field?_ofFields_cons, field?_ofFields_cons]
    split
    · rfl
    · exact ih

theorem field?_ofFields_of_not_mem {fs : List (String × Value)} (h : key ∉ fs.map (·.1)) :
    (ofFields fs).field? key = none := by
  induction fs with
  | nil => rfl
  | cons f fs ih =>
    rw [map_cons, mem_cons, not_or] at h
    rw [field?_ofFields_cons, if_neg (Ne.symm h.1), ih h.2]

theorem field?_ofFields_of_mem {fs : List (String × Value)} (hnodup : (fs.map (·.1)).Nodup)
    (h : (key, v) ∈ fs) : (ofFields fs).field? key = some v := by
  induction fs with
  | nil => cases h
  | cons f fs ih =>
    rw [map_cons, nodup_cons] at hnodup
    rw [field?_ofFields_cons]
    split
    next hkey =>
      rcases mem_cons.mp h with rfl | h
      · rfl
      · exact absurd (hkey ▸ mem_map_of_mem h) hnodup.1
    next hkey =>
      rcases mem_cons.mp h with rfl | h
      · exact absurd rfl hkey
      · exact ih hnodup.2 h

theorem get_ofFields {fs gs : List (String × Value)} (hnodup : (fs.map (·.1)).Nodup) (h : (key, v) ∈ fs) :
    (ofFields (fs ++ gs)).get key = .ok v := by
  rw [get_eq_part rfl, part, field?_ofFields_append, field?_ofFields_of_mem hnodup h]
  rfl

theorem field?_ofFields_texts (table : List (String × String)) (key : String) :
    (ofFields (table.map fun e => (e.1, .text e.2))).field? key = (table.lookup key).map .text := by
  induction table with
  | nil => rfl
  | cons e table ih =>
    rw [map_cons, field?_ofFields_cons, lookup_cons, ih]
    by_cases hkey : e.1 = key
    · simp [hkey]
    · simp [hkey, beq_eq_false_iff_ne.mpr (Ne.symm hkey)]

end Value

end CodeAtlas
