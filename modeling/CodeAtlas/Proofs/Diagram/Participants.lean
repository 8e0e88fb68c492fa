import CodeAtlas.Diagram.Communication
import CodeAtlas.Proofs.Diagram.Scope
import CodeAtlas.Proofs.Relations.Soundness
import Mathlib.Data.List.Induction
import Mathlib.Data.Set.List

/-!
# Who takes part in a communication diagram

The ends of the relations of a communication diagram are a set, and sets have no order. A communication diagram of
relations between texts declares the first names of the set in the order of a run, which any order may be, however many
relations they are ends of. Its messages are the relations between declared names, numbered without a gap.

* **`lines_eq_of_relations`**: the lines of the diagram for every order, and when no busier name is left out;
* **`busiest_left_out`**: an order in which a busier name is left out.
-/

namespace CodeAtlas.Communication

open List Register

open Loose (of_bind)

/-! ### Relations between texts -/

def IsNamed (r : Value) : Prop := ∃ a b, r.get "from" = .ok (.text a) ∧ r.get "to" = .ok (.text b)

def sourceOf (r : Value) : String := r.textAt "from"

def targetOf (r : Value) : String := r.textAt "to"

def endNames (r : Value) : List String := [sourceOf r, targetOf r].filter (· != "")

/-- How many relations a name is an end of. -/
def busyness (relations : List Value) (name : String) : Nat :=
  relations.countP fun r => sourceOf r == name || targetOf r == name

variable {r : Value} {relations : List Value} {names : List String} {ls : List Line}

theorem IsNamed.get_from (h : IsNamed r) : r.get "from" = .ok (.text (sourceOf r)) := by
  obtain ⟨a, b, ha, _⟩ := h
  rw [ha, sourceOf, Value.textAt, Value.part_of_get ha]
  rfl

theorem IsNamed.get_to (h : IsNamed r) : r.get "to" = .ok (.text (targetOf r)) := by
  obtain ⟨a, b, _, hb⟩ := h
  rw [hb, targetOf, Value.textAt, Value.part_of_get hb]
  rfl

theorem ends_eq (h : IsNamed r) : ends r = .ok ((endNames r).map .text) := by
  have htruthy : ∀ s, (Value.text s).truthy = (s != "") := fun _ => rfl
  rw [ends, h.get_from, Loose.ok_bind, h.get_to, htruthy, endNames]
  cases hs : sourceOf r != "" <;> cases ht : targetOf r != "" <;> simp [hs, ht, htruthy] <;> rfl

/-! ### Participants -/

theorem exists_atomSet_texts (ts : List String) : ∃ us : List String, atomSet (ts.map .text) = us.map .text ∧
    us.Nodup := by
  induction ts using List.reverseRecOn with
  | nil => exact ⟨[], rfl, nodup_nil⟩
  | append_singleton ts t ih =>
    obtain ⟨us, heq, hnodup⟩ := ih
    have hput : atomSet ((ts ++ [t]).map .text) = (Atom.text t).insertInto (us.map .text) := by
      rw [← heq, atomSet, map_append, foldl_append]
      rfl
    rw [hput, Atom.insertInto]
    split
    next => exact ⟨us, rfl, hnodup⟩
    next hnew =>
      rw [Atom.isIn_text_iff, mem_map] at hnew
      have hnot : t ∉ us := fun ht => hnew ⟨t, ht, rfl⟩
      exact ⟨us ++ [t], by simp,
        nodup_append.mpr ⟨hnodup, nodup_singleton t, by simpa using fun a ha => ne_of_mem_of_not_mem ha hnot⟩⟩

/-- **The participants are the first names in the order of the set of all names.** -/
theorem participants_eq (style : Style) (hnamed : ∀ r ∈ relations, IsNamed r) : ∃ all : List String,
    all.map .text = style.setOrder.order (atomSet ((relations.flatMap endNames).map .text)) ∧ all.Nodup ∧
      (∀ s, s ∈ all ↔ s ≠ "" ∧ 0 < busyness relations s) ∧
      participants style relations = .ok ((all.take participantLimit).map .text) := by
  obtain ⟨us, hset, hnodup⟩ := exists_atomSet_texts (relations.flatMap endNames)
  have hmem : ∀ s, s ∈ us ↔ s ≠ "" ∧ 0 < busyness relations s := by
    intro s
    have htext : s ∈ us ↔ Atom.text s ∈ us.map Atom.text := by simp
    rw [htext, ← hset, text_mem_atomSet, busyness, countP_pos_iff]
    simp only [mem_map, mem_flatMap, endNames, mem_filter, Atom.text.injEq, exists_eq_right, mem_cons,
      not_mem_nil, or_false, bne_iff_ne, Bool.or_eq_true, beq_iff_eq, eq_comm (a := s)]
    constructor
    · rintro ⟨r, hr, hs, hne⟩
      exact ⟨hne, r, hr, hs⟩
    · rintro ⟨hne, r, hr, hs⟩
      exact ⟨r, hr, hs, hne⟩
  have hperm := style.setOrder.perm (us.map .text)
  obtain ⟨all, hall⟩ : ∃ all : List String, all.map .text = style.setOrder.order (us.map .text) := by
    rw [← Set.mem_range, Set.range_list_map]
    intro a ha
    obtain ⟨s, _, hs⟩ := mem_map.mp (hperm.mem_iff.mp ha)
    exact ⟨s, hs⟩
  have hsame : all.Perm us := (map_perm_map_iff fun _ _ => Atom.text.inj).mp (hall ▸ hperm)
  refine ⟨all, hset ▸ hall, hsame.nodup_iff.mpr hnodup, fun s => hsame.mem_iff.trans (hmem s), ?_⟩
  have hfound :
      (relations.map fun r => (endNames r).map Atom.text).flatten = (relations.flatMap endNames).map .text := by
    rw [map_flatMap, flatMap_def]
  rw [participants, Loose.mapM_ok fun r hr => ends_eq (hnamed r hr), Loose.ok_bind, hfound, hset, ← hall, map_take]
  rfl

/-! ### Messages -/

def isBetween (names : List String) (r : Value) : Bool := names.contains (sourceOf r) && names.contains (targetOf r)

def wordsOf (r : Value) : String := (Schema.relationWords r).toOption.getD ""

/-- The lines for a message; every third number is also that of a response. -/
def numbered (n : Nat) (r : Value) : List Line :=
  .joins (sourceOf r) " -> " (targetOf r) (s!" : {n}. " ++ wordsOf r) ::
    if (n + 1) % 3 == 0 then [.joins (targetOf r) " --> " (sourceOf r) s!" : {n}. response"] else []

theorem takesPart_text (s : String) : takesPart (names.map .text) (.text s) = names.contains s := by
  have hsame : ∀ a : String, (Value.atom (.text a)).same (.text s) = (a == s) := fun _ => rfl
  rw [Bool.eq_iff_iff, takesPart, any_map, contains_iff_mem, any_eq_true]
  simp [hsame]

/-- **The messages are the relations between participants, one number after the other.** -/
theorem messageLines_eq {n : Nat} (hnamed : ∀ r ∈ relations, IsNamed r)
    (h : messageLines (names.map .text) n relations = .ok ls) :
    (∀ r ∈ relations.filter (isBetween names), Schema.relationWords r = .ok (wordsOf r)) ∧
      ls = ((relations.filter (isBetween names)).zipIdx n).flatMap fun m => numbered m.2 m.1 := by
  induction relations generalizing n ls with
  | nil =>
    cases h
    exact ⟨forall_mem_nil _, rfl⟩
  | cons r rs ih =>
    rw [forall_mem_cons] at hnamed
    rw [messageLines, hnamed.1.get_from, Loose.ok_bind, hnamed.1.get_to, Loose.ok_bind, takesPart_text, takesPart_text]
      at h
    split at h
    next hbetween =>
      obtain ⟨words, hwords, h⟩ := of_bind h
      obtain ⟨rest, hrest, h⟩ := of_bind h
      cases h
      have hown : wordsOf r = words := by
        rw [wordsOf, hwords]
        rfl
      obtain ⟨hspoken, rfl⟩ := ih hnamed.2 hrest
      rw [filter_cons_of_pos (p := isBetween names) hbetween, zipIdx_cons, flatMap_cons, numbered, hown]
      exact ⟨forall_mem_cons.mpr ⟨hown ▸ hwords, hspoken⟩, rfl⟩
    next hbetween =>
      rw [filter_cons_of_neg (p := isBetween names) hbetween]
      exact ih hnamed.2 h

/-! ### The diagram -/

/-- No name that is left out is an end of more relations than one that is kept. -/
def KeepsBusiest (relations : List Value) (all kept : List String) : Prop :=
  ∀ out ∈ all, out ∉ kept → ∀ s ∈ kept, busyness relations out ≤ busyness relations s

/-- **A communication diagram of relations between texts**: it declares the first names in the order that the set of all
names has in this run, so that no busier name is left out if and only if none of the later names is busier than one of
the first; and its messages are those of the first relations that join declared names, numbered from one on. -/
theorem lines_eq_of_relations (style : Style) (schema : Value) (hne : relations ≠ [])
    (hrelations : schema.firstOf ["relations"] (.list []) = .ok (.list relations)) (hnamed : ∀ r ∈ relations, IsNamed r)
    (h : lines style schema = .ok ls) : ∃ all declared drawn,
      all.map .text = style.setOrder.order (atomSet ((relations.flatMap endNames).map .text)) ∧ all.Nodup ∧
      (∀ s, s ∈ all ↔ s ≠ "" ∧ 0 < busyness relations s) ∧ declared = all.take participantLimit ∧
      drawn = (relations.take relationLimit).filter (isBetween declared) ∧
      (∀ r ∈ drawn, Schema.relationWords r = .ok (wordsOf r)) ∧
      ls = style.opening ++ [.plain "' Communication Diagram", .empty] ++ (declared.map (.declares .participant · "") ++
        [.empty] ++ (drawn.zipIdx 1).flatMap fun m => numbered m.2 m.1) ++ [.close] ∧
      (KeepsBusiest relations all declared ↔
        ∀ out ∈ all.drop participantLimit, ∀ s ∈ declared, busyness relations out ≤ busyness relations s) := by
  obtain ⟨all, horder, hall, hmem, hparticipants⟩ := participants_eq style hnamed
  have htruthy : (Value.list relations).truthy = true := by
    rw [Value.truthy, isEmpty_eq_false_iff.mpr hne]
    rfl
  rw [lines, hrelations, Loose.ok_bind] at h
  obtain ⟨_, _, h⟩ := of_bind h
  simp only [htruthy, if_true] at h
  obtain ⟨body, hbody, h⟩ := of_bind h
  cases h
  rw [ofRelations, Value.items, Loose.ok_bind, hparticipants, Loose.ok_bind] at hbody
  obtain ⟨_, hfirst, hbody⟩ := of_bind hbody
  cases hfirst
  obtain ⟨_, hitems, hbody⟩ := of_bind hbody
  cases hitems
  obtain ⟨messages, hmessages, hbody⟩ := of_bind hbody
  cases hbody
  obtain ⟨hwords, rfl⟩ := messageLines_eq (fun r hr => hnamed r (mem_of_mem_take hr)) hmessages
  refine ⟨all, _, _, horder, hall, hmem, rfl, rfl, hwords, by rw [map_map]; rfl, ?_⟩
  have hnodup : (all.take participantLimit ++ all.drop participantLimit).Nodup := by
    rwa [take_append_drop]
  refine ⟨fun hbusiest out hout => hbusiest out (mem_of_mem_drop hout) ?_, fun hlater out hout hnot => hlater out ?_⟩
  · exact fun hkept => (nodup_append.mp hnodup).2.2 out hkept out hout rfl
  · rw [← take_append_drop participantLimit all] at hout
    exact (mem_append.mp hout).resolve_left hnot

/-- Relations between nine names, the last of which is an end of two. -/
def nineNames : List Value := [("A", "B"), ("C", "D"), ("E", "F"), ("G", "H"), ("I", "A"), ("I", "B")].map fun e =>
  .ofFields [("from", .text e.1), ("to", .text e.2)]

def nineSchema : Value := .ofFields [("relations", .list nineNames)]

theorem isNamed_of_mem_nineNames (hr : r ∈ nineNames) : IsNamed r := by
  obtain ⟨e, _, rfl⟩ := mem_map.mp hr
  exact ⟨e.1, e.2, rfl, rfl⟩

/-- The lines between the opening and the close; a relation without a kind has the same words as another one. -/
def nineLines : List Line :=
  let words := Text.title (Text.replace "interacts" "_" " ")
  ["A", "B", "C", "D", "E", "F", "G", "H"].map (.declares .participant · "") ++ [.empty,
    .joins "A" " -> " "B" (" : 1. " ++ words), .joins "C" " -> " "D" (" : 2. " ++ words),
    .joins "D" " --> " "C" " : 2. response", .joins "E" " -> " "F" (" : 3. " ++ words),
    .joins "G" " -> " "H" (" : 4. " ++ words)]

theorem lines_nineSchema : lines {} nineSchema =
    .ok (Style.opening {} ++ [.plain "' Communication Diagram", .empty] ++ nineLines ++ [.close]) := by
  have hsorted : Reordering.ascending.order (["A", "B", "C", "D", "E", "F", "G", "H", "I"].map .text) = _ :=
    mergeSort_of_pairwise (by decide)
  have hparticipants : participants {} nineNames = .ok (["A", "B", "C", "D", "E", "F", "G", "H"].map .text) := by
    rw [participants, show nineNames.mapM ends = .ok _ from rfl, Loose.ok_bind,
      show atomSet _ = ["A", "B", "C", "D", "E", "F", "G", "H", "I"].map .text from rfl, hsorted]
    rfl
  have hbody : ofRelations {} (.list nineNames) = .ok nineLines := by
    rw [ofRelations, Value.items, Loose.ok_bind, hparticipants]
    rfl
  show (ofRelations {} (.list nineNames) >>= fun body => _) = _
  rw [hbody]
  rfl

theorem lines_eq_of_relations_nine : ∃ all declared : List String, "I" ∈ all ∧ declared = all.take participantLimit ∧
    nineLines = declared.map (.declares .participant · "") ++ [.empty] ++
      ((nineNames.filter (isBetween declared)).zipIdx 1).flatMap fun m => numbered m.2 m.1 := by
  obtain ⟨all, declared, drawn, _, _, hmem, hdeclared, rfl, _, hlines, _⟩ := lines_eq_of_relations {} nineSchema
    (by simp [nineNames]) rfl (fun r hr => isNamed_of_mem_nineNames hr) lines_nineSchema
  exact ⟨all, declared, (hmem "I").mpr (by decide), hdeclared, append_cancel_left (append_cancel_right hlines)⟩

/-- Where names come in ascending order, one that is an end of two relations is left out, and one that is an end of one
relation is not. -/
theorem busiest_left_out : busyness nineNames "C" < busyness nineNames "I" ∧ ∃ ls, lines {} nineSchema = .ok ls ∧
    .declares .participant "C" "" ∈ ls ∧ .declares .participant "I" "" ∉ ls :=
  ⟨by decide, _, lines_nineSchema, by decide, by decide⟩

end CodeAtlas.Communication
