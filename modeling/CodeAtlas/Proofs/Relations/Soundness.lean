import CodeAtlas.Proofs.Relations.Cycles
import CodeAtlas.Proofs.Value.Fields

/-!
# Relations that a register may keep

A check lets a relation pass that is complete, of one of the seven kinds and, unless it is a dependency, between two
different known classes.

* `Register.passes`, `Register.passes_iff`: what a check asks of a relation between texts.
-/

namespace CodeAtlas

open List

open Loose (ok_bind)

theorem RelationKind.name_injective {k l : RelationKind} (h : k.name = l.name) : k = l := by
  revert h
  cases k <;> cases l <;> decide

namespace Register

/-- A relation leads from one class to another and is of a kind. -/
structure Joins (v : Value) (a b : String) (k : RelationKind) : Prop where
  source : v.get "from" = .ok (.text a)
  target : v.get "to" = .ok (.text b)
  kind : v.get "type" = .ok (.text k.name)

def IsJoin (v : Value) : Prop := ∃ a b k, Joins v a b k

def Shows (vs : List Value) (a b : String) (k : RelationKind) : Prop := ∃ v ∈ vs, Joins v a b k

def AllowsEnds (known : List Atom) (k : RelationKind) (a b : String) : Prop :=
  a ≠ "" ∧ b ≠ "" ∧ (k ≠ .dependency → a ≠ b ∧ .text a ∈ known ∧ .text b ∈ known)

def HasSource (v : Value) : Prop := ∃ s, v.field "source" = .ok s

def Differ (v w : Value) : Prop :=
  ¬ (v.get "from" = w.get "from" ∧ v.get "to" = w.get "to" ∧ v.get "type" = w.get "type")

variable {known : List Atom} {v kind : Value} {vs ws : List Value} {s a b a' b' : String} {k k' : RelationKind}

theorem Joins.hasTextEnds (h : Joins v a b k) : HasTextEnds v := ⟨a, b, h.source, h.target⟩

theorem shows_append : Shows (vs ++ ws) a b k ↔ Shows vs a b k ∨ Shows ws a b k := by
  simp only [Shows, mem_append, or_and_right, exists_or]

theorem Joins.unique (h : Joins v a b k) (h' : Joins v a' b' k') :
    a = a' ∧ b = b' ∧ k = k' := by
  have ha := h.source.symm.trans h'.source
  have hb := h.target.symm.trans h'.target
  have hk := h.kind.symm.trans h'.kind
  cases ha
  cases hb
  exact ⟨rfl, rfl, RelationKind.name_injective (by simpa [Value.text] using hk)⟩

theorem joins_inferred (a b : String) (k : RelationKind) : Joins (inferred (.text a) (.text b) k.name) a b k :=
  ⟨rfl, rfl, rfl⟩

/-! ### Known classes -/

theorem text_mem_atomSet {as : List Atom} : .text s ∈ atomSet as ↔ .text s ∈ as := by
  suffices ∀ set : List Atom, .text s ∈ as.foldl (fun set a => a.insertInto set) set ↔ .text s ∈ set ∨ .text s ∈ as by
    simpa [atomSet] using this []
  intro set
  induction as generalizing set with
  | nil => simp
  | cons a as ih =>
    rw [foldl_cons, ih, Atom.text_mem_insertInto, mem_cons]
    tauto

theorem isKnownOther_iff :
    ((Atom.text b).isIn known && !(Atom.text b).same (.text a)) ↔ .text b ∈ known ∧ b ≠ a := by
  rw [Bool.and_eq_true, Atom.isIn_text_iff, Bool.not_eq_true', ← Bool.not_eq_true, Atom.same_text_iff, Atom.text.injEq]

/-! ### Checks -/

def passes (known : List Atom) (a b : String) (kind : Value) : Bool :=
  a != "" && b != "" && (kind.text?.bind RelationKind.ofName?).any fun k =>
    decide (k = .dependency) || ((Atom.text a).isIn known && (Atom.text b).isIn known && a != b)

theorem isValid_eq (known : List Atom) (a b : String) (kind : Value) :
    (RelationKey.mk (.text a) (.text b) kind).isValid known = .ok (passes known a b kind) := by
  unfold RelationKey.isValid passes
  cases hk : kind.text?.bind RelationKind.ofName? with
  | none => split <;> simp [pure, Except.pure]
  | some k =>
    have htruthy : kind.truthy := by
      rw [RelationKind.eq_text_of_ofName? hk]
      cases k <;> rfl
    have hsame : (Value.text a).same (.text b) = (a == b) := rfl
    rw [htruthy, Value.truthy_text, Value.truthy_text, Bool.and_true, hsame]
    cases hne : (a != "" && b != "") with
    | false => rfl
    | true =>
      simp only [Bool.not_true, Bool.false_eq_true, if_false, Bool.true_and, Option.any_some]
      cases ha : (Atom.text a).isIn known <;> cases hb : (Atom.text b).isIn known <;> cases k <;>
        simp [Value.key, Value.text, ha, hb, pure, Except.pure, bne]

theorem passes_iff :
    passes known a b kind ↔ ∃ k : RelationKind, kind = .text k.name ∧ AllowsEnds known k a b := by
  have hkind : ∀ k : RelationKind, kind.text?.bind RelationKind.ofName? = some k ↔ kind = .text k.name := by
    intro k
    refine ⟨RelationKind.eq_text_of_ofName?, ?_⟩
    rintro rfl
    exact RelationKind.ofName?_eq_some_iff.mpr rfl
  simp only [passes, Bool.and_eq_true, bne_iff_ne, Option.any_eq_true, hkind, Bool.or_eq_true, decide_eq_true_eq,
    Atom.isIn_text_iff, AllowsEnds]
  grind

end Register

end CodeAtlas
