import CodeAtlas.Diagram.Line

/-!
# Scope in diagrams

A line of a diagram may declare a name, and an arrow uses the two names that it joins.  A diagram is in order when every
name that is used was declared by an earlier line.

* **`declaredBeforeUse_iff`**: the two agree.
-/

namespace CodeAtlas

open List

namespace Line

def declared? : Line → Option String
  | declares _ name _ => some name
  | inner l => l.declared?
  | _ => none

def ends : Line → List String
  | joins source _ target _ => [source, target]
  | inner l => l.ends
  | _ => []

@[simp] theorem ends_empty : empty.ends = [] := rfl

@[simp] theorem ends_close : close.ends = [] := rfl

@[simp] theorem ends_plain (s : String) : (plain s).ends = [] := rfl

@[simp] theorem ends_inner (l : Line) : (inner l).ends = l.ends := rfl

@[simp] theorem ends_declares (d : Declarator) (name rest : String) : (declares d name rest).ends = [] := rfl

@[simp] theorem ends_joins (source arrow target rest : String) :
    (joins source arrow target rest).ends = [source, target] := rfl

end Line

def declaredNames (lines : List Line) : List String := lines.filterMap Line.declared?

/-- Every name that a line joins is declared by an earlier line. -/
def DeclaredBeforeUse (lines : List Line) : Prop :=
  ∀ earlier line later, lines = earlier ++ line :: later → ∀ name ∈ line.ends, name ∈ declaredNames earlier

/-- Every name that a line joins is in scope or declared by an earlier line. -/
def IsScoped (scope : List String) : List Line → Prop
  | [] => True
  | l :: ls => l.ends ⊆ scope ∧ IsScoped (l.declared?.toList ++ scope) ls

instance decidableIsScoped : (scope : List String) → (lines : List Line) → Decidable (IsScoped scope lines)
  | _, [] => isTrue trivial
  | scope, l :: ls =>
    have := decidableIsScoped (l.declared?.toList ++ scope) ls
    inferInstanceAs (Decidable (_ ∧ _))

theorem pair_subset {a b : String} {scope : List String} (ha : a ∈ scope) (hb : b ∈ scope) : [a, b] ⊆ scope := by
  simp [ha, hb]

@[simp] theorem declaredNames_nil : declaredNames [] = [] := rfl

@[simp] theorem declaredNames_append (a b : List Line) :
    declaredNames (a ++ b) = declaredNames a ++ declaredNames b := filterMap_append

theorem declaredNames_cons (l : Line) (ls : List Line) :
    declaredNames (l :: ls) = l.declared?.toList ++ declaredNames ls := by
  unfold declaredNames
  rw [filterMap_cons]
  cases l.declared? <;> rfl

theorem mem_declaredNames {l : Line} {ls : List Line} {name : String} (hl : l ∈ ls) (h : l.declared? = some name) :
    name ∈ declaredNames ls := mem_filterMap.mpr ⟨l, hl, h⟩

theorem declaredNames_subset {a b : List Line} (h : a ⊆ b) : declaredNames a ⊆ declaredNames b := by
  intro name hname
  obtain ⟨l, hl, hdeclared⟩ := mem_filterMap.mp hname
  exact mem_declaredNames (h hl) hdeclared

theorem declaredNames_plain {ls : List Line} (h : ∀ l ∈ ls, ∃ s, l = .plain s) : declaredNames ls = [] := by
  refine filterMap_eq_nil_iff.mpr fun l hl => ?_
  obtain ⟨s, rfl⟩ := h l hl
  rfl

namespace IsScoped

variable {scope wider : List String} {ls : List Line}

theorem mono (h : IsScoped scope ls) (hscope : scope ⊆ wider) : IsScoped wider ls := by
  induction ls generalizing scope wider with
  | nil => trivial
  | cons l ls ih =>
    have hmore : l.declared?.toList ++ scope ⊆ l.declared?.toList ++ wider := by
      intro n hn
      rw [mem_append] at hn ⊢
      exact hn.imp_right (hscope ·)
    exact ⟨List.Subset.trans h.1 hscope, ih h.2 hmore⟩

theorem of_ends (h : ∀ l ∈ ls, l.ends ⊆ scope) : IsScoped scope ls := by
  induction ls generalizing scope with
  | nil => trivial
  | cons l ls ih =>
    refine ⟨h l mem_cons_self, ih fun m hm => ?_⟩
    exact List.Subset.trans (h m (mem_cons_of_mem l hm)) (subset_append_right _ _)

theorem of_ends_nil (h : ∀ l ∈ ls, l.ends = []) : IsScoped scope ls := by
  refine of_ends fun l hl => ?_
  rw [h l hl]
  exact nil_subset scope

end IsScoped

variable {scope : List String} {a b lines : List Line}

theorem isScoped_append : IsScoped scope (a ++ b) ↔ IsScoped scope a ∧ IsScoped (declaredNames a ++ scope) b := by
  induction a generalizing scope with
  | nil => simp [IsScoped]
  | cons l ls ih =>
    -- the name that the line declares comes first in one scope and among the others in the other one
    have hscope : IsScoped (declaredNames ls ++ (l.declared?.toList ++ scope)) b ↔
        IsScoped (declaredNames (l :: ls) ++ scope) b := by
      rw [declaredNames_cons]
      constructor <;> exact fun h => h.mono fun n hn => by grind
    rw [cons_append, IsScoped, IsScoped, ih, and_assoc, hscope]

theorem isScoped_of_declarations {decls : List Line} (hdecls : ∀ l ∈ decls, l.ends = [])
    (h : ∀ l ∈ lines, l.ends ⊆ declaredNames decls) : IsScoped [] (decls ++ lines) := by
  refine isScoped_append.mpr ⟨.of_ends_nil hdecls, .of_ends fun l hl => ?_⟩
  rw [append_nil]
  exact h l hl

theorem IsScoped.ends_subset {l : Line} (h : IsScoped scope lines) (hnone : ∀ l ∈ lines, l.declared? = none)
    (hl : l ∈ lines) : l.ends ⊆ scope := by
  induction lines with
  | nil => cases hl
  | cons m ms ih =>
    rw [forall_mem_cons] at hnone
    rw [IsScoped, hnone.1] at h
    rcases mem_cons.mp hl with rfl | hl
    · exact h.1
    · exact ih h.2 hnone.2 hl

theorem isScoped_declarations_iff {decls : List Line} (hdecls : ∀ l ∈ decls, l.ends = [])
    (hnone : ∀ l ∈ lines, l.declared? = none) :
    IsScoped [] (decls ++ lines) ↔ ∀ l ∈ lines, l.ends ⊆ declaredNames decls := by
  refine ⟨fun h l hl => ?_, isScoped_of_declarations hdecls⟩
  have hsubset := (isScoped_append.mp h).2.ends_subset hnone hl
  rwa [append_nil] at hsubset

theorem IsScoped.flatMap {α : Type} {xs : List α} {f : α → List Line}
    (h : ∀ x ∈ xs, IsScoped scope (f x)) : IsScoped scope (xs.flatMap f) := by
  induction xs with
  | nil => trivial
  | cons x xs ih =>
    rw [flatMap_cons, isScoped_append]
    have hrest := ih fun y hy => h y (mem_cons_of_mem x hy)
    exact ⟨h x mem_cons_self, hrest.mono (subset_append_right _ _)⟩

theorem IsScoped.insert {l : Line} (h : IsScoped scope (a ++ b))
    (hl : l.ends = []) : IsScoped scope (a ++ [l] ++ b) := by
  rw [isScoped_append] at h
  rw [append_assoc, isScoped_append, isScoped_append]
  refine ⟨h.1, of_ends_nil ?_, h.2.mono (subset_append_right _ _)⟩
  intro m hm
  rw [mem_singleton.mp hm, hl]

/-- **Scope is about earlier lines.** -/
theorem declaredBeforeUse_iff : DeclaredBeforeUse lines ↔ IsScoped [] lines := by
  constructor
  · intro h
    -- the names in scope are those of the lines before
    have hsplit : ∀ later earlier : List Line, lines = earlier ++ later → IsScoped (declaredNames earlier) later := by
      intro later
      induction later with
      | nil => exact fun _ _ => trivial
      | cons l ls ih =>
        intro earlier heq
        refine ⟨h earlier l ls heq, ?_⟩
        have hnext := ih (earlier ++ [l]) (by rw [heq, append_assoc, singleton_append])
        rw [declaredNames_append, declaredNames_cons, declaredNames_nil] at hnext
        exact hnext.mono fun n hn => by grind
    exact hsplit lines [] rfl
  · intro h earlier line later heq name hname
    rw [heq, isScoped_append] at h
    have hscope := h.2.1 hname
    rwa [append_nil] at hscope

end CodeAtlas
