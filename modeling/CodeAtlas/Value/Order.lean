import CodeAtlas.Value.Display

/-!
# Orders that nothing fixes

A set hands out its members, and a pool of workers its results, in an order that may be another one every time. A
reordering is one such order: it gives back the members of a list, each as often as it is there. What is built from a
set or from the results of workers takes a reordering as a parameter.

* `Reordering.kept`, `Reordering.reversed`: everything stays where it is, or comes last instead of first;
* `Reordering.ascending`: the members of a set in ascending order of their texts.
-/

namespace CodeAtlas

/-- An order of one's own for the members of lists: none is lost and none is made up. -/
structure Reordering (α : Type) where
  order : List α → List α
  perm (as : List α) : (order as).Perm as

namespace Reordering

def kept {α : Type} : Reordering α := ⟨id, .refl⟩

def reversed {α : Type} : Reordering α := ⟨List.reverse, List.reverse_perm⟩

@[simp] theorem order_kept {α : Type} (as : List α) : kept.order as = as := rfl

@[simp] theorem order_reversed {α : Type} (as : List α) : reversed.order as = as.reverse := rfl

def ascending : Reordering Atom :=
  ⟨fun as => as.mergeSort fun a b => decide (a.display ≤ b.display), fun as => List.mergeSort_perm as _⟩

end Reordering

end CodeAtlas
