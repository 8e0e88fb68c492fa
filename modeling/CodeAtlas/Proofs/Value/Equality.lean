import CodeAtlas.Proofs.Number.Binary64
import CodeAtlas.Proofs.Value.Fields

/-!
# Equality of loosely typed values

* `Atom.same_symm`, `Atom.same_trans`: equality of atoms is an equivalence, across truth values, integers and binary
  numbers;
* **`Value.same_part`**: equal records have equal fields, also where one of them has none.
-/

namespace CodeAtlas

open List

namespace Atom

variable {a b c : Atom} {x y z : Int ⊕ Binary64}

/-! ### Atoms -/

/-- A number of either kind as a binary one, whose significand may have any size. -/
def exact : Int ⊕ Binary64 → Binary64
  | .inl n => .finite (n < 0) n.natAbs 0
  | .inr x => x

theorem exact_eq_iff (m n : Int) : (exact (.inl m)).eq (exact (.inl n)) ↔ m = n := by
  rw [exact, exact, Binary64.eq_finite_iff, Binary64.compareFinite_eq_iff (Int.le_refl 0) (Int.le_refl 0),
    Binary64.signed_natAbs, Binary64.signed_natAbs]
  simp

theorem intIsFloat_eq (n : Int) (x : Binary64) : intIsFloat n x = (exact (.inl n)).eq x := by
  cases x <;> rfl

theorem sameNumber_iff : sameNumber x y ↔ (exact x).eq (exact y) ∨ exact x = .nan ∧ exact y = .nan := by
  match x, y with
  | .inl m, .inl n =>
    rw [sameNumber, beq_iff_eq, exact_eq_iff]
    simp [exact]
  | .inl m, .inr y =>
    rw [sameNumber, intIsFloat_eq]
    simp [exact]
  | .inr x, .inl n =>
    rw [sameNumber, intIsFloat_eq, Binary64.eq_swap]
    simp [exact]
  | .inr x, .inr y => simp [sameNumber, exact]

theorem sameNumber_symm (h : sameNumber x y) : sameNumber y x := by
  rw [sameNumber_iff] at h ⊢
  rw [Binary64.eq_swap]
  exact h.imp_right And.symm

theorem sameNumber_trans (hxy : sameNumber x y) (hyz : sameNumber y z) : sameNumber x z := by
  have hnan : ∀ w : Binary64, w.eq .nan = false := fun w => by cases w <;> rfl
  rw [sameNumber_iff] at hxy hyz ⊢
  rcases hxy with hxy | ⟨hx, hy⟩
  · rcases hyz with hyz | ⟨hy, _⟩
    · exact .inl (Binary64.eq_trans hxy hyz)
    · rw [hy, hnan] at hxy
      cases hxy
  · rcases hyz with hyz | ⟨_, hz⟩
    · rw [hy, Binary64.eq_swap, hnan] at hyz
      cases hyz
    · exact .inr ⟨hx, hz⟩

theorem same_iff : a.same b ↔ (∃ x y, a.number? = some x ∧ b.number? = some y ∧ sameNumber x y) ∨
    a.number? = none ∧ a = b := by
  cases a <;> cases b <;> simp [same, number?]

theorem same_symm (h : a.same b) : b.same a := by
  rw [same_iff] at h ⊢
  rcases h with ⟨x, y, ha, hb, hxy⟩ | ⟨hnone, rfl⟩
  · exact .inl ⟨y, x, hb, ha, sameNumber_symm hxy⟩
  · exact .inr ⟨hnone, rfl⟩

theorem same_trans (hab : a.same b) (hbc : b.same c) : a.same c := by
  rw [same_iff] at hab hbc
  rcases hab with ⟨x, y, ha, hb, hxy⟩ | ⟨hnone, rfl⟩
  · rcases hbc with ⟨y', z, hb', hc, hyz⟩ | ⟨hnone, _⟩
    · cases hb.symm.trans hb'
      exact same_iff.mpr (.inl ⟨x, z, ha, hc, sameNumber_trans hxy hyz⟩)
    · rw [hb] at hnone
      cases hnone
  · exact same_iff.mpr hbc

theorem same_congr_right (h : a.same b) (k : Atom) : k.same a = k.same b :=
  Bool.eq_iff_iff.mpr ⟨fun hk => same_trans hk h, fun hk => same_trans hk (same_symm h)⟩

theorem truthy_eq_nonzero (h : a.number? = some x) : a.truthy = (exact x).nonzero := by
  cases a <;> cases h
  · next b => cases b <;> rfl
  · next n => rw [truthy, exact, Binary64.nonzero, Bool.eq_iff_iff, bne_iff_ne, bne_iff_ne, Int.natAbs_ne_zero]
  · rfl

theorem truthy_of_same (h : a.same b) : a.truthy = b.truthy := by
  rcases same_iff.mp h with ⟨x, y, ha, hb, hxy⟩ | ⟨_, rfl⟩
  · rw [truthy_eq_nonzero ha, truthy_eq_nonzero hb]
    rcases sameNumber_iff.mp hxy with heq | ⟨hx, hy⟩
    · exact Binary64.nonzero_of_eq heq
    · rw [hx, hy]
  · rfl

end Atom

/-! ### Records -/

namespace Record

variable {fs gs : Record} {k l : Atom}

theorem get?_congr (h : k.same l) (gs : Record) : get? k gs = get? l gs := by
  induction gs with
  | nil => rfl
  | cons g gs ih => rw [get?, get?, Atom.same_congr_right h, ih]

theorem get?_eq_none_iff : get? k fs = none ↔ ∀ f ∈ fs, f.1.same k = false := by
  induction fs with
  | nil => simp [get?]
  | cons f fs ih =>
    rw [get?, forall_mem_cons, ← ih]
    cases f.1.same k <;> simp

theorem length_erase (h : get? k gs ≠ none) : (erase k gs).length + 1 = gs.length := by
  induction gs with
  | nil => exact absurd rfl h
  | cons g gs ih =>
    rw [get?] at h
    rw [erase]
    split
    · rfl
    next hsame =>
      rw [if_neg hsame] at h
      rw [length_cons, ih h, length_cons]

theorem get?_erase (h : k.same l = false) (gs : Record) : get? l (erase k gs) = get? l gs := by
  induction gs with
  | nil => rfl
  | cons g gs ih =>
    rw [erase, get?]
    split
    next hsame =>
      have hother : g.1.same l = false := by
        rw [← Bool.not_eq_true] at h ⊢
        exact fun hl => h (Atom.same_trans (Atom.same_symm hsame) hl)
      rw [if_neg (by simp [hother])]
    next => rw [get?, ih]

theorem length_le_of_has {ks : List Atom} (hdistinct : ks.Pairwise fun a b => a.same b = false)
    (hhas : ∀ k ∈ ks, get? k gs ≠ none) : ks.length ≤ gs.length := by
  induction ks generalizing gs with
  | nil => exact Nat.zero_le _
  | cons k ks ih =>
    obtain ⟨hfirst, hrest⟩ := pairwise_cons.mp hdistinct
    rw [← length_erase (hhas k mem_cons_self), length_cons, Nat.add_le_add_iff_right]
    refine ih hrest fun l hl => ?_
    rw [get?_erase (hfirst l hl)]
    exact hhas l (mem_cons_of_mem _ hl)

end Record

namespace Value

variable {v w v' w' : Value} {fs gs : Record}

theorem sameFields_iff :
    sameFields fs gs ↔ ∀ f ∈ fs, ∃ u, Record.get? f.1 gs = some u ∧ f.2.same u := by
  induction fs with
  | nil => simp [sameFields]
  | cons f fs ih =>
    rw [sameFields, Bool.and_eq_true, ih, forall_mem_cons]
    refine and_congr_left fun _ => ?_
    cases Record.get? f.1 gs <;> simp

theorem same_part (hdistinct : (fs.map (·.1)).Pairwise fun a b => a.same b = false)
    (h : (record fs).same (.record gs)) (key : String) :
    ((record fs).part key).same ((record gs).part key) := by
  rw [same, Bool.and_eq_true, beq_iff_eq, sameFields_iff] at h
  obtain ⟨hlength, hfields⟩ := h
  unfold part field?
  dsimp only
  cases hfirst : Record.get? (.text key) fs with
  | some v =>
    obtain ⟨k, hk, hsame⟩ := Record.exists_of_get? hfirst
    obtain ⟨u, hu, hsame'⟩ := hfields _ hk
    rw [← Record.get?_congr hsame, hu]
    exact hsame'
  | none =>
    -- a field that only the second record has would be one too many
    have hsecond : Record.get? (.text key) gs = none := by
      refine Classical.byContradiction fun hhas => ?_
      have hkeys : (.text key :: fs.map (·.1)).Pairwise fun a b : Atom => a.same b = false := by
        refine pairwise_cons.mpr ⟨fun k hk => ?_, hdistinct⟩
        obtain ⟨f, hf, rfl⟩ := mem_map.mp hk
        have hother := Record.get?_eq_none_iff.mp hfirst f hf
        rw [← Bool.not_eq_true] at hother ⊢
        exact fun hsame => hother (Atom.same_symm hsame)
      have hle := Record.length_le_of_has hkeys fun k hk => by
        rcases mem_cons.mp hk with rfl | hk
        · exact hhas
        · obtain ⟨f, hf, rfl⟩ := mem_map.mp hk
          obtain ⟨u, hu, _⟩ := hfields f hf
          rw [hu]
          exact Option.some_ne_none u
      rw [length_cons, length_map] at hle
      omega
    rw [hsecond]
    rfl

theorem truthy_of_same (h : v.same w) : v.truthy = w.truthy := by
  match v, w with
  | .atom a, .atom b =>
    rw [same] at h
    exact Atom.truthy_of_same h
  | .list [], .list [] => rfl
  | .list (_ :: _), .list (_ :: _) => rfl
  | .record fs, .record gs =>
    rw [same, Bool.and_eq_true, beq_iff_eq] at h
    cases fs <;> cases gs <;> first | rfl | cases h.1

theorem same_orElse (h : v.same w) (h' : v'.same w') : (v.orElse v').same (w.orElse w') := by
  rw [orElse, orElse, truthy_of_same h]
  split
  · exact h
  · exact h'

end Value

end CodeAtlas
