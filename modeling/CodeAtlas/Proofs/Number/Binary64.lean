import CodeAtlas.Number.Binary64

/-!
# Sums and order of binary numbers

* `Binary64.add_ne_nan`: the sum of a number and a finite number is a number;
* `Binary64.compare?_swap`, `Binary64.le_of_not_lt`: of two numbers one is less than or equal to the other;
* `Binary64.eq_swap`, `Binary64.eq_trans`: numeric equality, whatever the form of a significand.
-/

namespace CodeAtlas.Binary64

/-! ### Sums -/

theorem ofRatio_ne_nan (neg : Bool) (n d : Nat) : ofRatio neg n d ≠ nan := by
  unfold ofRatio
  split
  · simp
  · dsimp only
    split
    · simp
    · unfold normal
      split <;> simp

variable {i f : Int} {x y : Binary64} (a : Bool)

theorem exists_finite_of_ofInt? (h : ofInt? i = some x) : ∃ neg m e, x = finite neg m e := by
  unfold ofInt? at h
  cases hx : ofInt i with
  | finite neg m e =>
    rw [hx] at h
    exact ⟨neg, m, e, (Option.some.inj h).symm⟩
  | infinite neg =>
    rw [hx] at h
    cases h
  | nan => exact absurd hx (ofRatio_ne_nan _ _ _)

theorem add_ne_nan (hx : x ≠ nan) (neg : Bool) (m : Nat) (e : Int) : x.add (finite neg m e) ≠ nan := by
  cases x with
  | nan => exact absurd rfl hx
  | infinite a => simp [add]
  | finite a n f =>
    rw [add]
    split
    · simp
    · dsimp only
      split
      · simp [zero]
      · exact ofRatio_ne_nan _ _ _

theorem ne_nan_of_addInt? (hx : x ≠ nan) (h : x.addInt? i = some y) : y ≠ nan := by
  obtain ⟨z, hz, rfl⟩ := Option.map_eq_some_iff.mp h
  obtain ⟨neg, m, e, rfl⟩ := exists_finite_of_ofInt? hz
  exact add_ne_nan hx neg m e

/-! ### Order -/

theorem compareFinite_swap (m : Nat) (e : Int) (b : Bool) (n : Nat) (f : Int) :
    (compareFinite a m e b n f).swap = compareFinite b n f a m e := by
  unfold compareFinite
  rw [Int.min_comm f e]
  exact Std.OrientedOrd.eq_swap.symm

theorem compare?_swap (x y : Binary64) : (compare? x y).map Ordering.swap = compare? y x := by
  cases x with
  | nan => cases y <;> rfl
  | infinite a =>
    cases y with
    | nan => rfl
    | infinite b => cases a <;> cases b <;> rfl
    | finite b n f => cases a <;> rfl
  | finite a m e =>
    cases y with
    | nan => rfl
    | infinite b => cases b <;> rfl
    | finite b n f => exact congrArg some (compareFinite_swap ..)

theorem compare?_isSome (hx : x ≠ nan) (hy : y ≠ nan) : ∃ o, compare? x y = some o := by
  cases x with
  | nan => exact absurd rfl hx
  | infinite a =>
    cases y with
    | nan => exact absurd rfl hy
    | _ => exact ⟨_, rfl⟩
  | finite a m e =>
    cases y with
    | nan => exact absurd rfl hy
    | _ => exact ⟨_, rfl⟩

theorem ne_nan_of_le (h : x.le y) : x ≠ nan ∧ y ≠ nan := by
  constructor
  · rintro rfl
    cases y <;> cases h
  · rintro rfl
    cases x <;> cases h

theorem le_of_not_lt (hx : x ≠ nan) (hy : y ≠ nan) (h : y.lt x = false) : x.le y := by
  obtain ⟨o, ho⟩ := compare?_isSome hx hy
  have hswap : compare? y x = some o.swap := by
    rw [← compare?_swap, ho]
    rfl
  rw [lt, hswap] at h
  rw [le, lt, eq, ho]
  cases o with
  | lt => rfl
  | eq => rfl
  | gt => cases h

/-! ### Equality -/

theorem signed_mul (m k : Nat) : signed a (m * k) = signed a m * k := by
  cases a
  · exact Int.natCast_mul m k
  · show -((m * k : Nat) : Int) = -(m : Int) * k
    rw [Int.natCast_mul, Int.neg_mul]

theorem signed_natAbs (i : Int) : signed (i < 0) i.natAbs = i := by
  unfold signed
  split
  next h => rw [Int.ofNat_natAbs_of_nonpos (Int.le_of_lt (of_decide_eq_true h)), Int.neg_neg]
  next h => exact Int.natAbs_of_nonneg (Int.not_lt.mp fun hlt => h (decide_eq_true hlt))

theorem compareFinite_eq_iff {a b : Bool} {m n : Nat} {e g : Int} (he : g ≤ e) (hf : g ≤ f) :
    compareFinite a m e b n f = .eq ↔
      signed a m * Nat.pow 2 (e - g).toNat = signed b n * Nat.pow 2 (f - g).toNat := by
  have hpos : (Nat.pow 2 (min e f - g).toNat : Int) ≠ 0 := Int.ofNat_ne_zero.mpr (Nat.ne_of_gt (Nat.two_pow_pos _))
  have hpow : ∀ d, min e f ≤ d →
      Nat.pow 2 (d - g).toNat = Nat.pow 2 (d - min e f).toNat * Nat.pow 2 (min e f - g).toNat := by
    intro d hd
    have hsum : (d - g).toNat = (d - min e f).toNat + (min e f - g).toNat := by omega
    rw [hsum]
    exact Nat.pow_add 2 _ _
  unfold compareFinite
  rw [Std.compare_eq_iff_eq, signed_mul, signed_mul, hpow e (Int.min_le_left e f), hpow f (Int.min_le_right e f),
    Int.natCast_mul, Int.natCast_mul, ← Int.mul_assoc, ← Int.mul_assoc, Int.mul_eq_mul_right_iff hpos]

theorem eq_finite_iff {a b : Bool} {m n : Nat} {e : Int} :
    (finite a m e).eq (finite b n f) ↔ compareFinite a m e b n f = .eq := by
  rw [eq, compare?, beq_iff_eq, Option.some.injEq]

theorem eq_swap (x y : Binary64) : x.eq y = y.eq x := by
  rw [eq, eq, ← compare?_swap]
  cases compare? y x with
  | none => rfl
  | some o => cases o <;> rfl

theorem eq_trans {z : Binary64} (hxy : x.eq y) (hyz : y.eq z) : x.eq z := by
  match x, y, z with
  | nan, _, _ => cases hxy
  | infinite a, nan, _ => cases hxy
  | finite _ _ _, nan, _ => cases hxy
  | infinite a, finite b n f, _ => cases a <;> cases hxy
  | finite a m e, infinite b, _ => cases b <;> cases hxy
  | infinite a, infinite b, nan => cases hyz
  | infinite a, infinite b, finite c k h => cases b <;> cases hyz
  | infinite a, infinite b, infinite c => revert a b c; decide
  | finite a m e, finite b n f, nan => cases hyz
  | finite a m e, finite b n f, infinite c => cases c <;> cases hyz
  | finite a m e, finite b n f, finite c k h =>
    rw [eq_finite_iff] at hxy hyz ⊢
    rw [compareFinite_eq_iff (g := min e (min f h)) (by omega) (by omega)] at hxy hyz ⊢
    exact hxy.trans hyz

theorem nonzero_of_eq (h : x.eq y) : x.nonzero = y.nonzero := by
  match x, y with
  | nan, _ => cases h
  | infinite a, nan => cases h
  | finite _ _ _, nan => cases h
  | infinite a, finite b n f => cases a <;> cases h
  | finite a m e, infinite b => cases b <;> cases h
  | infinite a, infinite b => rfl
  | finite a m e, finite b n f =>
    have hzero : ∀ (c : Bool) (k d : Nat), signed c k * Nat.pow 2 d = 0 ↔ k = 0 := by
      intro c k d
      have hpow : (Nat.pow 2 d : Int) ≠ 0 := Int.ofNat_ne_zero.mpr (Nat.ne_of_gt (Nat.two_pow_pos d))
      rw [Int.mul_eq_zero, or_iff_left hpow]
      cases c <;> simp [signed]
    rw [eq_finite_iff, compareFinite_eq_iff (Int.min_le_left e f) (Int.min_le_right e f)] at h
    have hiff : m = 0 ↔ n = 0 := by rw [← hzero a m, h, hzero]
    rw [nonzero, nonzero, Bool.eq_iff_iff, bne_iff_ne, bne_iff_ne, ne_eq, ne_eq, hiff]

end CodeAtlas.Binary64
