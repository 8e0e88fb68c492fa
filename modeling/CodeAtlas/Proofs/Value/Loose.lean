import CodeAtlas.Value.Access
import Mathlib.Data.List.Forall2

/-!
# Laws of computations on loosely typed values

How a computation that may end in a fault is taken apart, and how records answer:

* `Loose.bind_ok_iff`, `Loose.of_bind`: a computation in two parts succeeds when both parts do;
* `Loose.isOk_bind`, `Loose.isOk_mapM`: whether a computation succeeds;
* `Atom.same_self`, `Atom.same_text_iff`: an atom is the same as itself, and a text as itself only;
* `Record.text_mem_keys_put_iff`: the keys after a field is put.
-/

namespace CodeAtlas

open List

namespace Loose

variable {α β : Type} {x : Loose α} {f : α → Loose β} {b : β} {a : α} {l acc : List α} {r : List β} {p : α → Loose Bool}
  {q : α → Bool}

theorem bind_ok_iff : (x >>= f) = .ok b ↔ ∃ a, x = .ok a ∧ f a = .ok b := by
  cases x with
  | _ => simp [bind, Except.bind]

theorem of_bind (h : (x >>= f) = .ok b) : ∃ a, x = .ok a ∧ f a = .ok b := bind_ok_iff.mp h

@[simp] theorem ok_bind (a : α) (f : α → Loose β) : ((.ok a : Loose α) >>= f) = f a := rfl

theorem pure_ok_iff {b : α} : (pure a : Loose α) = .ok b ↔ a = b := by
  simp [pure, Except.pure]

theorem of_pure {b : α} (h : (pure a : Loose α) = .ok b) : a = b := pure_ok_iff.mp h

theorem mapM_ok_iff : l.mapM f = .ok r ↔ Forall₂ (f · = .ok ·) l r := by
  induction l generalizing r with
  | nil => rw [mapM_nil, pure_ok_iff, forall₂_nil_left_iff, eq_comm]
  | cons a l ih =>
    rw [mapM_cons, bind_ok_iff, forall₂_cons_left_iff]
    simp only [bind_ok_iff, pure_ok_iff, ih, exists_and_left, @eq_comm _ r]

theorem mapM_ok {g : α → β} (h : ∀ a ∈ l, f a = .ok (g a)) : l.mapM f = .ok (l.map g) :=
  mapM_ok_iff.mpr (forall₂_map_right_iff.mpr (forall₂_same.mpr h))

theorem exists_mapM_ok (h : ∀ a ∈ l, ∃ b, f a = .ok b) : ∃ r, l.mapM f = .ok r := by
  induction l with
  | nil => exact ⟨[], rfl⟩
  | cons a l ih =>
    obtain ⟨b, hb⟩ := h a (by simp)
    obtain ⟨r, hr⟩ := ih fun x hx => h x (by simp [hx])
    exact ⟨b :: r, by rw [mapM_cons, hb, hr]; rfl⟩

theorem exists_of_forall₂ {R : α → β → Prop} (h : Forall₂ R l r) (hb : b ∈ r) : ∃ a ∈ l, R a b := by
  induction h with
  | nil => cases hb
  | cons ha _ ih =>
    rcases mem_cons.mp hb with rfl | hb
    · exact ⟨_, mem_cons_self, ha⟩
    · obtain ⟨x, hx, hxb⟩ := ih hb
      exact ⟨x, mem_cons_of_mem _ hx, hxb⟩

theorem mem_of_mapM (h : l.mapM f = .ok r) (hb : b ∈ r) : ∃ a ∈ l, f a = .ok b :=
  exists_of_forall₂ (R := fun a b => f a = .ok b) (mapM_ok_iff.mp h) hb

theorem exists_of_mapM (h : l.mapM f = .ok r) (ha : a ∈ l) : ∃ b ∈ r, f a = .ok b :=
  exists_of_forall₂ (R := fun b a => f a = .ok b) (mapM_ok_iff.mp h).flip ha

theorem mapM_of_mapM {g : α → Loose β} (h : l.mapM f = .ok r)
    (hg : ∀ a ∈ l, ∀ b ∈ r, f a = .ok b → g a = .ok b) : l.mapM g = .ok r := by
  rw [mapM_ok_iff] at h ⊢
  induction h with
  | nil => exact .nil
  | cons hb _ ih =>
    exact .cons (hg _ (by simp) _ (by simp) hb) (ih fun x hx y hy => hg x (by simp [hx]) y (by simp [hy]))

theorem map_of_mapM {γ : Type} {g : α → γ} {k : β → γ} (hk : ∀ a b, f a = .ok b → k b = g a) (h : l.mapM f = .ok r) :
    r.map k = l.map g := by
  rw [← forall₂_eq_eq_eq, forall₂_map_left_iff, forall₂_map_right_iff]
  exact ((mapM_ok_iff.mp h).imp hk).flip

theorem exists_mapM_flatten {P : β → Prop} {f : α → Loose (List β)} (h : ∀ a ∈ l, ∃ bs, f a = .ok bs ∧ ∀ b ∈ bs, P b) :
    ∃ r, (do return (← l.mapM f).flatten : Loose (List β)) = .ok r ∧ ∀ b ∈ r, P b := by
  obtain ⟨found, hfound⟩ := exists_mapM_ok fun a ha => (h a ha).imp fun _ hbs => hbs.1
  refine ⟨found.flatten, by rw [hfound]; rfl, fun b hb => ?_⟩
  obtain ⟨bs, hbs, hb⟩ := mem_flatten.mp hb
  obtain ⟨a, ha, hstep⟩ := mem_of_mapM hfound hbs
  obtain ⟨cs, hcs, hall⟩ := h a ha
  cases hcs.symm.trans hstep
  exact hall b hb

theorem filterAuxM_ok (h : ∀ a ∈ l, p a = .ok (q a)) : l.filterAuxM p acc = .ok ((l.filter q).reverse ++ acc) := by
  induction l generalizing acc with
  | nil => rfl
  | cons a l ih =>
    rw [List.filterAuxM, h a (by simp), ok_bind, ih fun x hx => h x (by simp [hx])]
    cases hq : q a with
    | _ => simp [hq]

theorem filterM_ok (h : ∀ a ∈ l, p a = .ok (q a)) : l.filterM p = .ok (l.filter q) := by
  rw [List.filterM, filterAuxM_ok h, ok_bind, append_nil, reverse_reverse]
  rfl

/-- What one step of a fold keeps, the whole fold keeps. -/
theorem foldlM_invariant {f : β → α → Loose β} (P : β → Prop) {r : β}
    (hstep : ∀ b a c, a ∈ l → P b → f b a = .ok c → P c) (hb : P b) (h : l.foldlM f b = .ok r) : P r := by
  induction l generalizing b with
  | nil =>
    obtain rfl : b = r := of_pure h
    exact hb
  | cons a l ih =>
    rw [foldlM_cons] at h
    obtain ⟨c, hc, h⟩ := of_bind h
    exact ih (fun b x d hx => hstep b x d (by simp [hx])) (hstep b a c (by simp) hb hc) h

theorem isOk_iff : x.isOk ↔ ∃ a, x = .ok a := by
  cases x with
  | _ => simp [Except.isOk, Except.toBool]

theorem isOk_bind {b : Bool} (h : ∀ a, x = .ok a → (f a).isOk = b) : (x >>= f).isOk = (x.isOk && b) := by
  cases x with
  | ok a => exact h a rfl
  | error e => rfl

theorem isOk_bind_ok (h : ∀ a, (f a).isOk) : (x >>= f).isOk = x.isOk := by
  rw [isOk_bind fun a _ => h a, Bool.and_true]

theorem isOk_mapM (f : α → Loose β) (l : List α) : (l.mapM f).isOk = l.all fun a => (f a).isOk := by
  rw [Bool.eq_iff_iff, isOk_iff, all_eq_true]
  constructor
  · rintro ⟨r, hr⟩ a ha
    obtain ⟨b, _, hb⟩ := exists_of_mapM hr ha
    exact isOk_iff.mpr ⟨b, hb⟩
  · exact fun h => exists_mapM_ok fun a ha => isOk_iff.mp (h a ha)

end Loose

theorem Binary64.eq_self {x : Binary64} (h : x ≠ .nan) : x.eq x := by
  cases x with
  | nan => exact absurd rfl h
  | infinite a => simp [Binary64.eq, Binary64.compare?]
  | finite a m e => simp [Binary64.eq, Binary64.compare?, Binary64.compareFinite]

namespace Atom

theorem same_self (a : Atom) : a.same a := by
  cases a with
  | null => rfl
  | text s => exact beq_self_eq_true s
  | bool b => cases b <;> rfl
  | int n => exact beq_self_eq_true n
  | float x =>
    show (x.eq x || (x == .nan && x == .nan)) = true
    by_cases hx : x = .nan
    · subst hx
      rfl
    · rw [Binary64.eq_self hx, Bool.true_or]

theorem same_text_iff {a : Atom} {s : String} : a.same (.text s) ↔ a = .text s := by
  cases a <;> simp [same, number?]

@[simp] theorem text_beq (s t : String) : (text s == text t) = (s == t) := rfl

theorem isIn_text_iff {s : String} {set : List Atom} : (text s).isIn set ↔ .text s ∈ set := by
  simp [isIn, same_text_iff]

theorem insertInto_cons (a b : Atom) (set : List Atom) :
    a.insertInto (b :: set) = if b.same a then b :: set else b :: a.insertInto set := by
  simp only [insertInto, isIn, any_cons, Bool.or_eq_true]
  split <;> split <;> simp_all

theorem text_mem_insertInto {s : String} {a : Atom} {set : List Atom} :
    .text s ∈ a.insertInto set ↔ .text s = a ∨ .text s ∈ set := by
  unfold insertInto
  split
  next hin =>
    refine ⟨.inr, ?_⟩
    rintro (rfl | hmem)
    · exact isIn_text_iff.mp hin
    · exact hmem
  next => simp [or_comm]

end Atom

namespace Record

theorem get?_put_text (key other : String) (v : Value) (fs : Record) :
    get? (.text other) (put (.text key) v fs) = if key = other then some v else get? (.text other) fs := by
  induction fs with
  | nil => simp [put, get?, Atom.same_text_iff]
  | cons f fs ih =>
    obtain ⟨k, w⟩ := f
    simp only [put, get?]
    split
    next hk =>
      cases Atom.same_text_iff.mp hk
      simp only [get?, Atom.same_text_iff, Atom.text.injEq]
      split <;> rfl
    next hk =>
      simp only [get?, ih]
      split
      next hk' =>
        cases Atom.same_text_iff.mp hk'
        rw [if_neg fun heq => hk (Atom.same_text_iff.mpr (by rw [heq]))]
      next => rfl

theorem put_of_get?_text {key : String} {v : Value} {fs : Record} (h : get? (.text key) fs = some v) :
    put (.text key) v fs = fs := by
  induction fs with
  | nil => cases h
  | cons f fs ih =>
    obtain ⟨k, w⟩ := f
    rw [get?] at h
    rw [put]
    split at h
    next hk =>
      cases h
      rw [if_pos hk]
    next hk => rw [if_neg hk, ih h]

theorem put_put_text (key : String) (v w : Value) (fs : Record) :
    put (.text key) w (put (.text key) v fs) = put (.text key) w fs := by
  induction fs with
  | nil => simp [put, Atom.same_text_iff]
  | cons f fs ih =>
    obtain ⟨k, u⟩ := f
    simp only [put]
    split
    next hk => rw [put, if_pos hk]
    next hk => rw [put, if_neg hk, ih]

theorem text_mem_keys_put_iff {s key : String} {v : Value} {fs : Record} :
    .text s ∈ keys (put (.text key) v fs) ↔ s = key ∨ .text s ∈ keys fs := by
  induction fs with
  | nil => simp [put, keys]
  | cons f fs ih =>
    obtain ⟨k, w⟩ := f
    rw [put]
    by_cases hsame : k.same (.text key) = true
    · cases Atom.same_text_iff.mp hsame
      simp [keys, Atom.same_self]
    · rw [if_neg hsame]
      simp only [keys, map_cons, mem_cons] at ih ⊢
      rw [ih]
      exact or_left_comm

end Record

theorem Value.eq_atom_of_key {v : Value} {a : Atom} (h : v.key = .ok a) : v = .atom a := by
  cases v <;> cases h
  rfl

def Schema.Lists (schema : Value) (heading name : String) : Prop :=
  ∃ cs, schema.get heading = .ok (.list cs) ∧ ∃ c ∈ cs, c.get "class" = .ok (.text name)

end CodeAtlas
