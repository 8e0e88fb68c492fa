import CodeAtlas.Client.State
import CodeAtlas.Drafting.Draft
import CodeAtlas.Proofs.Value.ReadBack
import Mathlib.Data.List.Perm.Basic
import Mathlib.Data.List.Nodup
import Mathlib.Data.String.Basic

/-!
# Documents up to the order of fields

The form that hashes are taken of is the same for two values exactly when they are equal up to the order of the fields
of their records, at every depth.  So keys of requests do not depend on that order, and requests that differ in more
have different keys, unless the digests of two texts collide.

* **`Draft.keys_eq_iff_reordered`**: the keys of two requests.
-/

namespace CodeAtlas

open List

/-- Equality up to the order of fields, at every depth. -/
inductive Value.Reordered : Value → Value → Prop where
  | atom (a : Atom) : Reordered (.atom a) (.atom a)
  | list {xs ys : List Value} (items : Forall₂ Reordered xs ys) : Reordered (.list xs) (.list ys)
  | record {fs gs hs : List (String × Value)} (order : fs ~ gs) (keys : gs.map (·.1) = hs.map (·.1))
    (values : Forall₂ Reordered (gs.map (·.2)) (hs.map (·.2))) : Reordered (.ofFields fs) (.ofFields hs)

namespace Json

mutual

def arranged : Value → Value
  | .atom a => .atom a
  | .list xs => .list (arrangedItems xs)
  | .record fs => .record ((arrangedFields fs).mergeSort keyLe)

def arrangedItems : List Value → List Value
  | [] => []
  | x :: xs => arranged x :: arrangedItems xs

def arrangedFields : List (Atom × Value) → List (Atom × Value)
  | [] => []
  | (k, v) :: fs => (k, arranged v) :: arrangedFields fs

end

theorem arranged_list (xs : List Value) : arranged (.list xs) = .list (xs.map arranged) := by
  rw [arranged]
  congr 1
  induction xs with
  | nil => rfl
  | cons x xs ih => rw [arrangedItems, ih, map_cons]

theorem ascending_perm (fs : List (String × Value)) : ascending fs ~ fs := mergeSort_perm ..

theorem ascending_map (g : Value → Value) (fs : List (String × Value)) :
    ascending (fs.map fun f => (f.1, g f.2)) = (ascending fs).map fun f => (f.1, g f.2) := by
  rw [ascending, ascending, map_mergeSort]
  exact fun _ _ _ _ => rfl

theorem arranged_ofFields (fs : List (String × Value)) :
    arranged (.ofFields fs) = .ofFields ((ascending fs).map fun f => (f.1, arranged f.2)) := by
  have hfields : arrangedFields (fs.map fun f => (.text f.1, f.2)) =
      (fs.map fun f => (f.1, arranged f.2)).map fun f => (.text f.1, f.2) := by
    induction fs with
    | nil => rfl
    | cons f fs ih => rw [map_cons, arrangedFields, ih, map_cons, map_cons]
  rw [Value.ofFields, arranged, hfields, Value.ofFields, ← ascending_map, ascending, map_mergeSort]
  exact fun _ _ _ _ => rfl

theorem ascending_eq_of_perm {fs gs : List (String × Value)} (h : fs ~ gs) (hkeys : (fs.map (·.1)).Nodup) :
    ascending fs = ascending gs := by
  have hsorted (l : List (String × Value)) : (ascending l).Pairwise fun f g => decide (f.1 ≤ g.1) = true :=
    pairwise_mergeSort (by simpa using fun _ _ _ => le_trans) (by simpa using fun _ _ => le_total _ _) l
  refine ((ascending_perm fs).trans (h.trans (ascending_perm gs).symm)).eq_of_pairwise ?_ (hsorted fs) (hsorted gs)
  intro f g hf hg hfg hgf
  have hkey : f.1 = g.1 := le_antisymm (of_decide_eq_true hfg) (of_decide_eq_true hgf)
  exact inj_on_of_nodup_map hkeys ((ascending_perm fs).mem_iff.mp hf)
    (h.mem_iff.mpr ((ascending_perm gs).mem_iff.mp hg)) hkey

theorem IsJson.arranged {v : Value} (h : IsJson v) : IsJson (arranged v) := by
  induction h with
  | atom a whole =>
    exact .atom a whole
  | list xs items ih =>
    rw [arranged_list]
    exact .list _ (forall_mem_map.mpr ih)
  | record fs keys fields ih =>
    rw [arranged_ofFields]
    refine .record _ ?_ fun f hf => ?_
    · rw [map_map]
      exact ((ascending_perm fs).map _).nodup_iff.mpr keys
    · obtain ⟨g, hg, rfl⟩ := mem_map.mp hf
      exact ih g ((ascending_perm fs).mem_iff.mp hg)

/-- The layout of the form that hashes are taken of, but for the order of fields. -/
def unordered : Style := { compact with sorted := false }

theorem isReadable_unordered : unordered.IsReadable := ⟨⟨[], rfl, by simp [Blank]⟩, ⟨[], rfl, by simp [Blank]⟩, rfl⟩

theorem inBrackets_congr (style : Style) (n : Nat) (close : Char) {α β : Type} {w : α → List Char} {w' : β → List Char}
    {xs : List α} {ys : List β} (h : xs.map w = ys.map w') :
    inBrackets style n close w xs = inBrackets style n close w' ys := by
  have hempty : xs.isEmpty = ys.isEmpty := by rw [← isEmpty_map, h, isEmpty_map]
  rw [inBrackets, inBrackets, hempty, h]

theorem written_compact {v : Value} (h : IsJson v) (n : Nat) :
    written compact n v = written unordered n (arranged v) := by
  induction h generalizing n with
  | atom a whole => rw [arranged, written, written, writeAt, writeAt]; rfl
  | list xs items ih =>
    have hmap : xs.map (written compact (n + 1)) = (xs.map arranged).map (written unordered (n + 1)) := by
      rw [map_map]
      exact map_congr_left fun x hx => ih x hx (n + 1)
    rw [arranged_list, written_list, written_list]
    exact congrArg _ (inBrackets_congr unordered n ']' hmap)
  | record fs keys fields ih =>
    have hmap : (ascending fs).map (writtenField compact (n + 1)) =
        ((ascending fs).map fun f => (f.1, arranged f.2)).map (writtenField unordered (n + 1)) := by
      rw [map_map]
      refine map_congr_left fun f hf => ?_
      have hvalue := ih f ((ascending_perm fs).mem_iff.mp hf) (n + 1)
      rw [Function.comp_apply, writtenField, writtenField, hvalue]
      rfl
    rw [arranged_ofFields, written_record, written_record]
    exact congrArg _ (inBrackets_congr unordered n '\x7d' hmap)

theorem canonical_eq_iff_arranged {v w : Value} (hv : IsJson v) (hw : IsJson w) :
    canonical v = canonical w ↔ arranged v = arranged w := by
  have hwrite {v : Value} (hv : IsJson v) : canonical v = write unordered (arranged v) :=
    String.toList_inj.mp (written_compact hv 0)
  rw [hwrite hv, hwrite hw]
  refine ⟨fun h => ?_, congrArg _⟩
  have hread := parse_write isReadable_unordered hv.arranged
  rw [h, parse_write isReadable_unordered hw.arranged] at hread
  exact (Except.ok.inj hread).symm

theorem forall₂_iff_map_eq {α β : Type} {R : α → α → Prop} {f : α → β} {xs ys : List α}
    (h : ∀ x ∈ xs, ∀ y ∈ ys, R x y ↔ f x = f y) : Forall₂ R xs ys ↔ xs.map f = ys.map f := by
  induction xs generalizing ys with
  | nil => cases ys <;> simp
  | cons x xs ih =>
    cases ys with
    | nil => simp
    | cons y ys =>
      rw [forall₂_cons, map_cons, map_cons, cons.injEq, h x mem_cons_self y mem_cons_self,
        ih fun a ha b hb => h a (mem_cons_of_mem x ha) b (mem_cons_of_mem y hb)]

theorem ofFields_inj {fs gs : List (String × Value)} : Value.ofFields fs = Value.ofFields gs ↔ fs = gs := by
  rw [Value.ofFields, Value.ofFields, Value.record.injEq]
  exact (map_injective_iff.mpr fun f g hfg => by simpa [Prod.ext_iff] using hfg).eq_iff

theorem reordered_ofFields_iff {fs : List (String × Value)} {w : Value} : (Value.ofFields fs).Reordered w ↔
    ∃ gs hs, fs ~ gs ∧ gs.map (·.1) = hs.map (·.1) ∧ Forall₂ Value.Reordered (gs.map (·.2)) (hs.map (·.2)) ∧
      w = .ofFields hs := by
  constructor
  · intro h
    generalize hv : Value.ofFields fs = v at h
    cases h with
    | atom a => cases hv
    | list items => cases hv
    | record order keys values =>
      obtain rfl := ofFields_inj.mp hv
      exact ⟨_, _, order, keys, values, rfl⟩
  · rintro ⟨gs, hs, order, keys, values, rfl⟩
    exact .record order keys values

theorem exists_perm_of_map_perm {α β : Type} {f : α → β} {xs ys : List α} (h : xs.map f ~ ys.map f) :
    ∃ zs, xs ~ zs ∧ zs.map f = ys.map f := by
  have hmap : Forall₂ (fun b a => b = f a) (xs.map f) xs := by simp
  obtain ⟨zs, hzs, hperm⟩ := perm_comp_forall₂ h.symm hmap
  exact ⟨zs, hperm.symm, ((forall₂_iff_map_eq fun _ _ _ _ => .rfl).mp (by simpa using hzs)).symm⟩

theorem exists_order_iff {fs hs : List (String × Value)} (hkeys : (fs.map (·.1)).Nodup)
    (h : ∀ f ∈ fs, ∀ g ∈ hs, f.2.Reordered g.2 ↔ arranged f.2 = arranged g.2) :
    (∃ gs, fs ~ gs ∧ gs.map (·.1) = hs.map (·.1) ∧ Forall₂ Value.Reordered (gs.map (·.2)) (hs.map (·.2))) ↔
      (ascending fs).map (fun f => (f.1, arranged f.2)) = (ascending hs).map fun f => (f.1, arranged f.2) := by
  have hvalues {gs : List (String × Value)} (order : fs ~ gs) :
      Forall₂ Value.Reordered (gs.map (·.2)) (hs.map (·.2)) ↔ gs.map (arranged ·.2) = hs.map (arranged ·.2) := by
    rw [forall₂_iff_map_eq, map_map, map_map]
    · rfl
    · simp only [forall_mem_map]
      exact fun f hf g hg => h f (order.mem_iff.mpr hf) g hg
  constructor
  · rintro ⟨gs, order, keys, values⟩
    have hmap : gs.map (fun f => (f.1, arranged f.2)) = hs.map fun f => (f.1, arranged f.2) := by
      rw [← zip_map', keys, (hvalues order).mp values, zip_map']
    rw [ascending_eq_of_perm order hkeys, ← ascending_map, hmap, ascending_map]
  · intro heq
    have hperm := ((ascending_perm fs).map fun f => (f.1, arranged f.2)).symm
    rw [heq] at hperm
    obtain ⟨gs, order, hmap⟩ := exists_perm_of_map_perm (hperm.trans ((ascending_perm hs).map _))
    have hkeys := congrArg (map Prod.fst) hmap
    have harranged := congrArg (map Prod.snd) hmap
    rw [map_map, map_map] at hkeys harranged
    exact ⟨gs, order, hkeys, (hvalues order).mpr harranged⟩

/-- **Values are equal up to the order of fields when they are arranged alike.** -/
theorem reordered_iff_arranged {v w : Value} (hv : IsJson v) (hw : IsJson w) : v.Reordered w ↔
    arranged v = arranged w := by
  induction hv generalizing w with
  | atom a whole =>
    cases hw with
    | atom b whole' =>
      simp only [arranged, Value.atom.injEq]
      exact ⟨fun h => by cases h; rfl, fun h => h ▸ .atom a⟩
    | list ys items' => exact iff_of_false (by rintro ⟨⟩) (by simp [arranged])
    | record hs keys' fields' => exact iff_of_false (by rintro ⟨⟩) (by simp [arranged, Value.ofFields])
  | list xs items ih =>
    cases hw with
    | atom b whole' => exact iff_of_false (by rintro ⟨⟩) (by simp [arranged])
    | list ys items' =>
      rw [arranged_list, arranged_list, Value.list.injEq, ← forall₂_iff_map_eq fun x hx y hy => ih x hx (items' y hy)]
      exact ⟨fun h => by cases h; assumption, .list⟩
    | record hs keys' fields' => exact iff_of_false (by rintro ⟨⟩) (by simp [arranged, Value.ofFields])
  | record fs keys fields ih =>
    rw [arranged_ofFields, reordered_ofFields_iff]
    cases hw with
    | atom b whole' => simp [arranged, Value.ofFields]
    | list ys items' => simp [arranged, Value.ofFields]
    | record hs keys' fields' =>
      have horder := exists_order_iff keys fun f hf g hg => ih f hf (fields' g hg)
      rw [arranged_ofFields, ofFields_inj, ← horder]
      simp [ofFields_inj]

/-- **The form that hashes are taken of tells values apart up to the order of fields.** -/
theorem canonical_eq_iff {v w : Value} (hv : IsJson v) (hw : IsJson w) : canonical v = canonical w ↔ v.Reordered w := by
  rw [canonical_eq_iff_arranged hv hw, reordered_iff_arranged hv hw]

theorem eq_of_perm_of_keys {fs gs : List (String × Value)} (h : fs ~ gs) (hkeys : fs.map (·.1) = gs.map (·.1))
    (hnodup : (fs.map (·.1)).Nodup) : fs = gs := by
  induction fs generalizing gs with
  | nil => exact h.nil_eq
  | cons f fs ih =>
    cases gs with
    | nil => cases hkeys
    | cons g gs =>
      obtain ⟨hkey, hlater⟩ := cons.inj hkeys
      obtain rfl : g = f := inj_on_of_nodup_map hnodup (h.mem_iff.mpr mem_cons_self) mem_cons_self hkey.symm
      rw [ih h.cons_inv hlater (nodup_cons.mp hnodup).2]

theorem reordered_ofFields_same_iff {fs hs : List (String × Value)} (hkeys : fs.map (·.1) = hs.map (·.1))
    (hnodup : (fs.map (·.1)).Nodup) :
    (Value.ofFields fs).Reordered (.ofFields hs) ↔ Forall₂ Value.Reordered (fs.map (·.2)) (hs.map (·.2)) := by
  rw [reordered_ofFields_iff]
  constructor
  · rintro ⟨gs, hs', order, keys, values, heq⟩
    obtain rfl := ofFields_inj.mp heq
    rwa [eq_of_perm_of_keys order (hkeys.trans keys.symm) hnodup]
  · exact fun values => ⟨fs, hs, .refl fs, hkeys, values, rfl⟩

end Json

def Prompt.Request.parts (r : Prompt.Request) : List Value :=
  [r.goal, r.kind, r.format, r.context, r.schema, r.style, r.focus]

/-- Two texts with one digest. -/
def Sha256.Collide (s t : String) : Prop := s ≠ t ∧ hexDigest s = hexDigest t

theorem Sha256.hexDigest_eq_iff (s t : String) : hexDigest s = hexDigest t ↔ s = t ∨ Collide s t := by
  by_cases h : s = t <;> simp [h, Collide]

namespace Draft

theorem canonicalRequest_eq_iff {r s : Prompt.Request} (hr : ∀ v ∈ r.parts, Json.IsJson v)
    (hs : ∀ v ∈ s.parts, Json.IsJson v) :
    canonicalRequest r = canonicalRequest s ↔ Forall₂ Value.Reordered r.parts s.parts := by
  have hnodup (r : Prompt.Request) : ((requestFields r).map (·.1)).Nodup := by simp [requestFields]
  have hjson {r : Prompt.Request} (hr : ∀ v ∈ r.parts, Json.IsJson v) : Json.IsJson (.ofFields (requestFields r)) :=
    .record _ (hnodup r) fun f hf => hr f.2 (mem_map_of_mem hf)
  have hsame : (requestFields r).map (·.1) = (requestFields s).map (·.1) := rfl
  rw [canonicalRequest, canonicalRequest, Json.canonical_eq_iff (hjson hr) (hjson hs),
    Json.reordered_ofFields_same_iff hsame (hnodup r)]
  rfl

/-- **The texts that keys are made from are equal exactly when the requests are, up to the order of fields**; and so are
the keys, but for collisions. -/
theorem keys_eq_iff_reordered {v w : Value} (hv : Json.IsJson v) (hw : Json.IsJson w) {r s : Prompt.Request}
    (hr : ∀ x ∈ r.parts, Json.IsJson x) (hs : ∀ x ∈ s.parts, Json.IsJson x) :
    (Json.canonical v = Json.canonical w ↔ v.Reordered w) ∧
    (ClientState.requestKey v = ClientState.requestKey w ↔
      v.Reordered w ∨ Sha256.Collide (Json.canonical v) (Json.canonical w)) ∧
    (canonicalRequest r = canonicalRequest s ↔ Forall₂ Value.Reordered r.parts s.parts) ∧
    (cacheKey r = cacheKey s ↔
      Forall₂ Value.Reordered r.parts s.parts ∨ Sha256.Collide (canonicalRequest r) (canonicalRequest s)) := by
  have hpayload := Json.canonical_eq_iff hv hw
  have hrequest := canonicalRequest_eq_iff hr hs
  refine ⟨hpayload, ?_, hrequest, ?_⟩
  · rw [← hpayload]
    exact Sha256.hexDigest_eq_iff ..
  · rw [← hrequest]
    exact Sha256.hexDigest_eq_iff ..

/-- A request for a record, and one for the same record with its fields swapped. -/
theorem keys_of_swapped_fields : ∃ v w : Value, v = .ofFields [("b", .list [.int (-1)]), ("a", .text "\né😀")] ∧
    w = .ofFields [("a", .text "\né😀"), ("b", .list [.int (-1)])] ∧ Json.IsJson v ∧ Json.IsJson w ∧
    ClientState.requestKey v = ClientState.requestKey w ∧
    cacheKey ⟨v, v, v, v, v, v, v⟩ = cacheKey ⟨w, w, w, w, w, w, w⟩ := by
  have hlist : Json.IsJson (.list [.int (-1)]) := .list _ (by simpa using .atom _ nofun)
  have hv : Json.IsJson (.ofFields [("b", .list [.int (-1)]), ("a", .text "\né😀")]) :=
    .record _ (by decide) (by simp [hlist, Json.IsJson.text])
  have hw : Json.IsJson (.ofFields [("a", .text "\né😀"), ("b", .list [.int (-1)])]) :=
    .record _ (by decide) (by simp [hlist, Json.IsJson.text])
  have hsame : (Value.ofFields [("b", .list [.int (-1)]), ("a", .text "\né😀")]).Reordered
      (.ofFields [("a", .text "\né😀"), ("b", .list [.int (-1)])]) :=
    .record (.swap _ _ []) rfl (.cons (.atom _) (.cons (.list (.cons (.atom _) .nil)) .nil))
  have hparts {v : Value} (hv : Json.IsJson v) :
      ∀ x ∈ (⟨v, v, v, v, v, v, v⟩ : Prompt.Request).parts, Json.IsJson x := by
    simpa [Prompt.Request.parts] using hv
  have hkeys := keys_eq_iff_reordered hv hw (hparts hv) (hparts hw)
  exact ⟨_, _, rfl, rfl, hv, hw, hkeys.2.1.mpr (.inl hsame),
    hkeys.2.2.2.mpr (.inl (by simpa [Prompt.Request.parts] using hsame))⟩

end Draft

end CodeAtlas
