import CodeAtlas.Proofs.Relations.Cycles
import CodeAtlas.Proofs.Value.Fields

/-!
# Relations gathered by kind

Relations are gathered under headings, one for each kind.  A relation belongs under a heading if its type is spelled
like the heading; but the types that pass a check are spelled like the names of the kinds, and no kind is named like a
heading.  So relations that have passed a check are under no heading at all.

**`Register.categorize_valid`**: of relations of valid types none is gathered, and none is counted.
-/

namespace CodeAtlas

open List Loose

namespace RelationKind

theorem mem_all (k : RelationKind) : k ∈ all := by cases k <;> decide

theorem heading_injective {k l : RelationKind} (h : k.heading = l.heading) : k = l := by
  revert h
  cases k <;> cases l <;> decide

theorem name_ne_heading (k l : RelationKind) : k.name ≠ l.heading := by cases k <;> cases l <;> decide

end RelationKind

namespace Register

def HasWord (v : Value) : Prop := ∃ s, v.get "type" = .ok (.text s)

def HasKind (v : Value) : Prop := ∃ k : RelationKind, v.get "type" = .ok (.text k.name)

def HasHeading (v : Value) : Prop := ∃ k : RelationKind, v.get "type" = .ok (.text k.heading)

theorem HasKind.hasWord {v : Value} (h : HasKind v) : HasWord v := by
  obtain ⟨k, hk⟩ := h
  exact ⟨k.name, hk⟩

def bucket (vs : List Value) (k : RelationKind) : List Value := vs.filter fun v => v.textAt "type" == k.heading

def gathered (groups : List (String × List Value)) : List Value := groups.flatMap (·.2)

/-- Every relation of a list is under one heading, and each heading is over relations of one type in their order. -/
structure IsPartition (groups : List (String × List Value)) (vs : List Value) : Prop where
  perm : (gathered groups).Perm vs
  ordered : ∀ g ∈ groups, g.2.Sublist vs
  uniform : ∀ g ∈ groups, ∀ v ∈ g.2, ∀ w ∈ g.2, v.get "type" = w.get "type"

variable {vs : List Value} {v : Value} {k : RelationKind} {ks : List RelationKind} {r : Register}

theorem textAt_type {s : String} (h : v.get "type" = .ok (.text s)) : v.textAt "type" = s := by
  rw [Value.textAt, Value.part_of_get h]
  rfl

theorem mem_bucket_iff (h : ∀ v ∈ vs, HasWord v) : v ∈ bucket vs k ↔ v ∈ vs ∧ v.get "type" = .ok (.text k.heading) := by
  rw [bucket, mem_filter, beq_iff_eq]
  refine and_congr_right fun hv => ?_
  obtain ⟨s, hs⟩ := h v hv
  rw [textAt_type hs, hs]
  simp [Value.text]

def groups (vs : List Value) : List (String × List Value) := RelationKind.all.map fun k => (k.heading, bucket vs k)

theorem categorize_eq (h : ∀ v ∈ vs, HasWord v) : categorize vs = .ok (groups vs) := by
  have hkeyed : vs.mapM (fun v => do return (← (← v.get "type").key, v)) =
      (.ok (vs.map fun v => (.text (v.textAt "type"), v)) : Loose (List (Atom × Value))) := by
    refine mapM_ok fun v hv => ?_
    obtain ⟨s, hs⟩ := h v hv
    rw [hs, textAt_type hs]
    rfl
  have hbucket : ∀ k : RelationKind, ((vs.map fun v => (Atom.text (v.textAt "type"), v)).filter
      fun p => p.1.same (.text k.heading)).map (·.2) = bucket vs k := by
    intro k
    rw [filter_map, map_map]
    exact map_id _
  rw [categorize, hkeyed, ok_bind]
  simp only [hbucket]
  rfl

/-! ### What is gathered -/

def isUnder (ks : List RelationKind) (v : Value) : Bool := ks.any fun k => v.textAt "type" == k.heading

theorem bucket_cons (v : Value) (vs : List Value) (k : RelationKind) :
    bucket (v :: vs) k = if v.textAt "type" = k.heading then v :: bucket vs k else bucket vs k := by
  simp only [bucket, filter_cons, beq_iff_eq]

theorem flatMap_bucket_cons (hnodup : ks.Nodup) (hk : k ∈ ks) (hv : v.textAt "type" = k.heading) (vs : List Value) :
    (ks.flatMap (bucket (v :: vs))).Perm (v :: ks.flatMap (bucket vs)) := by
  obtain ⟨as, bs, rfl⟩ := append_of_mem hk
  have hother : ∀ ls : List RelationKind, k ∉ ls → ls.flatMap (bucket (v :: vs)) = ls.flatMap (bucket vs) := by
    intro ls hls
    refine flatMap_congr fun l hl => ?_
    rw [bucket_cons, if_neg]
    intro heq
    exact hls (RelationKind.heading_injective (hv.symm.trans heq) ▸ hl)
  obtain ⟨_, hrest, hapart⟩ := nodup_append.mp hnodup
  have has : k ∉ as := fun h => hapart k h k mem_cons_self rfl
  have hbs : k ∉ bs := (nodup_cons.mp hrest).1
  rw [flatMap_append, flatMap_append, flatMap_cons, flatMap_cons, hother as has, hother bs hbs,
    bucket_cons, if_pos hv, cons_append]
  exact perm_middle

theorem flatMap_bucket_perm (hnodup : ks.Nodup) (vs : List Value) :
    (ks.flatMap (bucket vs)).Perm (vs.filter (isUnder ks)) := by
  induction vs with
  | nil => simp [bucket]
  | cons v vs ih =>
    by_cases hv : isUnder ks v = true
    · obtain ⟨k, hk, hkv⟩ := any_eq_true.mp hv
      rw [filter_cons_of_pos hv]
      exact (flatMap_bucket_cons hnodup hk (beq_iff_eq.mp hkv) vs).trans (ih.cons v)
    · rw [filter_cons_of_neg hv]
      have hnone : ks.flatMap (bucket (v :: vs)) = ks.flatMap (bucket vs) := by
        refine flatMap_congr fun k hk => ?_
        rw [bucket_cons, if_neg]
        intro heq
        exact hv (any_eq_true.mpr ⟨k, hk, beq_iff_eq.mpr heq⟩)
      rw [hnone]
      exact ih

theorem gathered_perm (vs : List Value) : (gathered (groups vs)).Perm (vs.filter (isUnder RelationKind.all)) := by
  rw [gathered, groups, flatMap_map]
  exact flatMap_bucket_perm (by decide) vs

theorem isUnder_all_iff (h : HasWord v) : isUnder RelationKind.all v ↔ HasHeading v := by
  obtain ⟨s, hs⟩ := h
  simp only [isUnder, any_eq_true, beq_iff_eq, textAt_type hs, RelationKind.mem_all, true_and, HasHeading, hs]
  simp [Value.text]

theorem isPartition_iff (h : ∀ v ∈ vs, HasWord v) : IsPartition (groups vs) vs ↔ ∀ v ∈ vs, HasHeading v := by
  constructor
  · intro hpartition v hv
    have hmem := (gathered_perm vs).mem_iff.mp (hpartition.perm.mem_iff.mpr hv)
    exact (isUnder_all_iff (h v hv)).mp (mem_filter.mp hmem).2
  · intro hall
    refine ⟨?_, fun g hg => ?_, fun g hg v hv w hw => ?_⟩
    · have hself : vs.filter (isUnder RelationKind.all) = vs :=
        filter_eq_self.mpr fun v hv => (isUnder_all_iff (h v hv)).mpr (hall v hv)
      have hperm := gathered_perm vs
      rwa [hself] at hperm
    · obtain ⟨k, _, rfl⟩ := mem_map.mp hg
      exact filter_sublist
    · obtain ⟨k, _, rfl⟩ := mem_map.mp hg
      rw [((mem_bucket_iff h).mp hv).2, ((mem_bucket_iff h).mp hw).2]

theorem bucket_eq_nil (h : ∀ v ∈ vs, HasKind v) (k : RelationKind) : bucket vs k = [] := by
  rw [eq_nil_iff_forall_not_mem]
  intro v hv
  obtain ⟨hmem, hheading⟩ := (mem_bucket_iff fun v hv => (h v hv).hasWord).mp hv
  obtain ⟨l, hl⟩ := h v hmem
  rw [hl] at hheading
  exact RelationKind.name_ne_heading l k (by simpa [Value.text] using hheading)

/-! ### What is counted -/

def counts (vs : List Value) : List (String × Nat) :=
  ((groups vs).filter fun g => !g.2.isEmpty).map fun g => (g.1, g.2.length)

theorem statistics_ok (h : ∀ v ∈ r.relations, HasWord v) {stats : Value} (hstats : r.statistics = .ok stats) :
    stats.get "total_relationships" = .ok (.nat r.relations.length) ∧
      stats.get "by_type" = .ok (.ofFields ((counts r.relations).map fun c => (c.1, .nat c.2))) := by
  unfold statistics at hstats
  rw [categorize_eq h, ok_bind] at hstats
  obtain ⟨cycles, _, hstats⟩ := of_bind hstats
  cases hstats
  refine ⟨rfl, ?_⟩
  rw [counts, map_map]
  rfl

theorem exists_statistics (h : ∀ v ∈ r.relations, HasWord v) (hends : ∀ v ∈ r.relations, HasTextEnds v) :
    ∃ stats, r.statistics = .ok stats := by
  obtain ⟨cs, _, hcycles⟩ := cycles_eq hends
  unfold statistics
  rw [categorize_eq h, ok_bind, hcycles]
  exact ⟨_, rfl⟩

def total (cs : List (String × Nat)) : Nat := cs.foldr (fun c n => c.2 + n) 0

theorem total_counts (vs : List Value) : total (counts vs) = (gathered (groups vs)).length := by
  rw [counts, gathered]
  induction groups vs with
  | nil => rfl
  | cons g gs ih =>
    rw [flatMap_cons, length_append, ← ih]
    cases hempty : g.2.isEmpty with
    | true =>
      rw [filter_cons_of_neg (by simp [hempty]), isEmpty_iff.mp hempty, length_nil, Nat.zero_add]
    | false =>
      rw [filter_cons_of_pos (by simp [hempty])]
      rfl

theorem total_counts_eq_iff (h : ∀ v ∈ vs, HasWord v) : total (counts vs) = vs.length ↔ ∀ v ∈ vs, HasHeading v := by
  rw [total_counts, (gathered_perm vs).length_eq, length_filter_eq_length_iff]
  exact forall₂_congr fun v hv => isUnder_all_iff (h v hv)

theorem forall_hasHeading_iff (h : ∀ v ∈ vs, HasKind v) : (∀ v ∈ vs, HasHeading v) ↔ vs = [] := by
  refine ⟨fun hall => eq_nil_iff_forall_not_mem.mpr fun v hv => ?_, ?_⟩
  · obtain ⟨k, hk⟩ := h v hv
    obtain ⟨l, hl⟩ := hall v hv
    rw [hk] at hl
    exact RelationKind.name_ne_heading k l (by simpa [Value.text] using hl)
  · rintro rfl v hv
    cases hv

/-! ### Checked relations -/

/-- A relation has passed a check against known classes. -/
def IsChecked (known : List Atom) (v : Value) : Prop :=
  (do (← RelationKey.ofValue v).isValid known) = (.ok true : Loose Bool)

theorem IsChecked.hasKind {known : List Atom} (h : IsChecked known v) : HasKind v := by
  obtain ⟨key, hkey, h⟩ := of_bind h
  obtain ⟨source, _, hkey⟩ := of_bind hkey
  obtain ⟨target, _, hkey⟩ := of_bind hkey
  obtain ⟨kind, hkind, hkey⟩ := of_bind hkey
  cases hkey
  unfold RelationKey.isValid at h
  split at h
  · cases h
  · dsimp only at h
    split at h
    · cases h
    next hk => exact ⟨.dependency, hkind.trans (congrArg _ (RelationKind.eq_text_of_ofName? hk))⟩
    next k _ hk => exact ⟨k, hkind.trans (congrArg _ (RelationKind.eq_text_of_ofName? hk))⟩

/-- **Relations of valid types are not gathered.**  There is a heading for each kind, but none is over a relation, so
that relations are lost unless there are none.  The statistics of relations that have passed a check exist where these
join texts; they show how many there are, and count none of them under a heading. -/
theorem categorize_valid (vs : List Value) (hvs : ∀ v ∈ vs, HasKind v) (r : Register)
    (hr : ∀ v ∈ r.relations, IsChecked r.known v) :
    (∃ gs, categorize vs = .ok gs ∧ gs.map (·.1) = RelationKind.all.map (·.heading) ∧ (∀ g ∈ gs, g.2 = []) ∧
      (IsPartition gs vs ↔ vs = [])) ∧
    ((∀ v ∈ r.relations, HasTextEnds v) → ∃ stats, r.statistics = .ok stats) ∧
    ∀ stats, r.statistics = .ok stats → ∃ cs : List (String × Nat),
      stats.get "total_relationships" = .ok (.nat r.relations.length) ∧
      stats.get "by_type" = .ok (.ofFields (cs.map fun c => (c.1, .nat c.2))) ∧ cs = [] ∧
      (total cs = r.relations.length ↔ r.relations = []) := by
  constructor
  · have hwords : ∀ v ∈ vs, HasWord v := fun v hv => (hvs v hv).hasWord
    refine ⟨groups vs, categorize_eq hwords, ?_, fun g hg => ?_, ?_⟩
    · rw [groups, List.map_map]
      rfl
    · obtain ⟨k, _, rfl⟩ := List.mem_map.mp hg
      exact bucket_eq_nil hvs k
    · rw [isPartition_iff hwords, forall_hasHeading_iff hvs]
  · have hkinds : ∀ v ∈ r.relations, HasKind v := fun v hv => (hr v hv).hasKind
    have hwords : ∀ v ∈ r.relations, HasWord v := fun v hv => (hkinds v hv).hasWord
    refine ⟨exists_statistics hwords, fun stats hstats => ?_⟩
    obtain ⟨htotal, hcounts⟩ := statistics_ok hwords hstats
    refine ⟨counts r.relations, htotal, hcounts, ?_, ?_⟩
    · rw [counts, List.map_eq_nil_iff, List.filter_eq_nil_iff]
      intro g hg
      obtain ⟨k, _, rfl⟩ := List.mem_map.mp hg
      simp [bucket_eq_nil hkinds k]
    · rw [total_counts_eq_iff hwords, forall_hasHeading_iff hkinds]

def pets : Register where
  relations := [("Animal", "Dog", "extends"), ("Animal", "Cat", "extends")].map
    fun e => .ofFields [("from", .text e.1), ("to", .text e.2.1), ("type", .text e.2.2)]
  known := [.text "Animal", .text "Dog", .text "Cat"]

theorem pets_isChecked : ∀ v ∈ pets.relations, IsChecked pets.known v := by
  simp only [pets, map_cons, map_nil, forall_mem_cons]
  exact ⟨rfl, rfl, by simp⟩

theorem categorize_valid_pets :
    (∀ v ∈ pets.relations, IsChecked pets.known v) ∧ (∃ gs, categorize pets.relations = .ok gs ∧ ∀ g ∈ gs, g.2 = []) ∧
      ∃ stats, pets.statistics = .ok stats ∧ stats.get "total_relationships" = .ok (.nat 2) ∧
        stats.get "by_type" = .ok (.ofFields []) := by
  have hends : ∀ v ∈ pets.relations, HasTextEnds v := by
    simp only [pets, List.map_cons, List.map_nil, List.forall_mem_cons]
    exact ⟨⟨_, _, rfl, rfl⟩, ⟨_, _, rfl, rfl⟩, by simp⟩
  obtain ⟨⟨gs, hgs, _, hnone, _⟩, hexists, hall⟩ :=
    categorize_valid pets.relations (fun v hv => (pets_isChecked v hv).hasKind) pets pets_isChecked
  obtain ⟨stats, hstats⟩ := hexists hends
  obtain ⟨cs, htotal, hcounts, rfl, _⟩ := hall stats hstats
  exact ⟨pets_isChecked, ⟨gs, hgs, hnone⟩, stats, hstats, htotal, hcounts⟩

/-- Of two relations that have passed a check none is gathered. -/
theorem categorize_loses_checked : (∀ v ∈ pets.relations, IsChecked pets.known v) ∧
    ∃ gs, categorize pets.relations = .ok gs ∧ gathered gs = [] ∧ ¬ IsPartition gs pets.relations := by
  refine ⟨pets_isChecked, _, rfl, rfl, fun h => ?_⟩
  exact absurd h.perm.length_eq (by decide)

end Register

end CodeAtlas
