import CodeAtlas.Proofs.Analysis.SharedWorkbench
import CodeAtlas.Proofs.Language.PythonMembers
import Mathlib.Data.Set.Card

/-!
# The order of class definitions

A Python program is walked level by level, and a class is known only to the classes that are met after it.  So its
relations may depend on the order of its definitions: where a class refers to one of the same depth in another
definition, the reference counts only if that definition comes first.

* **`detects_perm_iff`**: the programs whose relations do not depend on the order of their definitions.
-/

namespace CodeAtlas

open List Findings

/-! ### Orders that avoid a relation -/

section

variable {α : Type} {r : α → α → Prop} {l : List α}

theorem exists_perm_of_no_circle (hmem : ∀ a b, r a b → b ∈ l) (hcircle : ∀ a, ¬ Relation.TransGen r a a) :
    ∃ l' : List α, l'.Perm l ∧ l'.Pairwise fun a b => ¬ r a b := by
  -- what leads to more elements comes later
  let rank := fun a => {x | x ∈ l ∧ Relation.TransGen r a x}.ncard
  have hrank : ∀ a b, r a b → rank b < rank a := by
    intro a b hab
    refine Set.ncard_lt_ncard ⟨fun x hx => ⟨hx.1, hx.2.head hab⟩, fun hsub => ?_⟩
      (l.finite_toSet.subset fun x hx => hx.1)
    exact hcircle b (hsub ⟨hmem a b hab, .single hab⟩).2
  refine ⟨l.mergeSort fun a b => decide (rank a ≤ rank b), mergeSort_perm _ _, ?_⟩
  have hsorted :
      (l.mergeSort fun a b => decide (rank a ≤ rank b)).Pairwise fun a b => decide (rank a ≤ rank b) = true :=
    pairwise_mergeSort (fun a b c hab hbc => by simp only [decide_eq_true_eq] at *; omega)
      (fun a b => by simp only [Bool.or_eq_true, decide_eq_true_eq]; omega) l
  exact hsorted.imp fun hle hab => absurd (hrank _ _ hab) (Nat.not_lt.mpr (of_decide_eq_true hle))

theorem exists_sublist_of_circle (hmem : ∀ a b, r a b → a ∈ l ∧ b ∈ l ∧ a ≠ b) {a : α}
    (hcircle : Relation.TransGen r a a) : ∃ a b, [a, b].Sublist l ∧ r a b := by
  classical
  by_contra hnone
  have hbefore : l.Pairwise fun a b => [a, b].Sublist l := pairwise_iff_forall_sublist.mpr id
  have hlt : ∀ a b, r a b → l.idxOf b < l.idxOf a := by
    intro a b hab
    obtain ⟨ha, hb, hne⟩ := hmem a b hab
    refine Nat.lt_of_le_of_ne (Nat.le_of_not_lt fun hlt => hnone ⟨a, b, ?_, hab⟩) fun heq => hne ?_
    · have hpair := pairwise_iff_getElem.mp hbefore _ _ (idxOf_lt_length_of_mem ha)
        (idxOf_lt_length_of_mem hb) hlt
      rwa [getElem_idxOf, getElem_idxOf] at hpair
    · exact (idxOf_inj ha).mp heq.symm
  have hcircle : Relation.TransGen (· > ·) (l.idxOf a) (l.idxOf a) := hcircle.lift l.idxOf hlt
  rw [Relation.transGen_eq_self] at hcircle
  exact Nat.lt_irrefl _ hcircle

/-- **Whether a related pair stands in every order or in none** is told by the circles. -/
theorem sublist_perm_iff (hmem : ∀ a b, r a b → a ∈ l ∧ b ∈ l ∧ a ≠ b) :
    (∀ l' : List α, l'.Perm l → ((∃ a b, [a, b].Sublist l' ∧ r a b) ↔ ∃ a b, [a, b].Sublist l ∧ r a b)) ↔
      ((∃ a b, r a b) → ∃ a, Relation.TransGen r a a) := by
  constructor
  · rintro h ⟨a, b, hab⟩
    by_contra hcircle
    obtain ⟨ha, hb, hne⟩ := hmem a b hab
    have hsubperm : [a, b].Subperm l := subperm_of_subset (by simpa using hne) (by simp [ha, hb])
    obtain ⟨first, hfirst, hsub⟩ := subperm_iff.mp hsubperm
    obtain ⟨last, hlast, hnone⟩ := exists_perm_of_no_circle (fun a b hab => (hmem a b hab).2.1) (not_exists.mp hcircle)
    obtain ⟨a, b, hsub, hab⟩ := (h last hlast).mpr ((h first hfirst).mp ⟨a, b, hsub, hab⟩)
    exact pairwise_iff_forall_sublist.mp hnone hsub hab
  · intro h l' hperm
    constructor
    · rintro ⟨a, b, _, hab⟩
      exact exists_sublist_of_circle hmem (h ⟨a, b, hab⟩).choose_spec
    · rintro ⟨a, b, _, hab⟩
      simp only [← hperm.mem_iff] at hmem
      exact exists_sublist_of_circle hmem (h ⟨a, b, hab⟩).choose_spec

end

/-! ### Pairs in lists -/

theorem sublist_pair_cons {α : Type} {as : List α} {a b c : α} :
    [a, b].Sublist (c :: as) ↔ [a, b].Sublist as ∨ (a = c ∧ b ∈ as) := by
  simp [sublist_cons_iff]

theorem sublist_pair_flatMap {α β : Type} {g : α → List β} {as : List α} {x y : β} :
    [x, y].Sublist (as.flatMap g) ↔
      (∃ a ∈ as, [x, y].Sublist (g a)) ∨ ∃ a b, [a, b].Sublist as ∧ x ∈ g a ∧ y ∈ g b := by
  induction as with
  | nil => simp
  | cons c as ih =>
    simp only [flatMap_cons, sublist_pair_append, ih, sublist_pair_cons, exists_mem_cons_iff, mem_flatMap]
    grind

namespace Python

/-! ### Levels of trees -/

section

variable {ns : List Node} {x y : Node} {a b : String} {k : RelationKind}

theorem Node.mem_levels_of_child (hx : x ∈ levels ns) (hy : y ∈ x.children) : y ∈ levels ns := by
  fun_induction levels ns with
  | case1 => cases hx
  | case2 n ns ih =>
    refine mem_append_right _ ?_
    rcases mem_append.mp hx with hx | hx
    · exact mem_levels.mpr ⟨0, flatMap_level_zero _ ▸ mem_flatMap.mpr ⟨x, hx, hy⟩⟩
    · exact ih hx

/-- **What is met before what**: what is less deep, and at one depth what stands before it. -/
theorem Node.sublist_pair_levels : [x, y].Sublist (levels ns) ↔ (∃ d, [x, y].Sublist (ns.flatMap (level d))) ∨
      ∃ d d', d < d' ∧ x ∈ ns.flatMap (level d) ∧ y ∈ ns.flatMap (level d') := by
  fun_induction levels ns with
  | case1 => simp
  | case2 n ns ih =>
    rw [sublist_pair_append, ih, mem_levels]
    constructor
    · rintro (h | (⟨d, h⟩ | ⟨d, d', hd, hx, hy⟩) | ⟨hx, d, hy⟩)
      · exact .inl ⟨0, by rwa [flatMap_level_zero]⟩
      · exact .inl ⟨d + 1, by rwa [flatMap_level_succ]⟩
      · exact .inr ⟨d + 1, d' + 1, by omega, by rwa [flatMap_level_succ], by rwa [flatMap_level_succ]⟩
      · exact .inr ⟨0, d + 1, by omega, by rwa [flatMap_level_zero], by rwa [flatMap_level_succ]⟩
    · rintro (⟨d, h⟩ | ⟨d, d', hd, hx, hy⟩)
      · cases d with
        | zero => exact .inl (by rwa [flatMap_level_zero] at h)
        | succ d => exact .inr (.inl (.inl ⟨d, by rwa [flatMap_level_succ] at h⟩))
      · obtain ⟨e, rfl⟩ : ∃ e, d' = e + 1 := ⟨d' - 1, by omega⟩
        rw [flatMap_level_succ] at hy
        cases d with
        | zero => exact .inr (.inr ⟨by rwa [flatMap_level_zero] at hx, e, hy⟩)
        | succ d =>
          rw [flatMap_level_succ] at hx
          exact .inr (.inl (.inr ⟨d, e, by omega, hx, hy⟩))

/-! ### References to classes that are met before -/

def className? : Node → Option String
  | .classDef name _ _ _ _ => some name.text
  | _ => none

/-- Among some nodes, a class refers to one that is defined before it. -/
def RefersBack (ns : List Node) (a b : String) (k : RelationKind) : Prop :=
  ∃ m n, [m, n].Sublist ns ∧ className? m = some b ∧ RefersAmong [n] a b k

theorem not_refersBack_nil : ¬ RefersBack [] a b k := by
  simp [RefersBack]

theorem refersBack_cons {n : Node} :
    RefersBack (n :: ns) a b k ↔ RefersBack ns a b k ∨ (className? n = some b ∧ RefersAmong ns a b k) := by
  simp only [RefersBack, sublist_pair_cons, or_and_right, exists_or, refersAmong_iff ns]
  grind

end

section

variable (package : String) (n : Node)

theorem has_cls_singleton_iff {b : String} :
    (classesOf package {} [n]).2.Has (.cls b) ↔ className? n = some b := by
  rcases definesNone_or n with hn | ⟨name, bases, keywords, body, decorators, rfl⟩
  · rw [classesOf_cons_of_definesNone package hn, className?.eq_2 n hn]
    simp [classesOf, readEach, not_has_empty]
  · rw [classesOf_classDef]
    simp [classesOf, readEach, has_addClass, has_classEntry_iff, not_has_empty, className?, eq_comm]

theorem not_has_observed_singleton {r : Relation} : ¬ (classesOf package {} [n]).2.Has (.observed r) := by
  rcases definesNone_or n with hn | ⟨name, bases, keywords, body, decorators, rfl⟩
  · rw [classesOf_cons_of_definesNone package hn]
    exact not_has_empty _
  · rw [classesOf_classDef]
    simp [classesOf, readEach, has_addClass, has_classEntry_iff, not_has_empty]

theorem classesOf_cons (f : Findings) (ns : List Node) :
    (classesOf package f (n :: ns)).2 = (classesOf package (classesOf package f [n]).2 ns).2 := by
  rcases definesNone_or n with hn | ⟨name, bases, keywords, body, decorators, rfl⟩
  · rw [classesOf_cons_of_definesNone package hn, classesOf_cons_of_definesNone package hn]
    rfl
  · rfl

end

/-- **What nodes add**: each what it adds by itself, and the references to classes before it. -/
theorem has_classesOf_empty_iff (package : String) (ns : List Node) (x : Finding) :
    (classesOf package {} ns).2.Has x ↔ (∃ n ∈ ns, (classesOf package {} [n]).2.Has x) ∨
      ∃ a b k, RefersBack ns a b k ∧ x = .observed ⟨a, b, k.name, some "heuristic"⟩ := by
  induction ns with
  | nil => simp [classesOf, readEach, not_has_empty, not_refersBack_nil]
  | cons n ns ih =>
    rw [classesOf_cons, has_classesOf_iff, ih, exists_mem_cons_iff, or_assoc]
    simp only [refersBack_cons, Recalls, has_cls_singleton_iff, or_and_right, exists_or, or_assoc, and_comm, and_assoc]

/-! ### Programs -/

/-- The classes of a program with some statements, and what it shows when it is read by itself. -/
def programClasses (package : String) (ns : List Node) : List ClassEntry × Findings := classesIn (.file ns) package {}

/-- A program has a relation of a kind between two classes. -/
def Detects (package : String) (ns : List Node) (a b kind : String) : Prop :=
  ∃ rs, (({} : Workbench).put .python (programClasses package ns).2).relationsIn .python
      (.list ((programClasses package ns).1.map ClassEntry.toValue)) = .ok rs ∧ ∃ r ∈ rs, r.Links a b kind

section

variable {package : String} {ns ns' : List Node} {a b kind : String} {k : RelationKind} {x : Finding}

theorem programClasses_eq : programClasses package ns =
    classesOf package (((Node.levels ns).flatMap importsOf).foldl Findings.addImport {}) (Node.levels ns) := by
  have hwalk : (Node.file ns).walk = .file ns :: Node.levels ns := by simp [Node.walk, Node.levels, Node.children]
  rw [programClasses, classesIn, hwalk]
  rfl

theorem has_programClasses_iff : (programClasses package ns).2.Has x ↔
    (∃ i ∈ (Node.levels ns).flatMap importsOf, x = .imported i) ∨
      (∃ n ∈ Node.levels ns, (classesOf package {} [n]).2.Has x) ∨
      ∃ a b k, RefersBack (Node.levels ns) a b k ∧ x = .observed ⟨a, b, k.name, some "heuristic"⟩ := by
  have himports : ∀ x, (((Node.levels ns).flatMap importsOf).foldl Findings.addImport {}).Has x ↔
      ∃ i ∈ (Node.levels ns).flatMap importsOf, x = .imported i := by
    intro x
    rw [has_foldl fun _ i _ => has_addImport (n := i), or_iff_right (not_has_empty x)]
  have hunknown : (fun b => (((Node.levels ns).flatMap importsOf).foldl Findings.addImport {}).Has (.cls b)) =
      fun _ => False := by
    funext b
    simp [himports]
  rw [programClasses_eq, has_classesOf_iff, himports, has_classesOf_empty_iff, hunknown, or_iff_left not_recalls]

theorem has_observed_programClasses_iff {r : Relation} : (programClasses package ns).2.Has (.observed r) ↔
    ∃ a b k, RefersBack (Node.levels ns) a b k ∧ r = ⟨a, b, k.name, some "heuristic"⟩ := by
  simp [has_programClasses_iff, not_has_observed_singleton]

theorem has_programClasses_perm (h : ns'.Perm ns) (hx : ∀ r, x ≠ .observed r) :
    (programClasses package ns').2.Has x ↔ (programClasses package ns).2.Has x := by
  have hmem : ∀ n, n ∈ Node.levels ns' ↔ n ∈ Node.levels ns := by
    intro n
    simp only [Node.mem_levels, mem_flatMap, h.mem_iff]
  simp only [has_programClasses_iff, hx, mem_flatMap, hmem, and_false, exists_false, or_false]

theorem detects_iff : Detects package ns a b kind ↔ (programClasses package ns).2.Relates a b kind ∨
    (kind = "dependency" ∧ a = b ∧ (programClasses package ns).2.Has (.imported a) ∧
      (programClasses package ns).2.Has (.cls a)) := by
  have hknown : (programClasses package ns).2.Has (.cls a) ↔
      ((programClasses package ns).1.map (·.name)).contains a = true := by
    rw [programClasses_eq, has_cls_classesOf_iff, contains_iff_mem,
      has_foldl fun _ i _ => has_addImport (n := i)]
    simp [not_has_empty]
  rw [Detects, Workbench.relationsIn_toValue, hknown, ← exists_mem_relationsPlain_iff]
  constructor
  · rintro ⟨_, hrs, h⟩
    cases hrs
    exact h
  · exact fun h => ⟨_, rfl, h⟩

theorem detects_name_iff (package : String) (hk : k = .composition ∨ k = .uses) :
    Detects package ns a b k.name ↔ RefersBack (Node.levels ns) a b k := by
  rw [detects_iff]
  constructor
  · rintro (⟨r, hr | hr, ha, hb, hkind⟩ | ⟨hkind, _⟩)
    · rw [programClasses_eq] at hr
      rcases classesOf_regular package _ _ hr with hr | hr
      · simp [has_foldl fun _ i _ => has_addImport (n := i), not_has_empty] at hr
      · rcases hk with rfl | rfl <;> rcases hr with hr | hr <;> exact absurd (hkind.symm.trans hr) (by decide)
    · obtain ⟨a', b', k', hback, rfl⟩ := has_observed_programClasses_iff.mp hr
      obtain rfl := RelationKind.name_injective hkind
      exact ha ▸ hb ▸ hback
    · rcases hk with rfl | rfl <;> exact absurd hkind (by decide)
  · exact fun h => .inl ⟨_, .inr (has_observed_programClasses_iff.mpr ⟨a, b, k, h, rfl⟩), rfl, rfl, rfl⟩

theorem detects_congr (h : ns'.Perm ns)
    (hback : ∀ a b k, RefersBack (Node.levels ns') a b k ↔ RefersBack (Node.levels ns) a b k) :
    Detects package ns' a b kind ↔ Detects package ns a b kind := by
  have hsame : ∀ x, (programClasses package ns').2.Has x ↔ (programClasses package ns).2.Has x := by
    intro x
    cases x with
    | observed r => simp only [has_observed_programClasses_iff, hback]
    | _ => exact has_programClasses_perm h fun r hr => by cases hr
  simp only [detects_iff, Findings.Relates, hsame]

/-! ### References between definitions -/

def classNames (ns : List Node) : List String := ns.filterMap className?

/-- At one depth, a definition has a class and another one refers to it. -/
def RefersInto (a b : String) (k : RelationKind) (m n : Node) : Prop :=
  ∃ d, b ∈ classNames (m.level d) ∧ RefersAmong (n.level d) a b k

/-- A reference counts in every order of the definitions: the class is less deep, or is met before in one definition. -/
def Settled (ns : List Node) (a b : String) (k : RelationKind) : Prop :=
  (∃ d d', d < d' ∧ (∃ m ∈ ns, b ∈ classNames (m.level d)) ∧ ∃ n ∈ ns, RefersAmong (n.level d') a b k) ∨
    ∃ n ∈ ns, ∃ d, RefersBack (n.level d) a b k

/-- Of two definitions of a program, one refers into the other. -/
def Crosses (ns : List Node) (a b : String) (k : RelationKind) (m n : Node) : Prop :=
  m ∈ ns ∧ n ∈ ns ∧ m ≠ n ∧ RefersInto a b k m n

theorem settled_perm (h : ns'.Perm ns) : Settled ns' a b k ↔ Settled ns a b k := by
  simp only [Settled, h.mem_iff]

theorem refersBack_levels_iff : RefersBack (Node.levels ns) a b k ↔
    Settled ns a b k ∨ ∃ m n, [m, n].Sublist ns ∧ RefersInto a b k m n := by
  simp only [RefersBack, Node.sublist_pair_levels, sublist_pair_flatMap, mem_flatMap, Settled, RefersInto, classNames,
    mem_filterMap, refersAmong_iff (Node.level _ _)]
  grind

theorem RefersBack.isReference (h : RefersBack ns a b k) : k = .composition ∨ k = .uses := by
  obtain ⟨_, _, _, _, _, _, _, _, _, _, _, _, ⟨hk, _⟩ | ⟨hk, _⟩⟩ := h
  · exact .inr hk
  · exact .inl hk

theorem RefersAmong.uses (h : RefersAmong ns a b .composition) : RefersAmong ns a b .uses := by
  obtain ⟨name, bases, keywords, body, decorators, hmem, ha, hne, ⟨hk, _⟩ | ⟨_, args, keywords', hcall⟩⟩ := h
  · cases hk
  · refine ⟨name, bases, keywords, body, decorators, hmem, ha, hne, .inl ⟨rfl, ?_⟩⟩
    obtain ⟨s, hs, hcall⟩ := mem_flatMap.mp hcall
    exact mem_flatMap.mpr ⟨s, hs, Node.mem_levels_of_child hcall mem_cons_self⟩

theorem exists_refersInto_iff (hnodup : ns.Nodup) (hperm : ns'.Perm ns) :
    (∃ m n, [m, n].Sublist ns' ∧ RefersInto a b k m n) ↔ ∃ m n, [m, n].Sublist ns' ∧ Crosses ns a b k m n := by
  refine exists_congr fun m => exists_congr fun n => and_congr_right fun hsub => ?_
  have hm : m ∈ ns := hperm.mem_iff.mp (hsub.subset (by simp))
  have hn : n ∈ ns := hperm.mem_iff.mp (hsub.subset (by simp))
  have hne : m ≠ n := pairwise_iff_forall_sublist.mp (hperm.nodup_iff.mpr hnodup) hsub
  rw [Crosses, and_iff_right hm, and_iff_right hn, and_iff_right hne]

theorem detects_same_iff : (∀ ns' : List Node, ns'.Perm ns → ∀ a b kind,
      Detects package ns' a b kind ↔ Detects package ns a b kind) ↔
    ∀ a b k, ∀ ns' : List Node, ns'.Perm ns →
      (RefersBack (Node.levels ns') a b k ↔ RefersBack (Node.levels ns) a b k) := by
  constructor
  · intro h a b k ns' hperm
    have hiff : k = .composition ∨ k = .uses →
        (RefersBack (Node.levels ns') a b k ↔ RefersBack (Node.levels ns) a b k) := by
      intro hk
      rw [← detects_name_iff package hk, ← detects_name_iff package hk]
      exact h ns' hperm a b k.name
    exact ⟨fun hback => (hiff hback.isReference).mp hback, fun hback => (hiff hback.isReference).mpr hback⟩
  · intro h ns' hperm a b kind
    exact detects_congr hperm fun a b k => h a b k ns' hperm

/-- The order matters for a reference unless it is settled, or there is none between definitions, or there is a circle
of them. -/
theorem refersBack_perm_iff (hnodup : ns.Nodup) : (∀ ns' : List Node, ns'.Perm ns →
      (RefersBack (Node.levels ns') a b k ↔ RefersBack (Node.levels ns) a b k)) ↔
    ((∃ m n, Crosses ns a b k m n) → Settled ns a b k ∨ ∃ n, Relation.TransGen (Crosses ns a b k) n n) := by
  by_cases hsettled : Settled ns a b k
  · have hback : ∀ ns' : List Node, ns'.Perm ns → RefersBack (Node.levels ns') a b k := fun ns' hperm =>
      refersBack_levels_iff.mpr (.inl ((settled_perm hperm).mpr hsettled))
    exact iff_of_true (fun ns' hperm => iff_of_true (hback ns' hperm) (hback ns (.refl ns))) fun _ => .inl hsettled
  · have hback : ∀ ns' : List Node, ns'.Perm ns → (RefersBack (Node.levels ns') a b k ↔
        ∃ m n, [m, n].Sublist ns' ∧ Crosses ns a b k m n) := by
      intro ns' hperm
      rw [refersBack_levels_iff, settled_perm hperm, or_iff_right hsettled, exists_refersInto_iff hnodup hperm]
    rw [or_iff_right hsettled, ← sublist_perm_iff fun m n h => ⟨h.1, h.2.1, h.2.2.1⟩]
    exact forall₂_congr fun ns' hperm => by rw [hback ns' hperm, hback ns (.refl ns)]

end

/-- **When the relations of a program do not depend on the order of its definitions.**  It is so exactly if every
reference from one definition into another one, at the same depth, counts in every order: because it is settled, or
because such references go round in a circle.  A class that calls another one holds and uses it if the other one is
defined before it. -/
theorem detects_perm_iff (package : String) {ns : List Node} (hnames : (ns.map className?).Nodup) :
    ((∀ ns' : List Node, ns'.Perm ns → ∀ a b kind, Detects package ns' a b kind ↔ Detects package ns a b kind) ↔
      ∀ a b k, (∃ m n, Crosses ns a b k m n) → Settled ns a b k ∨ ∃ n, Relation.TransGen (Crosses ns a b k) n n) ∧
    ∀ m n, [m, n].Sublist ns → ∀ a b, className? m = some b → RefersAmong [n] a b .composition →
      Detects package ns a b "composition" ∧ Detects package ns a b "uses" := by
  have hnodup : ns.Nodup := hnames.of_map
  refine ⟨detects_same_iff.trans ?_, ?_⟩
  · exact forall_congr' fun a => forall_congr' fun b => forall_congr' fun k => refersBack_perm_iff hnodup
  · intro m n hsub a b hb hcall
    have hback : ∀ k, RefersAmong [n] a b k → RefersBack (Node.levels ns) a b k := by
      intro k hrefers
      refine refersBack_levels_iff.mpr (.inr ⟨m, n, hsub, 0, ?_, hrefers⟩)
      exact List.mem_filterMap.mpr ⟨m, List.mem_singleton_self m, hb⟩
    exact ⟨(detects_name_iff package (.inl rfl)).mpr (hback _ hcall),
      (detects_name_iff package (.inr rfl)).mpr (hback _ hcall.uses)⟩

/-- A class `Invoice`. -/
def invoice : Node := .classDef ⟨"Invoice", by decide⟩ [] [] [.plainStmt] []

def order : Node := .classDef ⟨"Order", by decide⟩ [] [] [.functionDef false "pay"
  (.parameters [] [.parameter none] none [] [] none []) [.returnStmt (some (.call (.name "Invoice") [] []))] [] none] []

theorem refersAmong_order : RefersAmong [order] "Order" "Invoice" .composition := by
  refine ⟨_, _, _, _, _, mem_singleton_self _, rfl, by decide, .inr ⟨rfl, [], [], ?_⟩⟩
  simp [methodParts, methodName?, Node.walk, Node.levels, Node.children]

theorem detects_perm_shop : ([invoice, order].map className?).Nodup ∧
    Detects "" [invoice, order] "Order" "Invoice" "composition" ∧
    Detects "" [invoice, order] "Order" "Invoice" "uses" :=
  ⟨by decide, (detects_perm_iff "" (by decide)).2 invoice order (.refl _) _ _ rfl refersAmong_order⟩

/-- A class that is defined after the one that calls it is not found. -/
theorem not_detects_later : [order, invoice].Perm [invoice, order] ∧
    ¬ Detects "" [order, invoice] "Order" "Invoice" "composition" ∧
    ¬ Detects "" [order, invoice] "Order" "Invoice" "uses" := by
  have hback : ∀ k, ¬ RefersBack (Node.levels [order, invoice]) "Order" "Invoice" k := by
    intro k
    simp [order, invoice, Node.levels, Node.children, not_refersBack_nil, refersBack_cons, className?, RefersAmong]
  exact ⟨.swap .., mt (detects_name_iff "" (.inl rfl)).mp (hback _), mt (detects_name_iff "" (.inr rfl)).mp (hback _)⟩

end Python

end CodeAtlas
