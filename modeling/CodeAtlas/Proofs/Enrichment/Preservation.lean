import CodeAtlas.Proofs.Enrichment.Items
import CodeAtlas.Proofs.Value.Equality

/-!
# Items that are kept when schemas are merged

Of the items of a schema that have one key the first is kept, and the others are dropped, whatever else they say.

* `ItemKey.same_symm`, `ItemKey.same_trans`: sameness of keys made of atoms is an equivalence;
* `Merge.Preserves`, **`Merge.schemas_preserves`**: when all items of a schema are in the merged one.
-/

namespace CodeAtlas

open List Value ItemKey

/-! ### Keys -/

namespace ItemKey

/-- Lists of atoms that are the same as one list are the same. -/
theorem sameList_join {us vs ws : List Value} (hus : ∀ u ∈ us, ∃ a, u = .atom a) (hvs : ∀ v ∈ vs, ∃ a, v = .atom a)
    (hws : ∀ w ∈ ws, ∃ a, w = .atom a) (h : sameList us vs) (h' : sameList us ws) :
    sameList vs ws := by
  induction us generalizing vs ws with
  | nil =>
    cases vs with
    | nil => exact h'
    | cons v vs => cases h
  | cons u us ih =>
    cases vs with
    | nil => cases h
    | cons v vs =>
      cases ws with
      | nil => cases h'
      | cons w ws =>
        obtain ⟨⟨a, rfl⟩, hus'⟩ := forall_mem_cons.mp hus
        obtain ⟨⟨b, rfl⟩, hvs'⟩ := forall_mem_cons.mp hvs
        obtain ⟨⟨c, rfl⟩, hws'⟩ := forall_mem_cons.mp hws
        rw [sameList, Value.same, Bool.and_eq_true] at h h' ⊢
        exact ⟨Atom.same_trans (Atom.same_symm h.1) h'.1, ih hus' hvs' hws' h.2 h'.2⟩

variable {k l m : ItemKey}

/-- The kind of a key, and the lists of values by which keys of one kind are compared. -/
def split : ItemKey → Bool × List Value × List Value
  | whole v => (true, [v], [])
  | parts vs ms => (false, vs, ms)

theorem same_iff : k.same l ↔ k.split.1 = l.split.1 ∧ sameList k.split.2.1 l.split.2.1 ∧
    sameList k.split.2.2 l.split.2.2 := by
  cases k <;> cases l <;> simp [same, split, sameList]

theorem IsAtomic.split (hk : k.IsAtomic) :
    (∀ v ∈ k.split.2.1, ∃ a, v = .atom a) ∧ ∀ v ∈ k.split.2.2, ∃ a, v = .atom a := by
  cases k with
  | whole v => exact ⟨hk, fun w hw => absurd hw not_mem_nil⟩
  | parts vs ms => exact forall_mem_append.mp hk

theorem same_join (hk : k.IsAtomic) (hl : l.IsAtomic) (hm : m.IsAtomic) (h : k.same l) (h' : k.same m) :
    l.same m := by
  rw [same_iff] at h h' ⊢
  exact ⟨h.1.symm.trans h'.1, sameList_join hk.split.1 hl.split.1 hm.split.1 h.2.1 h'.2.1,
    sameList_join hk.split.2 hl.split.2 hm.split.2 h.2.2 h'.2.2⟩

theorem same_symm (hk : k.IsAtomic) (hl : l.IsAtomic) (h : k.same l) : l.same k :=
  same_join hk hl hk h (same_self hk)

theorem same_trans (hk : k.IsAtomic) (hl : l.IsAtomic) (hm : m.IsAtomic) (h : k.same l) (h' : l.same m) :
    k.same m := same_join hl hk hm (same_symm hk hl h) h'

end ItemKey

namespace Merge

variable {key : Value → Loose ItemKey} {ast ai m i j u : Value} {as bs : List Value}

/-! ### The first item of a key -/

def leader? (key : Value → Loose ItemKey) (items : List Value) (i : Value) : Option Value :=
  items.find? fun j => (keyOf key j).same (keyOf key i)

theorem exists_leader (hall : ∀ i ∈ present as, (keyOf key i).IsAtomic) (hi : i ∈ present as) :
    ∃ j, leader? key (present as) i = some j := by
  refine Option.isSome_iff_exists.mp ?_
  rw [leader?, find?_isSome]
  exact ⟨i, hi, same_self (hall i hi)⟩

theorem mem_of_leader (h : leader? key (present as) i = some j) :
    j ∈ present as ∧ (keyOf key j).same (keyOf key i) :=
  ⟨mem_of_find?_eq_some h, find?_some (p := fun j => (keyOf key j).same (keyOf key i)) h⟩

theorem leader_mem_firstItems (bs : List Value) (hall : ∀ i ∈ present as, (keyOf key i).IsAtomic)
    (hi : i ∈ present as) (h : leader? key (present as) i = some j) : j ∈ firstItems key (as ++ bs) := by
  obtain ⟨hj, hsame⟩ := mem_of_leader h
  obtain ⟨_, before, after, heq, hbefore⟩ := find?_eq_some_iff_append.mp h
  rw [firstItems, present_append, heq, append_assoc, cons_append]
  refine mem_firsts_of_new fun k hk => ?_
  have hk' : k ∈ present as := by
    rw [heq]
    exact mem_append_left _ hk
  rw [← Bool.not_eq_true]
  intro hkj
  have hki := same_trans (hall k hk') (hall j hj) (hall i hi) hkj hsame
  exact absurd hki (by simpa using hbefore k hk)

theorem eq_leader (hall : ∀ i ∈ present (as ++ bs), (keyOf key i).IsAtomic) (hi : i ∈ present as)
    (h : leader? key (present as) i = some j) (hu : u ∈ firstItems key (as ++ bs))
    (hsame : (keyOf key u).same (keyOf key i)) : u = j := by
  have hsub : ∀ k ∈ present as, k ∈ present (as ++ bs) := fun k hk => by
    rw [present_append]
    exact mem_append_left _ hk
  have hleader := leader_mem_firstItems bs (fun k hk => hall k (hsub k hk)) hi h
  obtain ⟨hj, hsame'⟩ := mem_of_leader h
  have hkj := hall j (hsub j hj)
  have hki := hall i (hsub i hi)
  have hku := hall u (mem_of_mem_firsts hu)
  have huj := same_trans hku hki hkj hsame (same_symm hkj hki hsame')
  exact eq_of_mem_firsts hu hleader huj (same_symm hku hkj huj)

/-! ### Items of the usual shape -/

/-- An item of the usual shape: a record with different keys, whose classes are a list or a text, if there are any. -/
def isPlain : Value → Bool
  | .record fs =>
    let classes := (Value.record fs).part "classes"
    decide ((fs.map (·.1)).Pairwise fun a b => a.same b = false) &&
      (!classes.truthy || classes.isList || classes.text?.isSome)
  | _ => false

theorem recordOf_record (fs : Record) : recordOf (.record fs) = .record fs := by cases fs <;> rfl

theorem exists_items {c d : Value} (h : c.same d) (hc : (!c.truthy || c.isList || c.text?.isSome)) :
    ∃ xs ys, (c.orElse (.list [])).items = .ok xs ∧ (d.orElse (.list [])).items = .ok ys ∧
      sameList xs ys := by
  have htruthy := Value.truthy_of_same h
  unfold orElse
  rw [← htruthy]
  by_cases hpresent : c.truthy = true
  · rw [if_pos hpresent, if_pos hpresent]
    rw [hpresent, Bool.not_true, Bool.false_or, Bool.or_eq_true] at hc
    rcases hc with hlist | htext
    · cases c with
      | atom a => cases hlist
      | record fs => cases hlist
      | list xs =>
        cases d with
        | atom b => cases h
        | record gs => cases h
        | list ys =>
          exact ⟨xs, ys, rfl, rfl, h⟩
    · obtain ⟨s, hs⟩ := Option.isSome_iff_exists.mp htext
      obtain rfl := text?_eq_some_iff.mp hs
      cases d with
      | list ys => cases h
      | record gs => cases h
      | atom b =>
        obtain rfl : b = .text s := Atom.same_text_iff.mp (Atom.same_symm (by rwa [Value.text, Value.same] at h))
        refine ⟨_, _, rfl, rfl, sameList_self fun v hv => ?_⟩
        obtain ⟨c, _, rfl⟩ := mem_map.mp hv
        exact ⟨_, rfl⟩
  · rw [if_neg hpresent, if_neg hpresent]
    exact ⟨[], [], rfl, rfl, rfl⟩

/-- **Equal items of the usual shape have the same key.** -/
theorem keyOf_same {l : ItemList} (hl : l ∈ itemLists) (hi : isPlain i) (hu : isPlain u)
    (h : i.same u) : (keyOf l.key i).same (keyOf l.key u) := by
  obtain ⟨fs, rfl⟩ : ∃ fs, i = .record fs := by cases i <;> first | exact ⟨_, rfl⟩ | cases hi
  obtain ⟨gs, rfl⟩ : ∃ gs, u = .record gs := by cases u <;> first | exact ⟨_, rfl⟩ | cases hu
  rw [isPlain, Bool.and_eq_true, decide_eq_true_eq] at hi
  obtain ⟨hdistinct, hclasses⟩ := hi
  have hget : ∀ hs key, (Value.record hs).get key = .ok ((Value.record hs).part key) := fun _ => get_eq_part rfl
  have hpart := same_part hdistinct h
  have heither : ∀ a b, (((Value.record fs).part a).orElse ((Value.record fs).part b)).same
      (((Value.record gs).part a).orElse ((Value.record gs).part b)) = true := fun a b =>
    same_orElse (hpart a) (hpart b)
  have hgroup : ∀ name, (keyOf (ofGroup name) (.record fs)).same (keyOf (ofGroup name) (.record gs)) =
      true := by
    intro name
    obtain ⟨xs, ys, hxs, hys, hsame⟩ := exists_items (hpart "classes") hclasses
    have hkey : ∀ hs zs, (((Value.record hs).part "classes").orElse (.list [])).items = .ok zs →
        keyOf (ofGroup name) (.record hs) = .parts [(Value.record hs).part name] zs := by
      intro hs zs hzs
      have hofGroup : ofGroup name (.record hs) = .ok (.parts [(Value.record hs).part name] zs) := by
        rw [ofGroup, recordOf_record, hget, Loose.ok_bind, hget, Loose.ok_bind, hzs, Loose.ok_bind]
        rfl
      rw [keyOf, hofGroup]
    rw [hkey fs xs hxs, hkey gs ys hys, ItemKey.same, sameList, hpart, hsame]
    rfl
  simp only [itemLists, mem_cons, not_mem_nil, or_false] at hl
  rcases hl with rfl | rfl | rfl | rfl | rfl | rfl | rfl
  case inr.inr.inr.inr.inr.inl => exact hgroup "type"
  case inr.inr.inr.inr.inr.inr => exact hgroup "name"
  all_goals
    simp only [keyOf, ofEndpoint, ofUseCase, ofFlow, ofStep, ofStates,
      either, recordOf_record, hget, Loose.ok_bind, pure, Except.pure]
    simp [ItemKey.same, sameList, hpart, heither]

/-! ### Merged schemas -/

def ItemList.given (l : ItemList) (schema : Value) : List Value := l.names.flatMap schema.listAt

/-- All items of a schema in a list are equal to items of a merged schema. -/
def Preserves (ast m : Value) (l : ItemList) : Prop :=
  ∀ i ∈ present (ast.listAt l.heading), ∃ u ∈ m.listAt l.heading, i.same u = true

/-- Every item is equal to the first item with its key. -/
def onlyRepeats (ast : Value) (l : ItemList) : Bool :=
  (present (ast.listAt l.heading)).all fun i => (leader? l.key (present (l.given ast)) i).all i.same

theorem listAt_of_schemas (h : schemas ast ai = .ok m) {l : ItemList} (hl : l ∈ itemLists) :
    m.listAt l.heading = firstItems l.key (l.given ast ++ l.given ai) ∧
      ∀ i ∈ present (l.given ast ++ l.given ai), (keyOf l.key i).IsAtomic := by
  obtain ⟨p, hp, rfl⟩ := schemas_ok_iff.mp h
  obtain ⟨item, hitem, hof⟩ := Loose.exists_of_mapM hp.items hl
  obtain ⟨v, hv, hof⟩ := Loose.of_bind hof
  cases Loose.of_pure hof
  obtain ⟨us, hus, rfl⟩ := (itemsOf_ok_iff hp.isRecord.1 hp.isRecord.2).mp hv
  obtain ⟨hall, heq⟩ := distinctItems_ok_iff.mp hus
  have hfield : p.toSchema.field? l.heading = some (.list us) :=
    hp.field?_toSchema_of_mem (mem_append_right _ (mem_cons_of_mem _ hitem))
  exact ⟨(listAt_of_field? hfield).trans heq, hall⟩

theorem ItemList.mem_given {l : ItemList} (hl : l ∈ itemLists) (hi : i ∈ present (ast.listAt l.heading)) :
    i ∈ present (l.given ast) := by
  have hnames : ∀ l ∈ itemLists, l.heading ∈ l.names := by decide
  obtain ⟨hi, hpresent⟩ := mem_filter.mp hi
  exact mem_filter.mpr ⟨mem_flatMap.mpr ⟨_, hnames l hl, hi⟩, hpresent⟩

/-- **Of the items of a schema with one key the first is kept.**  So all items are in the merged schema if those with
one key are all equal to the first of them, and, for items of the usual shape, only then. -/
theorem schemas_preserves (ast ai m : Value) (h : schemas ast ai = .ok m) (l : ItemList) (hl : l ∈ itemLists) :
    (∀ i ∈ present (l.given ast), ∃ j ∈ m.listAt l.heading, leader? l.key (present (l.given ast)) i = some j) ∧
      (onlyRepeats ast l = true → Preserves ast m l) ∧
      ((∀ i ∈ present (l.given ast ++ l.given ai), isPlain i = true) →
        (Preserves ast m l ↔ onlyRepeats ast l = true)) := by
  obtain ⟨hlist, hall⟩ := listAt_of_schemas h hl
  have hsub : ∀ i ∈ present (l.given ast), i ∈ present (l.given ast ++ l.given ai) := fun i hi => by
    rw [present_append]
    exact List.mem_append_left _ hi
  have hfirst : ∀ i ∈ present (l.given ast), (keyOf l.key i).IsAtomic := fun i hi => hall i (hsub i hi)
  have hleader : ∀ i ∈ present (l.given ast), ∃ j ∈ m.listAt l.heading,
      leader? l.key (present (l.given ast)) i = some j := by
    intro i hi
    obtain ⟨j, hj⟩ := exists_leader hfirst hi
    rw [hlist]
    exact ⟨j, leader_mem_firstItems _ hfirst hi hj, hj⟩
  have hkept : onlyRepeats ast l = true → Preserves ast m l := by
    intro hrepeats i hi
    obtain ⟨j, hmem, hj⟩ := hleader i (ItemList.mem_given hl hi)
    have hsame := List.all_eq_true.mp hrepeats i hi
    rw [hj] at hsame
    exact ⟨j, hmem, hsame⟩
  refine ⟨hleader, hkept, fun hplain => ⟨fun hpreserves => List.all_eq_true.mpr fun i hi => ?_, hkept⟩⟩
  -- the item that is equal to this one has its key, so that it is the first one
  have hgiven := ItemList.mem_given hl hi
  obtain ⟨j, _, hj⟩ := hleader i hgiven
  obtain ⟨u, hu, hsame⟩ := hpreserves i hi
  rw [hlist] at hu
  have humem := mem_of_mem_firsts hu
  have hkey := keyOf_same hl (hplain i (hsub i hgiven)) (hplain u humem) hsame
  obtain rfl := eq_leader hall hgiven hj hu (ItemKey.same_symm (hfirst i hgiven) (hall u humem) hkey)
  rw [hj]
  exact hsame

def steps : Value := .ofFields [("activity", .list [.ofFields [("step", .text "weigh"), ("by", .text "clerk")],
  .ofFields [("by", .text "clerk"), ("step", .text "weigh")], .null, .ofFields [("name", .text "pack")]])]

def hints : Value := .ofFields [("activity_flows", .list [.ofFields [("name", .text "weigh")],
  .ofFields [("name", .text "send")]])]

theorem schemas_preserves_steps : ∃ l ∈ itemLists, l.heading = "activity" ∧ ∃ m, schemas steps hints = .ok m ∧
    (∀ i ∈ present (l.given steps ++ l.given hints), isPlain i = true) ∧ Preserves steps m l := by
  let l : ItemList := ⟨"activity", ItemKey.ofStep, ["activity", "activity_flows"]⟩
  have hl : l ∈ itemLists := by simp [l, itemLists]
  obtain ⟨m, hm⟩ : ∃ m, schemas steps hints = .ok m := by
    cbv
    exact ⟨_, rfl⟩
  have hplain : ∀ i ∈ present (l.given steps ++ l.given hints), isPlain i = true := by decide
  have hrepeats : onlyRepeats steps l = true := by decide +kernel
  exact ⟨l, hl, rfl, m, hm, hplain, ((schemas_preserves steps hints m hm l hl).2.2 hplain).mpr hrepeats⟩

def routes : Value := .ofFields [("endpoints", .list [
  .ofFields [("method", .text "GET"), ("path", .text "/a"), ("summary", .text "x")],
  .ofFields [("method", .text "GET"), ("path", .text "/a"), ("summary", .text "y")]])]

/-- The second of them is lost. -/
theorem schemas_drops_endpoint : ∃ l ∈ itemLists, l.heading = "endpoints" ∧
    ∃ m, schemas routes (.record []) = .ok m ∧ ¬ Preserves routes m l := by
  let l : ItemList := ⟨"endpoints", ItemKey.ofEndpoint, ["endpoints"]⟩
  have hl : l ∈ itemLists := by simp [l, itemLists]
  obtain ⟨m, hm⟩ : ∃ m, schemas routes (.record []) = .ok m := by
    cbv
    exact ⟨_, rfl⟩
  refine ⟨l, hl, rfl, m, hm, fun hpreserves => ?_⟩
  unfold Preserves at hpreserves
  rw [(listAt_of_schemas hm hl).1] at hpreserves
  obtain ⟨u, hu, hsame⟩ := hpreserves _ (List.mem_cons_of_mem _ List.mem_cons_self)
  have hdiffer : ∀ u ∈ firstItems l.key (l.given routes ++ l.given (.record [])), Value.same
      (.ofFields [("method", .text "GET"), ("path", .text "/a"), ("summary", .text "y")]) u = false := by decide
  rw [hdiffer u hu] at hsame
  cases hsame

end Merge

end CodeAtlas
