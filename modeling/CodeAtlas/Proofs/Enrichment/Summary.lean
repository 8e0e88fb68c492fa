import CodeAtlas.Proofs.Enrichment.Assembly
import CodeAtlas.Proofs.Text.Ascending
import CodeAtlas.Proofs.Text.Folding
import CodeAtlas.Proofs.Value.Firsts

/-!
# The classes of a merged schema

The entries of a class, in both schemas, are summed up in one.  What the sum says is told here without going through the
entries one by one: members are collected, a class is abstract when one entry calls it so, and of stereotypes and
packages the last one counts.

* **`Merge.schemas_classes`**: a merged schema lists each class of a language once, summed up.
-/

namespace CodeAtlas

open List Value

open Loose (of_bind ok_bind)

/-- Whether an entry is one of a class: its name and its stereotype are texts and its members lists of texts, as far as
they are there. -/
def Schema.isClass (e : Value) : Bool :=
  e.isRecord && (e.part "class").isTextOrNull && (e.part "fields").isTextsOrNull &&
    (e.part "methods").isTextsOrNull && (e.part "stereotype").isTextOrNull

theorem Schema.isClass_iff {e : Value} : Schema.isClass e ↔ e.isRecord ∧
    (e.part "class").isTextOrNull ∧ (e.part "fields").isTextsOrNull ∧
      (e.part "methods").isTextsOrNull ∧ (e.part "stereotype").isTextOrNull := by
  simp only [isClass, Bool.and_eq_true, and_assoc]

namespace Merge

def packageOf (e : Value) : Value := (e.part "package").orElse (e.part "namespace")

def callsAbstract (e : Value) : Bool :=
  match e.part "abstract" with
  | .atom (.bool b) => b
  | _ => false

/-- The names of classes, in the order in which they first occur. -/
def names (es : List Value) : List String := ((es.map (·.textAt "class")).filter (· != "")).eraseDups

def named (n : String) (es : List Value) : List Value := es.filter (·.textAt "class" == n)

def members (key : String) (es : List Value) : List String := es.flatMap (·.textsAt key)

def stereotypes (es : List Value) : List String := (es.map (·.textAt "stereotype")).filter (· != "")

def packages (es : List Value) : List Value := (es.map packageOf).filter Value.truthy

theorem stereotypes_append (es fs : List Value) : stereotypes (es ++ fs) = stereotypes es ++ stereotypes fs := by
  rw [stereotypes, map_append, filter_append]
  rfl

theorem packages_append (es fs : List Value) : packages (es ++ fs) = packages es ++ packages fs := by
  rw [packages, map_append, filter_append]
  rfl

end Merge

namespace ClassSum

open Merge

def ofEntries (n : String) (es : List Value) : ClassSum where
  name := .text n
  fields := (members "fields" es).eraseDups.map .text
  methods := (members "methods" es).eraseDups.map .text
  stereotype := (stereotypes es).getLast?.map Text.lower
  isAbstract := es.any callsAbstract
  package := (packages es).getLast?.getD .null

/-! ### One entry -/

variable {e : Value} {key a : String} {f : String → ClassSum} {ns : List String}

theorem orElse_list_eq (h : (e.part key).isTextsOrNull) :
    ((e.field? key).getD (.list [])).orElse (.list []) = .texts (e.textsAt key) := by
  unfold textsAt
  cases hfield : e.field? key with
  | none =>
    have hpart : e.part key = .null := by rw [Value.part, hfield]; rfl
    rw [hpart]
    rfl
  | some v =>
    rw [part_of_field? hfield] at h ⊢
    unfold isTextsOrNull at h
    split at h
    next xs =>
      have hxs : Value.list xs = .texts (xs.filterMap text?) := congrArg Value.list (texts_filterMap h)
      cases xs with
      | nil => rfl
      | cons x xs => exact hxs
    next =>
      rw [eq_null_of_isNull h]
      rfl

theorem membersOf_eq (hrecord : e.isRecord)
    (h : (e.part key).isTextsOrNull) : membersOf e key = .ok ((e.textsAt key).map .text) := by
  rw [membersOf, getD_eq_field? hrecord, ok_bind, orElse_list_eq h]
  show ((e.textsAt key).map Value.text).mapM Value.key = _
  rw [Loose.mapM_ok (g := fun v => .text (v.text?.getD "")), map_map]
  · rfl
  · intro v hv
    obtain ⟨s, _, rfl⟩ := mem_map.mp hv
    rfl

theorem stereotypeOf_eq (hrecord : e.isRecord) (h : (e.part "stereotype").isTextOrNull) :
    stereotypeOf e = .ok ((stereotypes [e]).getLast?.map Text.lower) := by
  rw [stereotypeOf, get_eq_part hrecord, ok_bind, orText_part h]
  show Except.ok (if Text.lower _ == "" then none else some (Text.lower _)) = _
  by_cases hempty : e.textAt "stereotype" = ""
  · simp [stereotypes, hempty, Text.lower_eq_empty_iff]
  · simp [stereotypes, hempty, Text.lower_eq_empty_iff]

theorem foldl_insertInto_texts (ss fs : List String) :
    (fs.map Atom.text).foldl (fun set a => a.insertInto set) (ss.eraseDups.map .text) =
      (ss ++ fs).eraseDups.map .text := by
  induction fs generalizing ss with
  | nil => simp
  | cons f fs ih =>
    have hstep : (Atom.text f).insertInto (ss.eraseDups.map .text) = (ss ++ [f]).eraseDups.map .text := by
      unfold Atom.insertInto
      by_cases hmem : f ∈ ss
      · rw [if_pos (Atom.isIn_text_iff.mpr (mem_map_of_mem (mem_eraseDups.mpr hmem))),
          eraseDups_append_of_subset (by simpa using hmem)]
      · rw [if_neg, eraseDups_concat_of_not_mem hmem, map_append]
        · rfl
        · intro hin
          obtain ⟨s, hs, heq⟩ := mem_map.mp (Atom.isIn_text_iff.mp hin)
          cases heq
          exact hmem (mem_eraseDups.mp hs)
    rw [map_cons, foldl_cons, hstep, ih, append_assoc]
    rfl

theorem absorb_ofEntries (h : Schema.isClass e) (n : String) (es : List Value) :
    (ofEntries n es).absorb e = .ok (ofEntries n (es ++ [e])) := by
  obtain ⟨hrecord, _, hfields, hmethods, hstereotype⟩ := Schema.isClass_iff.mp h
  have hstereotypes : ((stereotypes [e]).getLast?.map Text.lower).or ((stereotypes es).getLast?.map Text.lower) =
      (stereotypes (es ++ [e])).getLast?.map Text.lower := by
    rw [stereotypes_append, getLast?_append, Option.map_or]
  have hpackages : (packageOf e).orElse ((packages es).getLast?.getD .null) =
      (packages (es ++ [e])).getLast?.getD .null := by
    rw [packages_append, getLast?_append, orElse]
    cases htruthy : (packageOf e).truthy with
    | _ => simp [packages, htruthy]
  unfold absorb
  rw [membersOf_eq hrecord hfields, ok_bind, membersOf_eq hrecord hmethods, ok_bind,
    stereotypeOf_eq hrecord hstereotype, ok_bind, get_eq_part hrecord, ok_bind,
    get_eq_part hrecord, ok_bind, get_eq_part hrecord, ok_bind]
  refine congrArg Except.ok ?_
  unfold ofEntries
  rw [foldl_insertInto_texts, foldl_insertInto_texts, hstereotypes, members, members, members, members,
    flatMap_append, flatMap_append, any_append]
  simp only [ClassSum.mk.injEq]
  refine ⟨trivial, by simp, by simp, trivial, ?_, hpackages⟩
  rw [any_cons, any_nil, Bool.or_false]
  rfl

/-! ### The sum of a name among others -/

theorem absorbInto_of_mem {g : String → ClassSum}
    (hname : ∀ n, (f n).name = .text n) (hadd : (f a).absorb e = .ok (g a)) (hother : ∀ n ∈ ns, n ≠ a → f n = g n)
    (hnodup : ns.Nodup) (hmem : a ∈ ns) : absorbInto (.text a) e (ns.map f) = .ok (ns.map g) := by
  induction ns with
  | nil => cases hmem
  | cons n ns ih =>
    obtain ⟨hn, hnodup⟩ := nodup_cons.mp hnodup
    have hrest : ∀ k ∈ ns, k ≠ a → f k = g k := fun k hk => hother k (mem_cons_of_mem _ hk)
    rw [map_cons, map_cons, absorbInto, hname]
    by_cases hna : n = a
    · subst hna
      have hsame : ns.map f = ns.map g := by
        apply map_congr_left
        intro k hk
        exact hrest k hk (ne_of_mem_of_not_mem hk hn)
      rw [if_pos (Atom.same_text_iff.mpr rfl), hadd, hsame]
      rfl
    · have hmem' : a ∈ ns := (mem_cons.mp hmem).resolve_left (Ne.symm hna)
      rw [if_neg fun hs => hna (Atom.text.inj (Atom.same_text_iff.mp hs)), ih hrest hnodup hmem',
        hother n mem_cons_self hna]
      rfl

theorem absorbInto_of_not_mem {d : ClassSum}
    (hname : ∀ n, (f n).name = .text n) (hadd : absorb { name := .text a } e = .ok d) (hmem : a ∉ ns) :
    absorbInto (.text a) e (ns.map f) = .ok (ns.map f ++ [d]) := by
  induction ns with
  | nil =>
    rw [map_nil, absorbInto, hadd]
    rfl
  | cons n ns ih =>
    rw [mem_cons, not_or] at hmem
    rw [map_cons, absorbInto, hname, if_neg fun hs => hmem.1 (Atom.text.inj (Atom.same_text_iff.mp hs)).symm, ih hmem.2]
    rfl

end ClassSum

namespace Merge

/-! ### Names of classes -/

variable {n l : String} {es : List Value} {e ast ai : Value} (ss : List String) (b : Bool)

theorem mem_names : n ∈ names es ↔ n ≠ "" ∧ ∃ e ∈ es, e.textAt "class" = n := by
  rw [names, mem_eraseDups, mem_filter, mem_map, bne_iff_ne, and_comm]

theorem nodup_names (es : List Value) : (names es).Nodup := nodup_eraseDups _

theorem named_append (n : String) (es fs : List Value) : named n (es ++ fs) = named n es ++ named n fs :=
  filter_append _ _

theorem named_singleton_of_ne (h : e.textAt "class" ≠ n) : named n [e] = [] := by
  simpa [named] using h

theorem named_singleton (e : Value) : named (e.textAt "class") [e] = [e] := by
  simp [named]

theorem named_eq_nil (hn : n ≠ "") (h : n ∉ names es) : named n es = [] := by
  rw [named, filter_eq_nil_iff]
  intro e he heq
  exact h (mem_names.mpr ⟨hn, e, he, by simpa using heq⟩)

theorem names_concat_of_empty (h : e.textAt "class" = "") (es : List Value) : names (es ++ [e]) = names es := by
  simp [names, h]

theorem names_concat_of_mem (h : e.textAt "class" ∈ names es) : names (es ++ [e]) = names es := by
  have hsub : ([e].map (·.textAt "class")).filter (· != "") ⊆ (es.map (·.textAt "class")).filter (· != "") := by
    intro n hn
    obtain rfl : n = e.textAt "class" := by simpa using (mem_filter.mp hn).1
    exact mem_eraseDups.mp h
  rw [names, map_append, filter_append, eraseDups_append_of_subset hsub, names]

theorem names_concat_of_not_mem (hne : e.textAt "class" ≠ "")
    (h : e.textAt "class" ∉ names es) : names (es ++ [e]) = names es ++ [e.textAt "class"] := by
  have hone : ([e].map (·.textAt "class")).filter (· != "") = [e.textAt "class"] := by simpa using hne
  rw [names, map_append, filter_append, hone, eraseDups_concat_of_not_mem fun hmem => h (mem_eraseDups.mpr hmem), names]

/-! ### The sums of a language -/

def sumsOf (es : List Value) : List ClassSum := (names es).map fun n => ClassSum.ofEntries n (named n es)

theorem absorbEntry_sumsOf (h : Schema.isClass e) (es : List Value) :
    absorbEntry (sumsOf es) e = .ok (sumsOf (es ++ [e])) := by
  obtain ⟨hrecord, hclass, _⟩ := Schema.isClass_iff.mp h
  -- The entries of the other classes are those there were.
  have hother : ∀ n, n ≠ e.textAt "class" → named n (es ++ [e]) = named n es := by
    intro n hn
    rw [named_append, named_singleton_of_ne (Ne.symm hn), append_nil]
  unfold absorbEntry
  rw [get_eq_part hrecord, ok_bind, truthy_part hclass]
  by_cases hempty : e.textAt "class" = ""
  · rw [if_neg (by simp [hempty]), sumsOf, sumsOf, names_concat_of_empty hempty]
    refine congrArg Except.ok (map_congr_left fun n hn => ?_)
    rw [hother n]
    rw [hempty]
    exact (mem_names.mp hn).1
  · have hkey : (e.part "class").key = .ok (.text (e.textAt "class")) := by
      rw [part_eq_text hclass hempty]
      rfl
    rw [if_pos (by simpa using hempty), hkey, ok_bind, sumsOf, sumsOf]
    by_cases hmem : e.textAt "class" ∈ names es
    · rw [names_concat_of_mem hmem]
      refine ClassSum.absorbInto_of_mem (fun _ => rfl) ?_ ?_ (nodup_names es) hmem
      · rw [named_append, named_singleton]
        exact ClassSum.absorb_ofEntries h _ _
      · intro n _ hn
        rw [hother n hn]
    · rw [names_concat_of_not_mem hempty hmem, map_append]
      have hsame : (names es).map (fun n => ClassSum.ofEntries n (named n (es ++ [e]))) =
          (names es).map fun n => ClassSum.ofEntries n (named n es) := by
        apply map_congr_left
        intro n hn
        rw [hother n (ne_of_mem_of_not_mem hn hmem)]
      rw [hsame]
      refine ClassSum.absorbInto_of_not_mem (fun _ => rfl) ?_ hmem
      beta_reduce
      rw [named_append, named_singleton, named_eq_nil hempty hmem]
      exact ClassSum.absorb_ofEntries h _ []

theorem foldlM_absorbEntry (h : ∀ e ∈ es, Schema.isClass e) (before : List Value) :
    es.foldlM absorbEntry (sumsOf before) = .ok (sumsOf (before ++ es)) := by
  induction es generalizing before with
  | nil =>
    rw [append_nil]
    rfl
  | cons e es ih =>
    rw [foldlM_cons, absorbEntry_sumsOf (h e mem_cons_self), ok_bind,
      ih fun e' he' => h e' (mem_cons_of_mem _ he'), append_assoc]
    rfl

theorem entries_of_sums {cs : List ClassSum} (h : sums ast ai l = .ok cs) :
    (listIn ast l >>= items) = .ok (entries ast l) ∧ (listIn ai l >>= items) = .ok (entries ai l) := by
  obtain ⟨v, hv, h⟩ := of_bind h
  obtain ⟨w, hw, h⟩ := of_bind h
  obtain ⟨ds, hds, h⟩ := of_bind h
  obtain ⟨es, hes, _⟩ := of_bind hds
  obtain ⟨fs, hfs, _⟩ := of_bind h
  rw [entries_eq hv hes, entries_eq hw hfs, hv, hw]
  exact ⟨hes, hfs⟩

theorem sums_eq {fs : List Value} (hast : (listIn ast l >>= items) = .ok es)
    (hai : (listIn ai l >>= items) = .ok fs) (hes : ∀ e ∈ es, Schema.isClass e)
    (hfs : ∀ e ∈ fs, Schema.isClass e) : sums ast ai l = .ok (sumsOf (es ++ fs)) := by
  obtain ⟨v, hv, hes'⟩ := of_bind hast
  obtain ⟨w, hw, hfs'⟩ := of_bind hai
  unfold sums absorbAll
  rw [hv, ok_bind, hw, ok_bind, hes', ok_bind, hfs']
  have hfirst : es.foldlM absorbEntry [] = .ok (sumsOf es) := foldlM_absorbEntry hes []
  rw [hfirst, ok_bind, ok_bind, foldlM_absorbEntry hfs]

/-! ### The entry of a class -/

def ascendingOnce (ss : List String) : List String := Text.ascending ss.eraseDups

theorem mem_ascendingOnce {s : String} {ss : List String} : s ∈ ascendingOnce ss ↔ s ∈ ss := by
  rw [ascendingOnce, Text.ascending, mem_mergeSort, mem_eraseDups]

theorem ascendingOnce_pairwise : (ascendingOnce ss).Pairwise (· < ·) := Text.ascending_strict (nodup_eraseDups ss)

theorem ascendingOnce_eq {ss ts : List String} (hts : ts.Pairwise (· < ·)) (h : ∀ s, s ∈ ss ↔ s ∈ ts) :
    ascendingOnce ss = ts := by
  have hperm : (ascendingOnce ss).Perm ts := by
    rw [perm_ext_iff_of_nodup ((ascendingOnce_pairwise ss).imp ne_of_lt) (hts.imp ne_of_lt)]
    intro s
    rw [mem_ascendingOnce, h]
  refine hperm.eq_of_pairwise ?_ (ascendingOnce_pairwise ss) hts
  intro a b _ _ hab hba
  exact absurd hba (lt_asymm hab)

theorem mapM_text? : (ss.map Atom.text).mapM (fun a => (atom a).text?) = some ss := by
  induction ss with
  | nil => rfl
  | cons s ss ih =>
    rw [map_cons, mapM_cons, ih]
    rfl

theorem sorted_texts : Atom.sorted (ss.map .text) = .ok ((Text.ascending ss).map .text) := by
  match ss with
  | [] => simp [Atom.sorted, Text.ascending]
  | [s] => simp [Atom.sorted, Text.ascending]
  | s :: t :: rest =>
    have htexts := mapM_text? (s :: t :: rest)
    rw [map_cons, map_cons] at htexts ⊢
    simp only [Atom.sorted, htexts]
    rfl

/-- The entry of a class that sums up some entries. -/
def summary (hasNamespaces : Bool) (n : String) (es : List Value) : Value :=
  .ofFields ([("class", .text n), ("fields", .texts (ascendingOnce (members "fields" es))),
      ("methods", .texts (ascendingOnce (members "methods" es)))] ++
    (match (stereotypes es).getLast? with
      | some s => [("stereotype", .text (Text.lower s))]
      | none => []) ++
    (if es.any callsAbstract then [("abstract", .bool true)] else []) ++
    (match (packages es).getLast? with
      | some p => [("package", p)] ++ (if hasNamespaces then [("namespace", p)] else [])
      | none => []))

theorem truthy_of_mem_packages {p : Value} (h : p ∈ packages es) : p.truthy := (mem_filter.mp h).2

theorem toEntry_ofEntries (n : String) (es : List Value) :
    (ClassSum.ofEntries n es).toEntry b = .ok (summary b n es) := by
  have hatoms : ∀ ss : List String, Value.list ((ss.map Atom.text).map atom) = .texts ss := by
    intro ss
    rw [map_map]
    rfl
  unfold ClassSum.toEntry ClassSum.ofEntries summary
  rw [sorted_texts, ok_bind, sorted_texts, ok_bind, hatoms, hatoms]
  cases (stereotypes es).getLast? <;> cases hlast : (packages es).getLast? with
  | none => rfl
  | some p =>
    have htruthy := truthy_of_mem_packages (mem_of_getLast? hlast)
    simp only [Option.getD_some, htruthy, if_true]
    rfl

theorem mapM_toEntry_sumsOf (es : List Value) :
    (sumsOf es).mapM (fun c => c.toEntry b) = .ok ((names es).map fun n => summary b n (named n es)) := by
  rw [sumsOf, mapM_map, Loose.mapM_ok]
  intro n _
  exact toEntry_ofEntries b n (named n es)

theorem field?_language {m : Value} (h : schemas ast ai = .ok m) (hl : l ∈ languages)
    (hast : ∀ e ∈ entries ast l, Schema.isClass e) (hai : ∀ e ∈ entries ai l, Schema.isClass e) :
    m.field? l = some (.list ((names (entries ast l ++ entries ai l)).map fun n =>
      summary (l == "csharp") n (named n (entries ast l ++ entries ai l)))) := by
  obtain ⟨p, hp, rfl⟩ := schemas_ok_iff.mp h
  obtain ⟨cs, vs, hcs, _, hvs, hfield⟩ := hp.exists_sums hl
  obtain ⟨hes, hfs⟩ := entries_of_sums hcs
  cases (sums_eq hes hfs hast hai).symm.trans hcs
  cases (mapM_toEntry_sumsOf _ _).symm.trans hvs
  exact hfield

/-! ### What the entry says -/

structure SumsUp (n : String) (es : List Value) (c : Value) : Prop where
  name : c.field? "class" = some (.text n)
  fields : ∃ fs, c.field? "fields" = some (.texts fs) ∧ fs.Pairwise (· < ·) ∧
    ∀ f, f ∈ fs ↔ ∃ e ∈ es, f ∈ e.textsAt "fields"
  methods : ∃ ms, c.field? "methods" = some (.texts ms) ∧ ms.Pairwise (· < ·) ∧
    ∀ m, m ∈ ms ↔ ∃ e ∈ es, m ∈ e.textsAt "methods"
  isAbstract : c.field? "abstract" = if es.any callsAbstract then some (.bool true) else none
  stereotype : c.field? "stereotype" = (stereotypes es).getLast?.map fun s => .text (Text.lower s)
  package : c.field? "package" = (packages es).getLast?

theorem summary_sumsUp (n : String) (es : List Value) : SumsUp n es (summary b n es) := by
  have hmembers : ∀ key, ∀ f, f ∈ ascendingOnce (members key es) ↔ ∃ e ∈ es, f ∈ e.textsAt key := by
    intro key f
    rw [mem_ascendingOnce, members, mem_flatMap]
  refine ⟨?_, ⟨_, ?_, ascendingOnce_pairwise _, hmembers "fields"⟩,
    ⟨_, ?_, ascendingOnce_pairwise _, hmembers "methods"⟩, ?_, ?_, ?_⟩
  all_goals
    unfold summary
    cases (stereotypes es).getLast? <;> cases es.any callsAbstract <;> cases (packages es).getLast? <;> cases b <;> rfl

/-- **The classes of a merged schema.**  Let both schemas list entries of classes under a language.  Then the
merged schema lists under it exactly the classes that the entries of the first schema and then those of the
second name, once each and in the order in which the names first occur; and the entry of a class sums up all its
entries. -/
theorem schemas_classes (ast ai m : Value) (l : String) (hl : l ∈ languages)
    (hast : ∀ e ∈ entries ast l, Schema.isClass e = true) (hai : ∀ e ∈ entries ai l, Schema.isClass e = true)
    (h : schemas ast ai = .ok m) :
    ∃ cs, m.field? l = some (.list cs) ∧
      List.Forall₂ (fun n c => SumsUp n (named n (entries ast l ++ entries ai l)) c)
        (names (entries ast l ++ entries ai l)) cs := by
  refine ⟨_, field?_language h hl hast hai, ?_⟩
  rw [List.forall₂_map_right_iff, List.forall₂_same]
  intro n _
  exact summary_sumsUp _ n _

def orders : Value := .ofFields [("java", .list [
  .ofFields [("class", .text "Order"), ("fields", .texts ["total", "id"]), ("methods", .texts ["pay"]),
    ("stereotype", .text "Entity"), ("package", .text "shop")],
  .ofFields [("class", .text ""), ("fields", .texts ["lost"])],
  .ofFields [("class", .text "Order"), ("fields", .texts ["id", "note"]), ("abstract", .bool true)]])]

def suggestions : Value := .ofFields [("java", .list [
  .ofFields [("class", .text "Item"), ("fields", .texts ["price"])],
  .ofFields [("class", .text "Order"), ("methods", .texts ["pay", "cancel"]), ("stereotype", .text "SERVICE"),
    ("namespace", .text "shop.core")]])]

theorem schemas_classes_orders :
    (∀ e ∈ entries orders "java", Schema.isClass e = true) ∧
    (∀ e ∈ entries suggestions "java", Schema.isClass e = true) ∧
      ∃ m, schemas orders suggestions = .ok m ∧ ∃ cs, m.field? "java" = some (.list cs) ∧
        List.Forall₂ (fun n c => SumsUp n (named n (entries orders "java" ++ entries suggestions "java")) c)
          ["Order", "Item"] cs := by
  have hast : ∀ e ∈ entries orders "java", Schema.isClass e = true := by decide
  have hai : ∀ e ∈ entries suggestions "java", Schema.isClass e = true := by decide
  obtain ⟨m, hm⟩ : ∃ m, schemas orders suggestions = .ok m := by
    cbv
    exact ⟨_, rfl⟩
  exact ⟨hast, hai, m, hm, schemas_classes orders suggestions m "java" (by decide) hast hai hm⟩

end Merge

end CodeAtlas
