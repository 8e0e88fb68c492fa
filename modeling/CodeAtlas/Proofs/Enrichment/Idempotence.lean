import CodeAtlas.Proofs.Enrichment.Items
import CodeAtlas.Proofs.Enrichment.Provenance
import CodeAtlas.Proofs.Enrichment.Summary

/-!
# Merging a second time

What was merged is not changed by merging it with the same schema once more.  A merged schema is in a form that each
part of merging reads back as it is: a class has one entry, in which members ascend and the stereotype is in lower case;
relations have sources; and no item has the key of another.

* `Merge.sourced_of_isFull`, `Merge.relations_again`: relations that have sources;
* `Merge.addNotes_ok`, `Merge.pages_again`: notes and pages can be merged again;
* **`Merge.schemas_again`**: merging is idempotent on all lists of a schema.
-/

namespace CodeAtlas.Merge

open List Value Loose

open Schema (isClass isRelation)

variable {ast ai m : Value}

/-! ### Classes -/

theorem ascendingOnce_congr {ss ts : List String} (h : ∀ s, s ∈ ss ↔ s ∈ ts) : ascendingOnce ss = ascendingOnce ts := by
  refine ascendingOnce_eq (ascendingOnce_pairwise ts) fun s => ?_
  rw [h, mem_ascendingOnce]

theorem getLast?_again {α : Type} (as bs : List α) :
    ((as ++ bs).getLast?.toList ++ bs).getLast? = (as ++ bs).getLast? := by
  rw [getLast?_append, getLast?_append]
  cases bs.getLast? with
  | some b => rfl
  | none => cases as.getLast? <;> rfl

section

variable (b : Bool) (n : String) (es fs : List Value)

theorem textAt_summary_class : (summary b n es).textAt "class" = n := textAt_of_field? (summary_sumsUp b n es).name

theorem isClass_summary : isClass (summary b n es) := by
  obtain ⟨fs, hfs, _⟩ := (summary_sumsUp b n es).fields
  obtain ⟨ms, hms, _⟩ := (summary_sumsUp b n es).methods
  have htexts : ∀ ss : List String, (Value.texts ss).isTextsOrNull := by
    intro ss
    simp [Value.texts, isTextsOrNull, text?, Value.text]
  have hstereotype : ((summary b n es).part "stereotype").isTextOrNull := by
    rw [Value.part, (summary_sumsUp b n es).stereotype]
    cases (stereotypes es).getLast? <;> rfl
  rw [isClass, part_of_field? (summary_sumsUp b n es).name, part_of_field? hfs, part_of_field? hms,
    htexts, htexts, hstereotype]
  rfl

theorem mem_textsAt_summary {key : String} (hkey : key ∈ ["fields", "methods"]) (s : String) :
    s ∈ (summary b n es).textsAt key ↔ s ∈ members key es := by
  rw [members, mem_flatMap]
  simp only [mem_cons, not_mem_nil, or_false] at hkey
  rcases hkey with rfl | rfl
  · obtain ⟨fs, hfield, _, hfs⟩ := (summary_sumsUp b n es).fields
    rw [textsAt_of_field? hfield, hfs]
  · obtain ⟨ms, hfield, _, hms⟩ := (summary_sumsUp b n es).methods
    rw [textsAt_of_field? hfield, hms]

theorem stereotypes_summary :
    stereotypes [summary b n es] = ((stereotypes es).map Text.lower).getLast?.toList := by
  have htext : (summary b n es).textAt "stereotype" = (((stereotypes es).map Text.lower).getLast?).getD "" := by
    rw [textAt, Value.part, (summary_sumsUp b n es).stereotype, getLast?_map]
    cases (stereotypes es).getLast? <;> rfl
  rw [stereotypes, map_singleton, htext]
  cases hlast : ((stereotypes es).map Text.lower).getLast? with
  | none => rfl
  | some s =>
    obtain ⟨t, ht, rfl⟩ := mem_map.mp (mem_of_getLast? hlast)
    have hne : Text.lower t ≠ "" := Text.lower_eq_empty_iff.not.mpr (by simpa using (mem_filter.mp ht).2)
    simpa using hne

theorem callsAbstract_summary : callsAbstract (summary b n es) = es.any callsAbstract := by
  rw [callsAbstract, Value.part, (summary_sumsUp b n es).isAbstract]
  cases es.any callsAbstract <;> rfl

theorem field?_summary_namespace :
    (summary b n es).field? "namespace" = if b then (packages es).getLast? else none := by
  unfold summary
  simp only [field?_ofFields_append, field?_ofFields_cons, field?_ofFields_nil]
  cases (stereotypes es).getLast? <;> cases es.any callsAbstract <;> cases (packages es).getLast? <;> cases b <;> rfl

theorem packages_summary : packages [summary b n es] = (packages es).getLast?.toList := by
  rw [packages, map_singleton, packageOf, Value.part, Value.part, (summary_sumsUp b n es).package,
    field?_summary_namespace]
  cases hlast : (packages es).getLast? with
  | none => cases b <;> rfl
  | some p =>
    have htruthy := truthy_of_mem_packages (mem_of_getLast? hlast)
    simp [orElse, htruthy]

end

variable {n name : String} {es fs rs : List Value} {r schema : Value} (b : Bool) (f : String → List Value)

theorem summary_congr {b : Bool}
    (hmembers : ∀ key ∈ ["fields", "methods"], ∀ s, s ∈ members key es ↔ s ∈ members key fs)
    (hstereotypes : ((stereotypes es).map Text.lower).getLast? = ((stereotypes fs).map Text.lower).getLast?)
    (habstract : es.any callsAbstract = fs.any callsAbstract)
    (hpackages : (packages es).getLast? = (packages fs).getLast?) :
    summary b n es = summary b n fs := by
  unfold summary
  rw [ascendingOnce_congr (hmembers "fields" (by decide)), ascendingOnce_congr (hmembers "methods" (by decide)),
    habstract, hpackages]
  rw [getLast?_map, getLast?_map] at hstereotypes
  cases hes : (stereotypes es).getLast? with
  | none =>
    cases hfs : (stereotypes fs).getLast? with
    | none => rfl
    | some t => simp [hes, hfs] at hstereotypes
  | some s =>
    cases hfs : (stereotypes fs).getLast? with
    | none => simp [hes, hfs] at hstereotypes
    | some t =>
      have hlower : Text.lower s = Text.lower t := by simpa [hes, hfs] using hstereotypes
      simp only [hlower]

/-- What sums up entries, and then some of them once more, are summed up as the entries are. -/
theorem summary_again (n : String) (hascii : ∀ e ∈ es ++ fs, isAscii (e.textAt "stereotype")) :
    summary b n (summary b n (es ++ fs) :: fs) = summary b n (es ++ fs) := by
  apply summary_congr
  · intro key hkey s
    have hmem := mem_textsAt_summary b n (es ++ fs) hkey s
    rw [members, flatMap_append, mem_append] at hmem
    rw [members, flatMap_cons, mem_append, hmem, members, flatMap_append, mem_append, or_assoc, or_self]
  · have hfixed : ∀ s ∈ (stereotypes (es ++ fs)).map Text.lower, Text.lower s = s := by
      intro s hs
      obtain ⟨t, ht, rfl⟩ := mem_map.mp hs
      obtain ⟨e, he, rfl⟩ := mem_map.mp (mem_filter.mp ht).1
      exact Text.lower_lower_of_ascii (hascii e he)
    have hfirst : (stereotypes [summary b n (es ++ fs)]).map Text.lower =
        ((stereotypes (es ++ fs)).map Text.lower).getLast?.toList := by
      rw [stereotypes_summary]
      refine (map_congr_left fun s hs => ?_).trans (map_id _)
      exact hfixed s (mem_of_getLast? (Option.mem_toList.mp hs))
    rw [← singleton_append, stereotypes_append, map_append, hfirst, stereotypes_append, map_append, getLast?_again]
  · rw [any_cons, callsAbstract_summary, any_append, Bool.or_assoc, Bool.or_self]
  · rw [← singleton_append, packages_append, packages_summary, packages_append, getLast?_again]

def summaries (b : Bool) (es : List Value) : List Value := (names es).map fun n => summary b n (named n es)

theorem map_class_summaries (es : List Value) : (summaries b es).map (·.textAt "class") = names es := by
  rw [summaries, map_map]
  refine (map_congr_left fun n _ => ?_).trans (map_id _)
  exact textAt_summary_class b n _

theorem isClass_of_mem_summaries {b : Bool} {e : Value} (h : e ∈ summaries b es) : isClass e := by
  obtain ⟨n, _, rfl⟩ := mem_map.mp h
  exact isClass_summary b n _

theorem names_again (es fs : List Value) : names (summaries b (es ++ fs) ++ fs) = names (es ++ fs) := by
  have hfirst : (names (es ++ fs)).filter (· != "") = names (es ++ fs) := by
    rw [filter_eq_self]
    intro n hn
    simpa using (mem_names.mp hn).1
  have hsub : (fs.map (·.textAt "class")).filter (· != "") ⊆ names (es ++ fs) := by
    intro n hn
    rw [names, mem_eraseDups, map_append, filter_append]
    exact mem_append_right _ hn
  rw [names, map_append, filter_append, map_class_summaries, hfirst, eraseDups_append_of_subset hsub,
    eraseDups_of_nodup (nodup_names _)]

theorem named_summaries {b : Bool} (h : n ∈ names es) : named n (summaries b es) = [summary b n (named n es)] := by
  have hfilter : (names es).filter (fun k => (summary b k (named k es)).textAt "class" == n) = [n] := by
    simp only [textAt_summary_class]
    rw [filter_beq, count_eq_one_of_mem (nodup_names es) h]
    rfl
  rw [named, summaries, filter_map]
  exact congrArg (List.map _) hfilter

/-- The classes of a language that are summed up, and then some of their entries once more. -/
theorem summaries_again (hascii : ∀ e ∈ es ++ fs, isAscii (e.textAt "stereotype")) :
    summaries b (summaries b (es ++ fs) ++ fs) = summaries b (es ++ fs) := by
  rw [summaries, names_again]
  apply map_congr_left
  intro n hn
  rw [named_append, named_summaries hn, singleton_append, named_append]
  apply summary_again
  intro e he
  rw [← named_append] at he
  exact hascii e (mem_filter.mp he).1

/-! ### All languages -/

theorem groupsOf_eq (hast : ∀ l ∈ languages, (listIn ast l >>= items) = .ok (entries ast l))
    (hai : ∀ l ∈ languages, (listIn ai l >>= items) = .ok (entries ai l))
    (hes : ∀ l ∈ languages, ∀ e ∈ entries ast l, isClass e)
    (hfs : ∀ l ∈ languages, ∀ e ∈ entries ai l, isClass e) :
    groupsOf ast ai = .ok (languages.map fun l => (l, sumsOf (entries ast l ++ entries ai l))) := by
  apply mapM_ok
  intro l hl
  rw [sums_eq (hast l hl) (hai l hl) (hes l hl) (hfs l hl)]
  rfl

theorem classesOf_eq : classesOf (languages.map fun l => (l, sumsOf (f l))) =
    .ok (languages.map fun l => (l, .list (summaries (l == "csharp") (f l)))) := by
  rw [classesOf, mapM_map]
  apply mapM_ok
  intro l _
  show ((sumsOf (f l)).mapM (fun c => c.toEntry (l == "csharp")) >>= fun vs => pure (l, Value.list vs)) = _
  rw [mapM_toEntry_sumsOf]
  rfl

theorem namesOf_eq : namesOf (languages.map fun l => (l, sumsOf (f l))) =
    languages.flatMap fun l => (names (f l)).map Atom.text := by
  rw [namesOf, flatMap_map, map_flatMap]
  refine congrArg languages.flatMap (funext fun l => ?_)
  show ((names (f l)).map _).map _ = _
  rw [map_map]
  rfl

/-! ### Relations -/

theorem sourced_of_isFull (h : IsFull r) (source : String) : sourced source r = r := by
  obtain ⟨hrecord, hparts⟩ := Schema.isRelation_iff.mp h.isRelation
  have hne := h.ne_empty "source" (by decide)
  have hpart := part_eq_text (hparts "source" (by decide)) hne
  match r, hrecord with
  | .record fs, _ =>
    have hfield : Record.get? (.text "source") fs = some (.text ((Value.record fs).textAt "source")) := by
      rw [Value.part, field?] at hpart
      cases hget : Record.get? (.text "source") fs with
      | none =>
        rw [hget] at hpart
        cases hpart
      | some v =>
        rw [hget, Option.getD_some] at hpart
        rw [hpart]
    rw [sourced, sourceOf, if_neg hne, Record.put_of_get?_text hfield]

theorem isWhole_of_isFull (h : IsFull r) : isWhole r := by
  rw [isWhole, all_eq_true]
  intro k hk
  rw [bne_iff_ne]
  refine h.ne_empty k ?_
  simp only [mem_cons, not_mem_nil, or_false] at hk
  rcases hk with rfl | rfl | rfl <;> decide

theorem given_of_isFull (h : ∀ r ∈ rs, IsFull r) : given rs = rs := by
  have hwhole : rs.filter isWhole = rs := filter_eq_self.mpr fun r hr => isWhole_of_isFull (h r hr)
  rw [given, hwhole]
  exact (map_congr_left fun r hr => sourced_of_isFull (h r hr) _).trans (map_id _)

theorem relations_again {known : List Atom} (hast : ∀ r ∈ entries ast "relations", isRelation r)
    (hai : ∀ r ∈ entries ai "relations", isRelation r) (h : relations known ast ai = .ok rs)
    (hm : m.field? "relations" = some (.list rs)) : relations known m ai = .ok rs := by
  obtain ⟨hes, hfs⟩ := entries_of_relations h
  obtain rfl := Except.ok.inj ((relations_eq hes hfs hast hai).symm.trans h)
  have hfull :
      ∀ r ∈ firsts identity (· == ·) (given (entries ast "relations") ++ suggested known (entries ai "relations")),
      IsFull r := fun r hr => isFull_of_mem hast hai (mem_of_mem_firsts hr)
  have hitems := listIn_of_field? hm
  rw [relations_eq (by rw [hitems]; rfl) hfs (fun r hr => (hfull r hr).isRelation) hai, given_of_isFull hfull,
    firsts_again fun r _ => beq_self_eq_true (identity r)]

/-! ### Notes and pages -/

theorem addNote_ok (notes : Record) (name : Atom) (v : Value) : ∃ notes', addNote notes name v = .ok notes' := by
  unfold addNote
  split
  next xs ys _ =>
    obtain ⟨us, hus⟩ := distinctTexts_ok (ys ++ xs)
    exact ⟨_, by rw [hus]; rfl⟩
  next xs _ =>
    obtain ⟨us, hus⟩ := distinctTexts_ok xs
    exact ⟨_, by rw [hus]; rfl⟩
  · exact ⟨_, rfl⟩
  · exact ⟨_, rfl⟩

theorem addNotes_ok (h : schema.isRecord) (notes : Record) : ∃ notes', addNotes notes schema = .ok notes' := by
  have hfold : ∀ (fs : Record) (notes : Record),
      ∃ notes', fs.foldlM (fun acc f => addNote acc f.1 f.2) notes = .ok notes' := by
    intro fs
    induction fs with
    | nil => exact fun notes => ⟨notes, rfl⟩
    | cons f fs ih =>
      intro notes
      obtain ⟨next, hnext⟩ := addNote_ok notes f.1 f.2
      rw [foldlM_cons, hnext]
      exact ih next
  unfold addNotes
  rw [get_eq_part h, ok_bind]
  split
  · exact hfold _ notes
  · exact ⟨notes, rfl⟩

theorem pages_ok_iff (hast : ast.isRecord) (hai : ai.isRecord) :
    (∃ ps, pages name ast ai = .ok ps) ↔ ((ast.part name).isRecord → (ai.part name).isList = false) := by
  have htexts : ∀ xs, ∃ ps, (distinctTexts xs >>= fun us => Except.ok [(name, Value.list us)] : Loose _) = .ok ps := by
    intro xs
    obtain ⟨us, hus⟩ := distinctTexts_ok xs
    exact ⟨_, by rw [hus]; rfl⟩
  unfold pages
  rw [get_eq_part hast, ok_bind, get_eq_part hai, ok_bind]
  cases ast.part name <;> cases ai.part name <;>
    simp [Value.isRecord, isList, htexts, pure, Except.pure, throw, throwThe, MonadExceptOf.throw]

theorem pages_again {ps : List (String × Value)} (h : pages name ast ai = .ok ps)
    (hm : m.isRecord) (hfield : m.field? name = (Value.ofFields ps).field? name) :
    ∃ qs, pages name m ai = .ok qs := by
  obtain ⟨first, hfirst, hrest⟩ := of_bind h
  obtain ⟨second, hsecond, _⟩ := of_bind hrest
  have hast := isRecord_of_get hfirst
  have hai := isRecord_of_get hsecond
  rw [pages_ok_iff hm hai, Value.part, hfield]
  intro hrecord
  refine (pages_ok_iff hast hai).mp ⟨ps, h⟩ ?_
  -- A page that is a record was one in the first schema.
  rcases pages_cases h with rfl | ⟨v, rfl, hv⟩
  · cases hrecord
  · rw [field?_ofFields_cons, if_pos rfl] at hrecord
    rw [hv hrecord]
    exact hrecord

/-! ### Schemas -/

/-- Whether the classes and relations of a schema are of the right shape, and stereotypes are in ASCII. -/
def isShaped (schema : Value) : Bool :=
  languages.all (fun l => (entries schema l).all fun e => isClass e && isAscii (e.textAt "stereotype")) &&
    (entries schema "relations").all isRelation

theorem isClass_of_isShaped (h : isShaped schema) {l : String} (hl : l ∈ languages) :
    ∀ e ∈ entries schema l, isClass e ∧ isAscii (e.textAt "stereotype") := by
  simp only [isShaped, Bool.and_eq_true, all_eq_true] at h
  exact h.1 l hl

theorem isRelation_of_isShaped (h : isShaped schema) :
    ∀ r ∈ entries schema "relations", isRelation r := by
  simp only [isShaped, Bool.and_eq_true, all_eq_true] at h
  exact h.2

namespace Parts.IsOf

variable {p : Parts}

theorem listIn_entries (h : p.IsOf ast ai) {l : String} (hl : l ∈ languages) :
    (listIn ast l >>= Value.items) = .ok (entries ast l) ∧ (listIn ai l >>= Value.items) = .ok (entries ai l) := by
  obtain ⟨cs, _, hcs, _⟩ := h.exists_sums hl
  exact entries_of_sums hcs

theorem groups_classes (h : p.IsOf ast ai) (hast : isShaped ast) (hai : isShaped ai) :
    p.groups = (languages.map fun l => (l, sumsOf (entries ast l ++ entries ai l))) ∧
      p.classes = languages.map fun l => (l, .list (summaries (l == "csharp") (entries ast l ++ entries ai l))) := by
  have hgroups := h.groups
  rw [groupsOf_eq (fun l hl => (h.listIn_entries hl).1) (fun l hl => (h.listIn_entries hl).2)
    (fun l hl e he => (isClass_of_isShaped hast hl e he).1) (fun l hl e he => (isClass_of_isShaped hai hl e he).1)]
      at hgroups
  have hp := (Except.ok.inj hgroups).symm
  have hclasses := h.classes
  rw [hp, classesOf_eq] at hclasses
  exact ⟨hp, (Except.ok.inj hclasses).symm⟩

theorem exists_groups (h : p.IsOf ast ai) (hast : isShaped ast) (hai : isShaped ai) :
    ∃ groups, groupsOf p.toSchema ai = .ok groups ∧ namesOf groups = namesOf p.groups ∧
      classesOf groups = .ok p.classes := by
  obtain ⟨hgroups, hclasses⟩ := h.groups_classes hast hai
  have hfield : ∀ l ∈ languages,
      p.toSchema.field? l = some (.list (summaries (l == "csharp") (entries ast l ++ entries ai l))) := by
    intro l hl
    refine h.field?_toSchema_of_mem (mem_append_left _ ?_)
    rw [hclasses]
    exact mem_map_of_mem hl
  have hlist : ∀ l ∈ languages, (listIn p.toSchema l >>= Value.items) = .ok (entries p.toSchema l) := by
    intro l hl
    rw [listIn_of_field? (hfield l hl), entries_of_field? (hfield l hl)]
    rfl
  have hclass : ∀ l ∈ languages, ∀ e ∈ entries p.toSchema l, isClass e := by
    intro l hl e he
    rw [entries_of_field? (hfield l hl)] at he
    exact isClass_of_mem_summaries he
  have hascii : ∀ l ∈ languages, ∀ e ∈ entries ast l ++ entries ai l, isAscii (e.textAt "stereotype") := by
    intro l hl e he
    rcases mem_append.mp he with he | he
    · exact (isClass_of_isShaped hast hl e he).2
    · exact (isClass_of_isShaped hai hl e he).2
  refine ⟨_, groupsOf_eq hlist (fun l hl => (h.listIn_entries hl).2) hclass
    (fun l hl e he => (isClass_of_isShaped hai hl e he).1), ?_, ?_⟩
  · rw [hgroups, namesOf_eq, namesOf_eq]
    refine flatMap_congr fun l hl => ?_
    rw [entries_of_field? (hfield l hl), names_again]
  · rw [hclasses, classesOf_eq]
    refine congrArg Except.ok (map_congr_left fun l hl => ?_)
    rw [entries_of_field? (hfield l hl), summaries_again _ (hascii l hl)]

theorem allItemsOf_again (h : p.IsOf ast ai) : allItemsOf p.toSchema ai = .ok p.items := by
  have hnames : ∀ i ∈ itemLists, i.names = i.heading :: i.names.tail ∧
      ∀ n ∈ i.names.tail, n ∉ headings ++ ["meta", "html", "css"] := by decide
  refine mapM_of_mapM h.items ?_
  intro i hi item hitem hof
  obtain ⟨v, hv, hof⟩ := of_bind hof
  cases of_pure hof
  obtain ⟨us, _, rfl⟩ := (itemsOf_ok_iff h.isRecord.1 h.isRecord.2).mp hv
  obtain ⟨hheading, hothers⟩ := hnames i hi
  have hfield : p.toSchema.field? i.heading = some (.list us) :=
    h.field?_toSchema_of_mem (mem_append_right _ (mem_cons_of_mem _ hitem))
  -- A merged schema lists the items under their heading only.
  have hlist : i.names.flatMap p.toSchema.listAt = us := by
    rw [hheading, flatMap_cons, listAt_of_field? hfield, append_right_eq_self, flatMap_eq_nil_iff]
    exact fun n hn => listAt_of_none (h.field?_toSchema_of_not_mem (hothers n hn))
  rw [itemsOf_again h.isRecord.1 h.isRecord.2 rfl hlist hv]
  rfl

end Parts.IsOf

/-- **Merging is idempotent.**  Let two schemas list classes and relations of the right shape, with stereotypes in
ASCII, and let them be merged.  Then the merged schema can be merged with the second one once more, which changes none
of its lists of classes, of relations and of other items. -/
theorem schemas_again (ast ai m : Value) (hast : isShaped ast = true) (hai : isShaped ai = true)
    (h : schemas ast ai = .ok m) :
    ∃ m', schemas m ai = .ok m' ∧ ∀ k ∈ headings, ∃ v, m.field? k = some v ∧ m'.field? k = some v := by
  obtain ⟨p, hp, rfl⟩ := schemas_ok_iff.mp h
  obtain ⟨groups, hgroups, hnames, hclasses⟩ := hp.exists_groups hast hai
  have hrelations : relations (namesOf groups) p.toSchema ai = .ok p.relations := by
    rw [hnames]
    exact relations_again (isRelation_of_isShaped hast) (isRelation_of_isShaped hai) hp.relations hp.field?_relations
  have hrecord : p.toSchema.isRecord = true := rfl
  obtain ⟨first, hfirst⟩ := addNotes_ok hrecord []
  obtain ⟨notes, hnotes⟩ := addNotes_ok hp.isRecord.2 first
  obtain ⟨html, hhtml⟩ := pages_again hp.html hrecord hp.field?_html
  obtain ⟨css, hcss⟩ := pages_again hp.css hrecord hp.field?_css
  let q : Parts := ⟨groups, p.classes, p.relations, p.items, notes, html, css⟩
  have hq : q.IsOf p.toSchema ai :=
    ⟨hgroups, hclasses, hrelations, hp.allItemsOf_again, by rw [hfirst, Loose.ok_bind, hnotes], hhtml, hcss⟩
  refine ⟨q.toSchema, schemas_ok_iff.mpr ⟨q, hq, rfl⟩, ?_⟩
  intro k hk
  rw [← hp.keys_lists] at hk
  obtain ⟨f, hf, rfl⟩ := List.mem_map.mp hk
  exact ⟨f.2, hp.field?_toSchema_of_mem hf, hq.field?_toSchema_of_mem hf⟩

/-- Two entries of a class, a relation without a source, and steps under two names. -/
def workshop : Value := .ofFields [
  ("csharp", .list [
    .ofFields [("class", .text "Lathe"), ("fields", .texts ["speed", "bed"]), ("stereotype", .text "Machine")],
    .ofFields [("class", .text "Lathe"), ("namespace", .text "Shop.Floor"), ("fields", .texts ["bed"])]]),
  ("relations", .list [.ofFields [("from", .text "Lathe"), ("to", .text "Motor"), ("type", .text "uses")]]),
  ("activity", .list [.ofFields [("step", .text "start")], .null, .list [.text "stop"]]),
  ("activity_flows", .list [.ofFields [("name", .text "start")]])]

/-- A class that is known and a new one, a relation between them, and a step that is known. -/
def workshopNotes : Value := .ofFields [
  ("csharp", .list [
    .ofFields [("class", .text "Motor"), ("methods", .texts ["turn"])],
    .ofFields [("class", .text "Lathe"), ("stereotype", .text "TOOL"), ("abstract", .bool true)]]),
  ("relations", .list [.ofFields [("from", .text "Lathe"), ("to", .text "Motor"), ("type", .text "uses")]]),
  ("activity", .list [.ofFields [("step", .text "start")], .ofFields [("step", .text "turn")]])]

theorem schemas_again_workshop : isShaped workshop = true ∧ isShaped workshopNotes = true ∧
    ∃ m, schemas workshop workshopNotes = .ok m ∧ ∃ m', schemas m workshopNotes = .ok m' ∧
      ∀ k ∈ headings, ∃ v, m.field? k = some v ∧ m'.field? k = some v := by
  have hast : isShaped workshop = true := by decide
  have hai : isShaped workshopNotes = true := by decide
  obtain ⟨m, hm⟩ : ∃ m, schemas workshop workshopNotes = .ok m := by
    cbv
    exact ⟨_, rfl⟩
  exact ⟨hast, hai, m, hm, schemas_again workshop workshopNotes m hast hai hm⟩

end CodeAtlas.Merge
