import CodeAtlas.Enrichment.Merge
import CodeAtlas.Proofs.Value.Fields

/-!
# How a merged schema is put together

A merged schema has the classes of seven languages, relations, seven lists of other items, notes, and pages.  Each part
is computed by itself from the two schemas.

* `Merge.schemas_ok_iff`: a schema is the merge of two exactly when it is put together from their parts;
* `Merge.Parts.IsOf.field?_toSchema_of_mem`, `Merge.Parts.IsOf.exists_sums`: the fields of a merged schema.
-/

namespace CodeAtlas.Merge

open List Value ItemKey

open Loose (of_bind ok_bind of_pure)

/-! ### What a schema lists -/

/-- What iteration over a list in a schema goes through; nothing where there is nothing to go through. -/
def entries (schema : Value) (heading : String) : List Value :=
  match listIn schema heading >>= items with
  | .ok es => es
  | .error _ => []

variable {schema : Value} {heading : String} {es : List Value}

theorem entries_eq {v : Value} (hlist : listIn schema heading = .ok v)
    (hitems : v.items = .ok es) : entries schema heading = es := by
  rw [entries, hlist, ok_bind, hitems]

theorem listIn_of_field? (h : schema.field? heading = some (.list es)) : listIn schema heading = .ok (.list es) := by
  rw [listIn, getD_eq_field? (isRecord_of_field? h), h]
  cases es with
  | _ => rfl

theorem entries_of_field? (h : schema.field? heading = some (.list es)) : entries schema heading = es :=
  entries_eq (listIn_of_field? h) rfl

/-! ### The parts of a merged schema -/

/-- A list of items: its heading, what tells its items apart, and the names under which a schema may list them. -/
structure ItemList where
  heading : String
  key : Value → Loose ItemKey
  names : List String

def itemLists : List ItemList := [
  ⟨"endpoints", ofEndpoint, ["endpoints"]⟩,
  ⟨"usecases", ofUseCase, ["usecases"]⟩,
  ⟨"sequence_flows", ofFlow, ["sequence_flows", "sequenceFlows"]⟩,
  ⟨"activity", ofStep, ["activity", "activity_flows"]⟩,
  ⟨"states", ofStates, ["states"]⟩,
  ⟨"patterns", ofGroup "type", ["patterns"]⟩,
  ⟨"layers", ofGroup "name", ["layers"]⟩]

def headings : List String := languages ++ "relations" :: itemLists.map (·.heading)

def groupsOf (ast ai : Value) : Loose (List (String × List ClassSum)) :=
  languages.mapM fun l => do return (l, ← sums ast ai l)

def classesOf (groups : List (String × List ClassSum)) : Loose (List (String × Value)) :=
  groups.mapM fun g => do return (g.1, .list (← g.2.mapM fun c => c.toEntry (g.1 == "csharp")))

def namesOf (groups : List (String × List ClassSum)) : List Atom := (groups.flatMap (·.2)).map (·.name)

def allItemsOf (ast ai : Value) : Loose (List (String × Value)) :=
  itemLists.mapM fun i => do return (i.heading, ← itemsOf i.key i.names ast ai)

/-- The parts that a merged schema is put together from. -/
structure Parts where
  groups : List (String × List ClassSum)
  classes : List (String × Value)
  relations : List Value
  items : List (String × Value)
  notes : Record
  html : List (String × Value)
  css : List (String × Value)

namespace Parts

def lists (p : Parts) : List (String × Value) := p.classes ++ ("relations", .list p.relations) :: p.items

def others (p : Parts) : List (String × Value) := ("meta", .record p.notes) :: (p.html ++ p.css)

def toSchema (p : Parts) : Value := .ofFields (p.lists ++ p.others)

structure IsOf (p : Parts) (ast ai : Value) : Prop where
  groups : groupsOf ast ai = .ok p.groups
  classes : classesOf p.groups = .ok p.classes
  relations : Merge.relations (namesOf p.groups) ast ai = .ok p.relations
  items : allItemsOf ast ai = .ok p.items
  notes : (addNotes [] ast >>= fun notes => addNotes notes ai) = .ok p.notes
  html : pages "html" ast ai = .ok p.html
  css : pages "css" ast ai = .ok p.css

end Parts

theorem schemas_eq (ast ai : Value) : schemas ast ai = (do
    let groups ← groupsOf ast ai
    let classes ← classesOf groups
    let relations ← relations (namesOf groups) ast ai
    let notes ← addNotes [] ast >>= fun notes => addNotes notes ai
    let items ← allItemsOf ast ai
    let html ← pages "html" ast ai
    let css ← pages "css" ast ai
    return Parts.toSchema ⟨groups, classes, relations, items, notes, html, css⟩) := by
  unfold schemas
  refine bind_congr fun groups => bind_congr fun classes => bind_congr fun rs => ?_
  rw [bind_assoc]
  refine bind_congr fun _ => bind_congr fun notes => ?_
  simp only [allItemsOf, itemLists, mapM_cons, mapM_nil, bind_assoc, pure_bind]
  iterate 7 refine bind_congr fun _ => ?_
  refine bind_congr fun html => bind_congr fun css => ?_
  simp only [Parts.toSchema, Parts.lists, Parts.others, append_assoc, cons_append, nil_append]

variable {ast ai : Value} {name : String} {ps : List (String × Value)}

theorem schemas_ok_iff {m : Value} : schemas ast ai = .ok m ↔ ∃ p : Parts, p.IsOf ast ai ∧ m = p.toSchema := by
  rw [schemas_eq]
  constructor
  · intro h
    obtain ⟨groups, hgroups, h⟩ := of_bind h
    obtain ⟨classes, hclasses, h⟩ := of_bind h
    obtain ⟨relations, hrelations, h⟩ := of_bind h
    obtain ⟨notes, hnotes, h⟩ := of_bind h
    obtain ⟨items, hitems, h⟩ := of_bind h
    obtain ⟨html, hhtml, h⟩ := of_bind h
    obtain ⟨css, hcss, h⟩ := of_bind h
    refine ⟨⟨groups, classes, relations, items, notes, html, css⟩, ?_, (of_pure h).symm⟩
    exact ⟨hgroups, hclasses, hrelations, hitems, hnotes, hhtml, hcss⟩
  · rintro ⟨p, hp, rfl⟩
    rw [hp.groups, ok_bind, hp.classes, ok_bind, hp.relations, ok_bind, hp.notes, ok_bind,
      hp.items, ok_bind, hp.html, ok_bind, hp.css, ok_bind]
    rfl

/-! ### The fields of a merged schema -/

theorem pages_cases (h : pages name ast ai = .ok ps) :
    ps = [] ∨ ∃ v, ps = [(name, v)] ∧ (v.isRecord → ast.part name = v) := by
  obtain ⟨first, hfirst, h⟩ := of_bind h
  obtain ⟨second, _, h⟩ := of_bind h
  split at h
  · obtain ⟨xs, _, h⟩ := of_bind h
    exact .inr ⟨_, (of_pure h).symm, by rintro ⟨⟩⟩
  · exact .inr ⟨_, (of_pure h).symm, by rintro ⟨⟩⟩
  · cases h
  · exact .inr ⟨_, (of_pure h).symm, fun _ => part_of_get hfirst⟩
  · obtain ⟨xs, _, h⟩ := of_bind h
    exact .inr ⟨_, (of_pure h).symm, by rintro ⟨⟩⟩
  · exact .inl (of_pure h).symm

theorem not_mem_keys_of_pages {key : String} (hne : key ≠ name)
    (h : pages name ast ai = .ok ps) : key ∉ ps.map (·.1) := by
  rcases pages_cases h with rfl | ⟨v, rfl, _⟩
  · exact not_mem_nil
  · simpa using hne

theorem headings_nodup : headings.Nodup := by decide

namespace Parts.IsOf

variable {p : Parts}

theorem isRecord (h : p.IsOf ast ai) : ast.isRecord ∧ ai.isRecord := by
  obtain ⟨first, hfirst, hrest⟩ := of_bind h.html
  obtain ⟨second, hsecond, _⟩ := of_bind hrest
  exact ⟨isRecord_of_get hfirst, isRecord_of_get hsecond⟩

theorem keys_lists (h : p.IsOf ast ai) : p.lists.map (·.1) = headings := by
  have hgroups : p.groups.map (·.1) = languages := by
    rw [Loose.map_of_mapM (g := id) ?_ h.groups, map_id]
    intro l g hg
    obtain ⟨cs, _, hg⟩ := of_bind hg
    exact congrArg Prod.fst (of_pure hg).symm
  have hclasses : p.classes.map (·.1) = languages := by
    rw [Loose.map_of_mapM (g := (·.1)) ?_ h.classes, hgroups]
    intro g c hc
    obtain ⟨vs, _, hc⟩ := of_bind hc
    exact congrArg Prod.fst (of_pure hc).symm
  have hitems : p.items.map (·.1) = itemLists.map (·.heading) := by
    apply Loose.map_of_mapM (g := (·.heading)) ?_ h.items
    intro i v hv
    obtain ⟨w, _, hv⟩ := of_bind hv
    exact congrArg Prod.fst (of_pure hv).symm
  rw [Parts.lists, map_append, map_cons, hclasses, hitems, headings]

theorem field?_toSchema_of_mem (h : p.IsOf ast ai) {key : String} {v : Value} (hmem : (key, v) ∈ p.lists) :
    p.toSchema.field? key = some v := by
  have hnodup : (p.lists.map (·.1)).Nodup := by
    rw [h.keys_lists]
    exact headings_nodup
  rw [Parts.toSchema, field?_ofFields_append, field?_ofFields_of_mem hnodup hmem, Option.some_or]

theorem field?_relations (h : p.IsOf ast ai) : p.toSchema.field? "relations" = some (.list p.relations) :=
  h.field?_toSchema_of_mem (mem_append_right _ mem_cons_self)

theorem field?_toSchema_of_not_mem (h : p.IsOf ast ai) {key : String}
    (hkey : key ∉ headings ++ ["meta", "html", "css"]) : p.toSchema.field? key = none := by
  simp only [mem_append, mem_cons, not_mem_nil, or_false, not_or] at hkey
  obtain ⟨hheading, hmeta, hhtml, hcss⟩ := hkey
  apply field?_ofFields_of_not_mem
  rw [map_append, h.keys_lists, Parts.others, map_cons, map_append]
  simp only [mem_append, mem_cons, not_or]
  exact ⟨hheading, hmeta, not_mem_keys_of_pages hhtml h.html, not_mem_keys_of_pages hcss h.css⟩

theorem field?_toSchema_of_others (h : p.IsOf ast ai) {key : String} (hkey : key ∉ headings) (hmeta : "meta" ≠ key) :
    p.toSchema.field? key = ((Value.ofFields p.html).field? key).or ((Value.ofFields p.css).field? key) := by
  have hlists : (Value.ofFields p.lists).field? key = none := by
    apply field?_ofFields_of_not_mem
    rw [h.keys_lists]
    exact hkey
  rw [Parts.toSchema, field?_ofFields_append, hlists, Option.none_or, Parts.others, field?_ofFields_cons,
    if_neg hmeta, field?_ofFields_append]

theorem field?_html (h : p.IsOf ast ai) : p.toSchema.field? "html" = (Value.ofFields p.html).field? "html" := by
  rw [h.field?_toSchema_of_others (by decide) (by decide),
    field?_ofFields_of_not_mem (not_mem_keys_of_pages (by decide) h.css), Option.or_none]

theorem field?_css (h : p.IsOf ast ai) : p.toSchema.field? "css" = (Value.ofFields p.css).field? "css" := by
  rw [h.field?_toSchema_of_others (by decide) (by decide),
    field?_ofFields_of_not_mem (not_mem_keys_of_pages (by decide) h.html), Option.none_or]

theorem exists_sums (h : p.IsOf ast ai) {l : String} (hl : l ∈ languages) : ∃ cs vs, sums ast ai l = .ok cs ∧
    (l, cs) ∈ p.groups ∧ (cs.mapM fun c => c.toEntry (l == "csharp")) = .ok vs ∧
      p.toSchema.field? l = some (.list vs) := by
  obtain ⟨g, hg, hsums⟩ := Loose.exists_of_mapM h.groups hl
  obtain ⟨cs, hcs, hg'⟩ := of_bind hsums
  cases of_pure hg'
  obtain ⟨q, hq, hentries⟩ := Loose.exists_of_mapM h.classes hg
  obtain ⟨vs, hvs, hq'⟩ := of_bind hentries
  cases of_pure hq'
  exact ⟨cs, vs, hcs, hg, hvs, h.field?_toSchema_of_mem (mem_append_left _ hq)⟩

end Parts.IsOf

end CodeAtlas.Merge
