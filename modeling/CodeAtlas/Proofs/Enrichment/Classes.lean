import CodeAtlas.Enrichment.Enrich
import CodeAtlas.Proofs.Value.Fields

/-!
# The classes of a schema after enrichment

A schema that was read from source text is sent to a model, and the answer is merged into it.  Merging loses no class;
an answer that cannot be merged takes the place of the schema, and then the classes are those that the answer lists by
itself.
-/

namespace CodeAtlas

open Loose (of_bind)

namespace ClassSum

theorem name_absorb {c d : ClassSum} {entry : Value} (h : c.absorb entry = .ok d) : d.name = c.name := by
  obtain ⟨fields, _, h⟩ := of_bind h
  obtain ⟨methods, _, h⟩ := of_bind h
  obtain ⟨stereotype, _, h⟩ := of_bind h
  obtain ⟨flag, _, h⟩ := of_bind h
  obtain ⟨package, _, h⟩ := of_bind h
  obtain ⟨space, _, h⟩ := of_bind h
  cases h
  rfl

theorem names_absorbInto {name : Atom} {entry : Value} {cs ds : List ClassSum}
    (h : absorbInto name entry cs = .ok ds) : ds.map (·.name) = name.insertInto (cs.map (·.name)) := by
  induction cs generalizing ds with
  | nil =>
    obtain ⟨d, hd, h⟩ := of_bind h
    cases h
    rw [List.map_singleton, name_absorb hd]
    rfl
  | cons c cs ih =>
    unfold absorbInto at h
    rw [List.map_cons, Atom.insertInto_cons]
    split at h
    next hsame =>
      obtain ⟨d, hd, h⟩ := of_bind h
      cases h
      rw [if_pos hsame, List.map_cons, name_absorb hd]
    next hsame =>
      obtain ⟨rest, hrest, h⟩ := of_bind h
      cases h
      rw [if_neg hsame, List.map_cons, ih hrest]

theorem get_class_of_toEntry {c : ClassSum} {b : Bool} {v : Value} (h : c.toEntry b = .ok v) :
    v.get "class" = .ok (.atom c.name) := by
  obtain ⟨fields, _, h⟩ := of_bind h
  obtain ⟨methods, _, h⟩ := of_bind h
  cases h
  rfl

end ClassSum

namespace Merge

def Names (entry : Value) (n : String) : Prop := entry.get "class" = .ok (.text n) ∧ n ≠ ""

variable {cs ds : List ClassSum} {n l : String} {ast ai : Value}

theorem mem_names_absorbEntry {entry : Value} (h : absorbEntry cs entry = .ok ds) :
    .text n ∈ ds.map (·.name) ↔ .text n ∈ cs.map (·.name) ∨ Names entry n := by
  obtain ⟨name, hname, h⟩ := of_bind h
  split at h
  next htruthy =>
    obtain ⟨a, ha, h⟩ := of_bind h
    cases Value.eq_atom_of_key ha
    rw [ClassSum.names_absorbInto h, Atom.text_mem_insertInto, or_comm]
    refine or_congr_right ⟨?_, ?_⟩
    · rintro rfl
      refine ⟨hname, ?_⟩
      rintro rfl
      cases htruthy
    · rintro ⟨hn, _⟩
      exact (Value.atom.inj (Except.ok.inj (hname.symm.trans hn))).symm
  next htruthy =>
    cases h
    refine ⟨.inl, ?_⟩
    rintro (hmem | ⟨hn, hne⟩)
    · exact hmem
    · cases hname.symm.trans hn
      exact absurd (by simpa [Value.truthy, Value.text, Atom.truthy] using hne) htruthy

theorem mem_names_absorbAll {entries : List Value} (h : absorbAll cs (.list entries) = .ok ds) :
    .text n ∈ ds.map (·.name) ↔ .text n ∈ cs.map (·.name) ∨ ∃ entry ∈ entries, Names entry n := by
  change entries.foldlM absorbEntry cs = .ok ds at h
  induction entries generalizing cs with
  | nil =>
    cases h
    simp
  | cons entry entries ih =>
    rw [List.foldlM_cons] at h
    obtain ⟨es, hes, h⟩ := of_bind h
    rw [ih h, mem_names_absorbEntry hes]
    simp only [List.mem_cons, exists_eq_or_imp, or_assoc]

/-! ### Merged schemas -/

theorem listIn_eq {schema : Value} {heading : String} {es : List Value} (h : schema.get heading = .ok (.list es))
    (hne : es ≠ []) : listIn schema heading = .ok (.list es) := by
  cases schema with
  | record fs =>
    have hget : Record.get? (.text heading) fs = some (.list es) := by
      have hgetD : (Record.get? (.text heading) fs).getD .null = .list es := Except.ok.inj h
      cases hfield : Record.get? (.text heading) fs with
      | none =>
        rw [hfield] at hgetD
        cases hgetD
      | some v => rw [← hgetD, hfield, Option.getD_some]
    show Except.ok (Value.orElse ((Record.get? (.text heading) fs).getD _) _) = _
    rw [hget, Option.getD_some, Value.orElse, if_pos]
    simpa [Value.truthy] using hne
  | _ => cases h

theorem mem_names_sums (h : sums ast ai l = .ok cs) (hn : n ≠ "")
    (hlists : Schema.Lists ast l n) : .text n ∈ cs.map (·.name) := by
  obtain ⟨es, hes, entry, hentry, hclass⟩ := hlists
  have hfirst := listIn_eq hes (List.ne_nil_of_mem hentry)
  simp only [sums, hfirst, Loose.ok_bind] at h
  obtain ⟨second, _, h⟩ := of_bind h
  obtain ⟨ds, hds, h⟩ := of_bind h
  have hmem : .text n ∈ ds.map (·.name) := (mem_names_absorbAll hds).mpr (.inr ⟨entry, hentry, hclass, hn⟩)
  -- The entries of the second schema only add names.
  obtain ⟨items, _, h⟩ := of_bind h
  refine Loose.foldlM_invariant (fun cs : List ClassSum => .text n ∈ cs.map (·.name)) ?_ hmem h
  intro cs entry cs' _ hcs hstep
  exact (mem_names_absorbEntry hstep).mpr (.inl hcs)

theorem languages_nodup : languages.Nodup := by decide

/-- **Merging loses no class**: what the first schema lists under a language, the merged one lists under it. -/
theorem schemas_lists {s : Value} (h : schemas ast ai = .ok s) (hl : l ∈ languages) (hn : n ≠ "")
    (hlists : Schema.Lists ast l n) : Schema.Lists s l n := by
  obtain ⟨groups, hgroups, h⟩ := of_bind h
  obtain ⟨classes, hclasses, h⟩ := of_bind h
  obtain ⟨rest, rfl⟩ : ∃ rest, s = .ofFields (classes ++ rest) := by
    iterate 12 obtain ⟨_, _, h⟩ := of_bind h
    cases h
    exact ⟨_, by rw [List.append_assoc, List.append_assoc]⟩
  have hkeys : classes.map (·.1) = languages := by
    rw [Loose.map_of_mapM (g := (·.1)) ?_ hclasses, Loose.map_of_mapM (g := id) ?_ hgroups, List.map_id]
    · intro l p hp
      obtain ⟨cs, _, hp⟩ := of_bind hp
      cases hp
      rfl
    · rintro ⟨l, cs⟩ p hp
      obtain ⟨vs, _, hp⟩ := of_bind hp
      cases hp
      rfl
  obtain ⟨p, hp, hsums⟩ := Loose.exists_of_mapM hgroups hl
  obtain ⟨cs, hcs, hp'⟩ := of_bind hsums
  cases hp'
  obtain ⟨q, hq, hentries⟩ := Loose.exists_of_mapM hclasses hp
  obtain ⟨vs, hvs, hq'⟩ := of_bind hentries
  cases hq'
  obtain ⟨c, hc, hcn⟩ := List.mem_map.mp (mem_names_sums hcs hn hlists)
  obtain ⟨v, hv, hcv⟩ := Loose.exists_of_mapM hvs hc
  refine ⟨vs, Value.get_ofFields (by rw [hkeys]; exact languages_nodup) hq, v, hv, ?_⟩
  rw [ClassSum.get_class_of_toEntry hcv, hcn]
  rfl

end Merge

namespace Enrichment

/-- Every class that a schema lists under a language is listed under it by a second schema. -/
def Keeps (ast s : Value) : Prop := ∀ l ∈ Merge.languages, ∀ n, Schema.Lists ast l n → Schema.Lists s l n

/-- The service is asked, and its answer holds a record. -/
def Replies (service : Service) (stub : Bool) (ai : Value) : Prop :=
  stub = false ∧ service.isReady = true ∧ ai.isRecord = true ∧ ∃ answer content,
    service.answer = .ok answer ∧ Service.content answer = .ok content ∧ Json.extractFrom content = .ok ai

variable {service : Service} {stub : Bool} {ai ast answer s : Value}

theorem Replies.eq_merged (h : Replies service stub ai)
    (hanswer : service.answer = .ok answer) (hs : answered ast answer = .ok s) : s = merged ast ai := by
  obtain ⟨_, _, hrecord, answer', content, hanswer', hcontent, hai⟩ := h
  cases hanswer.symm.trans hanswer'
  obtain ⟨content', hcontent', hs⟩ := of_bind hs
  obtain ⟨_, _, hs⟩ := of_bind hs
  obtain ⟨ai', hai', hs⟩ := of_bind hs
  cases hcontent.symm.trans hcontent'
  cases hai.symm.trans hai'
  rw [if_pos hrecord] at hs
  exact (Except.ok.inj hs).symm

theorem exists_replies_of_answered (hstub : stub = false)
    (hready : service.isReady) (hanswer : service.answer = .ok answer) (hs : answered ast answer = .ok s) :
    s = ast ∨ ∃ ai, Replies service stub ai ∧ s = merged ast ai := by
  obtain ⟨content, hcontent, hs'⟩ := of_bind hs
  obtain ⟨_, _, hs'⟩ := of_bind hs'
  obtain ⟨ai, hai, hs'⟩ := of_bind hs'
  cases hrecord : ai.isRecord with
  | true =>
    have hreplies : Replies service stub ai := ⟨hstub, hready, hrecord, answer, content, hanswer, hcontent, hai⟩
    exact .inr ⟨ai, hreplies, hreplies.eq_merged hanswer hs⟩
  | false =>
    rw [hrecord] at hs'
    exact .inl (Except.ok.inj hs').symm

theorem enrich_cases {model : String} {sent : List Value}
    (h : enrich service stub model ast = (.ok (.schema s), sent)) :
    ((stub = false → service.isReady = false) ∧ s = ast) ∨ ((∃ m, service.answer = .error (.disabled m)) ∧ s = ast) ∨
      (stub = false ∧ service.isReady ∧
        ∃ answer, service.answer = .ok answer ∧ Enrichment.answered ast answer = .ok s) := by
  unfold enrich at h
  split at h
  next hidle =>
    cases h
    exact .inl ⟨fun hstub => by simpa [hstub] using hidle, rfl⟩
  next hasked =>
    split at h
    next m hanswer =>
      cases h
      exact .inr (.inl ⟨⟨m, hanswer⟩, rfl⟩)
    next => cases h
    next => cases h
    next answer hanswer =>
      split at h
      next s' hs' =>
        cases h
        simp only [Bool.or_eq_true, Bool.not_eq_true', not_or, Bool.not_eq_true, Bool.not_eq_false] at hasked
        exact .inr (.inr ⟨hasked.1, hasked.2, answer, hanswer, hs'⟩)
      next => cases h

/-- **Exactly when enriching keeps all classes.**  Let a schema whose classes have names be enriched to a schema.  All
its classes are kept, whatever the service does, unless the service answers with a record that cannot be merged; such a
record takes the place of the schema, and the classes are kept just when it lists them all by itself.  A schema that
comes from a survey has names for all its classes. -/
theorem enrich_keeps_iff (service : Service) (stub : Bool) (model : String) (ast s : Value) (sent : List Value)
    (hnamed : ∀ l ∈ Merge.languages, ∀ n, Schema.Lists ast l n → n ≠ "")
    (h : enrich service stub model ast = (.ok (.schema s), sent)) :
    Keeps ast s ↔ ∀ ai, Replies service stub ai → (∃ e, Merge.schemas ast ai = .error e) → Keeps ast ai := by
  constructor
  · rintro hkeeps ai hreplies ⟨e, he⟩
    have hs : s = merged ast ai := by
      rcases enrich_cases h with ⟨hidle, _⟩ | ⟨⟨m, hm⟩, _⟩ | ⟨_, _, answer, hanswer, hs⟩
      · exact absurd hreplies.2.1 (by simp [hidle hreplies.1])
      · obtain ⟨_, _, _, answer, _, hanswer, _⟩ := hreplies
        cases hm.symm.trans hanswer
      · exact hreplies.eq_merged hanswer hs
    rwa [hs, merged, he] at hkeeps
  · intro hcond
    rcases enrich_cases h with ⟨_, rfl⟩ | ⟨_, rfl⟩ | ⟨hstub, hready, answer, hanswer, hs⟩
    · exact fun _ _ _ hlists => hlists
    · exact fun _ _ _ hlists => hlists
    rcases exists_replies_of_answered hstub hready hanswer hs with rfl | ⟨ai, hreplies, rfl⟩
    · exact fun _ _ _ hlists => hlists
    cases hmerge : Merge.schemas ast ai with
    | error e =>
      rw [merged, hmerge]
      exact hcond ai hreplies ⟨e, hmerge⟩
    | ok s =>
      rw [merged, hmerge]
      exact fun l hl n hlists => Merge.schemas_lists hmerge hl (hnamed l hl n hlists) hlists

/-! ### Two answers -/

def answering (content : String) : Service where
  enabled := true
  hasKey := true
  answer := .ok (.ofFields [("choices", .list [.ofFields [("message", .ofFields [("content", .text content)])]])])

def order : Value :=
  .ofFields [("java", .list [.ofFields [("class", .text "Order"), ("fields", .texts []), ("methods", .texts [])]])]

def plainItem : String := "\x7b\"java\": [\x7b\"class\": \"Item\", \"fields\": [\"id\"]\x7d]\x7d"

/-- The same class, with its field as a record; fields are collected by their texts. -/
def itemizedItem : String :=
  "\x7b\"java\": [\x7b\"class\": \"Item\", \"fields\": [\x7b\"name\": \"id\"\x7d]\x7d]\x7d"

theorem order_named : ∀ l ∈ Merge.languages, ∀ n, Schema.Lists order l n → n ≠ "" := by
  rintro l hl n ⟨cs, hcs, c, hc, hn⟩
  simp only [Merge.languages, List.mem_cons, List.not_mem_nil, or_false] at hl
  rcases hl with rfl | rfl | rfl | rfl | rfl | rfl | rfl
  case inr.inl =>
    cases hcs
    cases List.mem_singleton.mp hc
    rw [← Atom.text.inj (Value.atom.inj (Except.ok.inj hn))]
    decide
  all_goals cases hcs

theorem replies_answering_iff {content : String} :
    Replies (answering content) false ai ↔ ai.isRecord ∧ Json.extract content = ai := by
  constructor
  · rintro ⟨_, _, hrecord, answer, content', ⟨⟩, hcontent, hai⟩
    cases hcontent
    exact ⟨hrecord, Except.ok.inj hai⟩
  · rintro ⟨hrecord, rfl⟩
    exact ⟨rfl, rfl, hrecord, _, _, rfl, rfl, rfl⟩

theorem enrich_keeps_iff_plainItem :
    (∀ l ∈ Merge.languages, ∀ n, Schema.Lists order l n → n ≠ "") ∧ ∃ s sent,
      enrich (answering plainItem) false Service.defaultModel order = (.ok (.schema s), sent) ∧
        Schema.Lists order "java" "Order" ∧ Keeps order s := by
  refine ⟨order_named, _, _, by rfl, ⟨_, rfl, _, .head _, rfl⟩, ?_⟩
  refine (enrich_keeps_iff (answering plainItem) false Service.defaultModel order _ _ order_named (by rfl)).mpr ?_
  rintro ai hreplies ⟨e, he⟩
  obtain ⟨_, rfl⟩ := replies_answering_iff.mp hreplies
  cases he

/-- The answer with a field that is a record cannot be merged, and the class that was there is lost. -/
theorem enrich_loses_order :
    ∃ s sent, enrich (answering itemizedItem) false Service.defaultModel order = (.ok (.schema s), sent) ∧
      Schema.Lists order "java" "Order" ∧ ¬ Schema.Lists s "java" "Order" := by
  refine ⟨Json.extract itemizedItem, _, by rfl, ⟨_, rfl, _, .head _, rfl⟩, ?_⟩
  rintro ⟨cs, hcs, c, hc, hn⟩
  cases hcs
  cases List.mem_singleton.mp hc
  exact absurd (Atom.text.inj (Value.atom.inj (Except.ok.inj hn))) (by decide)

end Enrichment

end CodeAtlas
