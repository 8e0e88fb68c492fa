import CodeAtlas.Proofs.Language.ClassNames
import CodeAtlas.Proofs.Relations.Categories
import CodeAtlas.Proofs.Relations.Inference
import CodeAtlas.Proofs.Repository.Scan

/-!
# What a survey of reports says

The reports of files are put together into a survey.  That always succeeds, and which classes the relations of the
survey join is told here by the classes and relations of the reports: some are declared, compositions are inferred from
the fields of the last class of a name, and implementations from whether the first class of a name is abstract.
Relations are checked before others are inferred from them; what is inferred needs no second check.

* **`Survey.relations_sound`**: the relations of a survey without an advisor.
-/

namespace CodeAtlas

open List Loose

theorem Language.mem_all (l : Language) : l ∈ all := by
  cases l <;> decide

theorem Language.name_eq_iff {l m : Language} : l.name = m.name ↔ l = m := by
  cases l <;> cases m <;> decide

namespace Survey

open Register ClassEntry

variable {a b heading : String} {k : RelationKind} {v : Value} {vs : List Value} {r : FileReport} {rs : List FileReport}
  {e : ClassEntry} {es : List ClassEntry} {files : List SourceFile} {rels : List Relation}

/-! ### Classes, language by language -/

def entries (rs : List FileReport) : List ClassEntry :=
  Language.all.flatMap fun l => (rs.filter fun r => decide (r.language = l)).flatMap (·.classes)

theorem mem_entries_iff : e ∈ entries rs ↔ ∃ r ∈ rs, e ∈ r.classes := by
  simp only [entries, mem_flatMap, mem_filter, decide_eq_true_eq]
  constructor
  · rintro ⟨l, _, r, ⟨hr, _⟩, he⟩
    exact ⟨r, hr, he⟩
  · rintro ⟨r, hr, he⟩
    exact ⟨r.language, r.language.mem_all, r, ⟨hr, rfl⟩, he⟩

theorem classesUnder_name (rs : List FileReport) (l : Language) : classesUnder rs l.name =
    ((rs.filter fun r => decide (r.language = l)).flatMap (·.classes)).map ClassEntry.toValue := by
  unfold classesUnder
  congr 3
  funext r
  rw [Bool.eq_iff_iff, beq_iff_eq, decide_eq_true_iff, Language.name_eq_iff]

theorem classesUnder_other (rs : List FileReport) (h : ∀ l : Language, l.name ≠ heading) :
    classesUnder rs heading = [] := by
  unfold classesUnder
  rw [filter_eq_nil_iff.mpr fun r _ => by simpa using h r.language]
  rfl

theorem allClasses_eq (rs : List FileReport) : allClasses rs = (entries rs).map ClassEntry.toValue := by
  have hother : ∀ heading ∈ ["javascript", "c", "html", "css"], classesUnder rs heading = [] := by
    intro heading hmem
    refine classesUnder_other rs fun l => ?_
    revert heading hmem
    cases l <;> decide
  rw [entries, map_flatMap, ← funext (classesUnder_name rs)]
  simp only [allClasses, headings, flatMap_cons, flatMap_nil, Language.all]
  rw [hother "javascript" (by simp), hother "c" (by simp), hother "html" (by simp), hother "css" (by simp)]
  simp [Language.name]

theorem classes_of_ofFile? [Java.Parser] {path package : String} {source : Option String}
    (h : FileReport.ofFile? path package source = some r) :
    r.classes = (Workbench.read {} path source package).1 := by
  obtain ⟨l, _, rfl⟩ := Option.map_eq_some_iff.mp h
  generalize Workbench.read {} path source package = p
  rfl

theorem reports_named [Java.Parser] {directory : String} (h : r ∈ reports directory files) : Named r.classes := by
  obtain ⟨f, _, hr⟩ := mem_filterMap.mp (mem_filter.mp h).1
  rw [classes_of_ofFile? hr]
  exact Workbench.read_named _ _ _ _

/-! ### Sources -/

theorem withSource_record (fs : Record) : withSource (.record fs) =
    if Record.has (.text "source") fs then .record fs
    else .record (Record.put (.text "source") (.text "heuristic") fs) := rfl

theorem get_withSource (v : Value) {key : String} (h : "source" ≠ key) : (withSource v).get key = v.get key := by
  cases v with
  | record fs =>
    rw [withSource_record]
    split
    · rfl
    · show Except.ok _ = Except.ok _
      rw [Record.get?_put_text, if_neg h]
  | _ => rfl

theorem withSource_joins_iff : Joins (withSource v) a b k ↔ Joins v a b k := by
  constructor <;> rintro ⟨hfrom, hto, hkind⟩
  · rw [get_withSource v (by decide)] at hfrom hto hkind
    exact ⟨hfrom, hto, hkind⟩
  · refine ⟨?_, ?_, ?_⟩ <;> rwa [get_withSource v (by decide)]

theorem shows_withSource : Shows (vs.map withSource) a b k ↔ Shows vs a b k := by
  simp only [Shows, mem_map, exists_exists_and_eq_and, withSource_joins_iff]

theorem withSource_differ {w : Value} (h : Differ v w) : Differ (withSource v) (withSource w) := by
  unfold Differ at h ⊢
  rwa [get_withSource v (by decide), get_withSource v (by decide), get_withSource v (by decide),
    get_withSource w (by decide), get_withSource w (by decide), get_withSource w (by decide)]

theorem hasSource_withSource (h : IsJoin v) : HasSource (withSource v) := by
  obtain ⟨a, b, k, hjoins⟩ := h
  cases v with
  | record fs =>
    rw [withSource_record]
    split
    next hhas =>
      obtain ⟨s, hs⟩ := Option.isSome_iff_exists.mp hhas
      exact ⟨s, by simp only [Value.field, hs]⟩
    next =>
      refine ⟨.text "heuristic", ?_⟩
      simp only [Value.field, Record.get?_put_text, ↓reduceIte]
  | _ => cases hjoins.source

/-- Relations that join classes, each with its source, and no two of them alike. -/
structure IsListing (vs : List Value) : Prop where
  isJoin : ∀ v ∈ vs, IsJoin v
  hasSource : ∀ v ∈ vs, HasSource v
  differ : vs.Pairwise Differ

theorem isListing_withSource (hjoin : ∀ v ∈ vs, IsJoin v) (hdiffer : vs.Pairwise Differ) :
    IsListing (vs.map withSource) where
  isJoin := forall_mem_map.mpr fun v hv => by
    obtain ⟨a, b, k, hjoins⟩ := hjoin v hv
    exact ⟨a, b, k, withSource_joins_iff.mpr hjoins⟩
  hasSource := forall_mem_map.mpr fun v hv => hasSource_withSource (hjoin v hv)
  differ := pairwise_map.mpr (hdiffer.imp withSource_differ)

/-! ### Relations of a survey -/

/-- A relation among classes is declared, and its ends are allowed. -/
def Declares (es : List ClassEntry) (rels : List Relation) (a b : String) (k : RelationKind) : Prop :=
  (∃ r ∈ rels, r.fromClass = a ∧ r.toClass = b ∧ r.kind = k.name) ∧
    a ≠ "" ∧ b ≠ "" ∧ (k ≠ .dependency → a ≠ b ∧ a ∈ es.map (·.name) ∧ b ∈ es.map (·.name))

/-- The last class of a name has a field of another class. -/
def Holds (es : List ClassEntry) (a b : String) : Prop :=
  b ∈ es.map (·.name) ∧ b ≠ a ∧ ∃ e, lastNamed? a es = some e ∧ b ∈ e.fieldTypes

/-- A relation says that a class extends another; one class of the second name is not abstract, and the first class of
the first name is. -/
def Fulfils (es : List ClassEntry) (rels : List Relation) (a b : String) : Prop :=
  Declares es rels a b .extends ∧ (∃ e ∈ es, e.name = b ∧ e.isAbstract = false) ∧
    ∃ e, firstNamed? a es = some e ∧ e.isAbstract = true

theorem joins_toValue_iff {r : Relation} :
    Joins r.toValue a b k ↔ r.fromClass = a ∧ r.toClass = b ∧ r.kind = k.name := by
  have hjoins : Joins r.toValue a b k ↔ Value.text r.fromClass = .text a ∧ Value.text r.toClass = .text b ∧
      Value.text r.kind = .text k.name :=
    ⟨fun h => ⟨Except.ok.inj h.source, Except.ok.inj h.target, Except.ok.inj h.kind⟩,
      fun h => ⟨congrArg _ h.1, congrArg _ h.2.1, congrArg _ h.2.2⟩⟩
  simpa [Value.text] using hjoins

theorem shows_toValue : Shows (rels.map Relation.toValue) a b k ↔
    ∃ r ∈ rels, r.fromClass = a ∧ r.toClass = b ∧ r.kind = k.name := by
  simp only [Shows, mem_map, exists_exists_and_eq_and, joins_toValue_iff]

theorem isPlain_toValue (rels : List Relation) : ∀ v ∈ rels.map Relation.toValue, isPlain v :=
  forall_mem_map.mpr fun _ _ => rfl

theorem classNames_toValue (es : List ClassEntry) :
    classNames (.list (es.map ClassEntry.toValue)) = .ok (es.map fun e => .text e.name) := by
  rw [classNames, Value.items, ok_bind, mapM_map]
  exact mapM_ok fun e _ => rfl

theorem exists_setClasses (es : List ClassEntry) : ∃ known, setClasses {} (.list (es.map ClassEntry.toValue)) =
    .ok ⟨[], known⟩ ∧ ∀ s, .text s ∈ known ↔ s ∈ es.map (·.name) := by
  refine ⟨atomSet (es.map fun e => .text e.name), by rw [setClasses, classNames_toValue]; rfl, fun s => ?_⟩
  rw [text_mem_atomSet]
  simp

theorem allowsEnds_iff {known : List Atom} (h : ∀ s, .text s ∈ known ↔ s ∈ es.map (·.name)) :
    AllowsEnds known k a b ↔
      a ≠ "" ∧ b ≠ "" ∧ (k ≠ .dependency → a ≠ b ∧ a ∈ es.map (·.name) ∧ b ∈ es.map (·.name)) := by
  rw [AllowsEnds, h, h]

/-- **The relations among classes that were found always come out**, and what they show: what is declared, and what is
inferred from fields and bases. -/
theorem exists_registered (es : List ClassEntry) (rels : List Relation) :
    ∃ r, registered (es.map ClassEntry.toValue) (rels.map Relation.toValue) = .ok r ∧ IsListing r.relations ∧
      ∀ a b k, Shows r.relations a b k ↔
        Declares es rels a b k ∨ (k = .composition ∧ Holds es a b) ∨ (k = .implements ∧ Fulfils es rels a b) := by
  obtain ⟨known, hclasses, hknown⟩ := exists_setClasses es
  have hplain := isPlain_toValue rels
  have hjoin : ∀ v ∈ kept known (rels.map Relation.toValue), IsJoin v := fun v => isJoin_of_mem_kept hplain
  have hchecked := isListing_withSource hjoin ((firstTriples_differ hplain).filter _)
  generalize hkept : (kept known (rels.map Relation.toValue)).map withSource = checked at hchecked
  have hdeclared : ∀ a b k, Shows checked a b k ↔ Declares es rels a b k := by
    intro a b k
    rw [← hkept, shows_withSource, shows_kept hplain, shows_toValue, allowsEnds_iff hknown]
    rfl
  obtain ⟨vs, hinfer, hjoin_vs, hshows⟩ := exists_infer (r := ⟨checked, known⟩) hchecked.isJoin es
  have hinferred : ∀ a b k, Shows vs a b k ↔
      (k = .composition ∧ Holds es a b) ∨ (k = .implements ∧ Fulfils es rels a b) := by
    intro a b k
    rw [hshows, Composes, Realizes, hknown, hdeclared]
    rfl
  have hregistered : registered (es.map ClassEntry.toValue) (rels.map Relation.toValue) =
      if vs.isEmpty then .ok ⟨checked, known⟩
      else do return ⟨(← distinct (checked ++ vs)).map withSource, known⟩ := by
    have hadd : add ⟨[], known⟩ (.list (rels.map Relation.toValue)) = .ok ⟨rels.map Relation.toValue, known⟩ := rfl
    rw [registered, hclasses, ok_bind, hadd, ok_bind, keepValid_eq known hplain, ok_bind]
    dsimp only
    rw [hkept, hinfer, ok_bind]
    rfl
  rw [hregistered]
  split
  next hempty =>
    refine ⟨_, rfl, hchecked, fun a b k => ?_⟩
    rw [hdeclared, ← hinferred, isEmpty_iff.mp hempty]
    simp [Shows]
  next =>
    have hall : ∀ v ∈ checked ++ vs, IsJoin v := forall_mem_append.mpr ⟨hchecked.isJoin, hjoin_vs⟩
    have hplain : ∀ v ∈ checked ++ vs, isPlain v := fun v hv => (hall v hv).isPlain
    rw [distinct_eq hplain, ok_bind]
    refine ⟨_, rfl, isListing_withSource (fun v hv => hall v (mem_of_mem_firsts hv)) (firstTriples_differ hplain),
      fun a b k => ?_⟩
    rw [shows_withSource, shows_firstTriples hplain, shows_append, hdeclared, hinferred]

/-! ### The survey of some reports -/

/-- What a survey of reports says about two classes. -/
def Related (rs : List FileReport) (a b : String) (k : RelationKind) : Prop :=
  Declares (entries rs) (rs.flatMap (·.relations)) a b k ∨ (k = .composition ∧ Holds (entries rs) a b) ∨
    (k = .implements ∧ Fulfils (entries rs) (rs.flatMap (·.relations)) a b)

structure IsSurveyOf (rs : List FileReport) (survey : Value) : Prop where
  classes : ∀ heading ∈ headings, survey.get heading = .ok (.list (classesUnder rs heading))
  relations : ∃ vs, survey.get "relations" = .ok (.list vs) ∧ (∀ v ∈ vs, IsJoin v) ∧
    ∀ a b k, Shows vs a b k ↔ Related rs a b k
  notes : ∃ notes, survey.get "meta" = .ok notes ∧ notes.get "files_scanned" = .ok (.nat rs.length) ∧
    notes.get "classes_found" = .ok (.nat (classCount rs)) ∧
    notes.get "analyzer_stats" = .ok (Workbench.statistics {})

theorem get_heading (classes : String → Value) (rest : List (String × Value)) (h : heading ∈ headings) :
    (Value.ofFields (headings.map (fun h => (h, classes h)) ++ rest)).get heading = .ok (classes heading) := by
  refine Value.get_ofFields ?_ (mem_map_of_mem h)
  show (headings.map fun h => h).Nodup
  decide

/-- **The reports of files always come to a survey**, as long as nobody gives advice. -/
theorem exists_ofReports (rs : List FileReport) (files : List SourceFile) (groups : Record) (name : String) :
    ∃ survey, ofReports rs files groups name .silent = .ok survey ∧ IsSurveyOf rs survey ∧
      IsListing (survey.listAt "relations") := by
  obtain ⟨register, hregister, hlisting, hshows⟩ := exists_registered (entries rs) (rs.flatMap (·.relations))
  rw [← allClasses_eq] at hregister
  obtain ⟨cycles, _, hcycles⟩ := cycles_eq fun v hv => by
    obtain ⟨a, b, k, hjoins⟩ := hlisting.isJoin v hv
    exact hjoins.hasTextEnds
  have hkinds := categorize_eq fun v hv => by
    obtain ⟨a, b, k, hjoins⟩ := hlisting.isJoin v hv
    exact ⟨_, hjoins.kind⟩
  refine ⟨_, by rw [ofReports, hregister, ok_bind, hcycles, ok_bind, hkinds]; rfl,
    ⟨fun heading hheading => ?_, ⟨register.relations, rfl, hlisting.isJoin, hshows⟩, ⟨_, rfl, ?_⟩⟩, ?_⟩
  · exact get_heading _ _ hheading
  · split
    · exact ⟨rfl, rfl, rfl⟩
    · exact ⟨rfl, rfl, rfl⟩
  · exact hlisting

/-! ### Surveys of repositories -/

def filesRead (root : Entry) (limits : Value) : Loose (List SourceFile) := do
  let maxFiles ← limits.getD "max_files" (.nat 20000)
  let maxBytes ← limits.getD "max_bytes" (.nat 2000000)
  limited (found root maxFiles maxBytes) maxFiles

variable {root : Entry} {limits : Value}

theorem exists_ofRepository_eq [Java.Parser] (h : filesRead root limits = .ok files) (name : String) (advisor : Advisor)
    (delivery : Reordering SourceFile) : ∃ all groups, ofRepository root name limits advisor delivery =
      ofReports (reports "" (delivery.order files)) all groups name advisor := by
  obtain ⟨maxFiles, hfiles, h⟩ := of_bind h
  obtain ⟨maxBytes, hbytes, h⟩ := of_bind h
  have hgroups := Discovery.groups_texts ((found root maxFiles maxBytes).map (·.path))
  rw [ofRepository, hfiles, ok_bind, hbytes, ok_bind]
  dsimp only
  rw [hgroups, ok_bind, h, ok_bind]
  exact ⟨found root maxFiles maxBytes, _, rfl⟩

theorem exists_ofRepository [Java.Parser] (h : filesRead root limits = .ok files) (name : String)
    (delivery : Reordering SourceFile) : ∃ survey, ofRepository root name limits .silent delivery = .ok survey ∧
      IsSurveyOf (reports "" (delivery.order files)) survey ∧ IsListing (survey.listAt "relations") := by
  obtain ⟨all, groups, heq⟩ := exists_ofRepository_eq h name .silent delivery
  rw [heq]
  exact exists_ofReports (reports "" (delivery.order files)) all groups name

theorem exists_filesRead [Java.Parser] {name : String} {advisor : Advisor} {delivery : Reordering SourceFile}
    {survey : Value} (h : ofRepository root name limits advisor delivery = .ok survey) :
    ∃ files, filesRead root limits = .ok files := by
  obtain ⟨maxFiles, hfiles, h⟩ := of_bind h
  obtain ⟨maxBytes, hbytes, h⟩ := of_bind h
  obtain ⟨groups, _, h⟩ := of_bind h
  obtain ⟨files, hread, _⟩ := of_bind h
  exact ⟨files, by rw [filesRead, hfiles, ok_bind, hbytes, ok_bind, hread]⟩

theorem language_mem_headings (l : Language) : l.name ∈ headings := by cases l <;> decide

theorem IsSurveyOf.lists_iff {survey : Value} (h : IsSurveyOf rs survey) {n : String} (hheading : heading ∈ headings) :
      Schema.Lists survey heading n ↔
      ∃ r ∈ rs, r.language.name = heading ∧ ∃ e ∈ r.classes, e.name = n := by
  have hget := h.classes heading hheading
  constructor
  · rintro ⟨cs, hcs, c, hc, hn⟩
    cases hcs.symm.trans hget
    obtain ⟨e, he, rfl⟩ := mem_map.mp hc
    obtain ⟨r, hr, her⟩ := mem_flatMap.mp he
    obtain ⟨hmem, hname⟩ := mem_filter.mp hr
    refine ⟨r, hmem, beq_iff_eq.mp hname, e, her, ?_⟩
    cases hn
    rfl
  · rintro ⟨r, hr, hname, e, he, rfl⟩
    refine ⟨_, hget, e.toValue, mem_map_of_mem ?_, rfl⟩
    exact mem_flatMap.mpr ⟨r, mem_filter.mpr ⟨hr, beq_iff_eq.mpr hname⟩, he⟩

theorem IsSurveyOf.lists {survey : Value} (h : IsSurveyOf rs survey) (he : e ∈ entries rs) :
    ∃ l : Language, Schema.Lists survey l.name e.name := by
  obtain ⟨r, hr, he⟩ := mem_entries_iff.mp he
  exact ⟨r.language, (h.lists_iff (language_mem_headings r.language)).mpr ⟨r, hr, rfl, e, he, rfl⟩⟩

theorem Related.ends (h : Related rs a b k) (hnamed : ∀ e ∈ entries rs, e.name ≠ "") : a ≠ "" ∧ b ≠ "" ∧
    (k ≠ .dependency → a ≠ b ∧ a ∈ (entries rs).map (·.name) ∧ b ∈ (entries rs).map (·.name)) := by
  rcases h with hdeclares | ⟨rfl, hb, hne, e, he, _⟩ | ⟨rfl, ⟨_, ha, hb, hends⟩, _⟩
  · exact hdeclares.2
  · obtain ⟨hmem, rfl⟩ := mem_of_lastNamed? he
    obtain ⟨c, hc, rfl⟩ := mem_map.mp hb
    exact ⟨hnamed e hmem, hnamed c hc, fun _ => ⟨hne.symm, mem_map_of_mem hmem, hb⟩⟩
  · exact ⟨ha, hb, fun _ => hends (by decide)⟩

/-- **The relations of a survey are sound.**  For every repository, every limits, every order in which the reports of
files are delivered and no advisor: if there is a survey at all, each of its relations has two ends that are not empty,
one of the seven kinds and a source; unless it is a dependency, its ends are different and both are listed as classes
under some language of the same survey; and no two relations have the same ends and kind. -/
theorem relations_sound [Java.Parser] (root : Entry) (name : String) (limits survey : Value)
    (delivery : Reordering SourceFile) (h : ofRepository root name limits .silent delivery = .ok survey) :
    ∃ rs, survey.get "relations" = .ok (.list rs) ∧
      (∀ r ∈ rs, HasSource r ∧ ∃ a b k, Joins r a b k ∧ a ≠ "" ∧ b ≠ "" ∧ (k ≠ .dependency →
        a ≠ b ∧ (∃ l : Language, Schema.Lists survey l.name a) ∧ ∃ l : Language, Schema.Lists survey l.name b)) ∧
      rs.Pairwise Differ := by
  obtain ⟨files, hread⟩ := exists_filesRead h
  obtain ⟨_, hsurvey, his, hlisting⟩ := exists_ofRepository hread name delivery
  cases h.symm.trans hsurvey
  obtain ⟨vs, hvs, hjoin, hshows⟩ := his.relations
  rw [Value.listAt, Value.part_of_get hvs] at hlisting
  refine ⟨vs, hvs, fun v hv => ⟨hlisting.hasSource v hv, ?_⟩, hlisting.differ⟩
  have hlists : ∀ s ∈ (entries (reports "" (delivery.order files))).map (·.name), ∃ l : Language,
      Schema.Lists survey l.name s :=
    forall_mem_map.mpr fun e he => his.lists he
  obtain ⟨a, b, k, hjoins⟩ := hjoin v hv
  obtain ⟨ha, hb, hends⟩ := ((hshows a b k).mp ⟨v, hv, hjoins⟩).ends fun e he => by
    obtain ⟨r, hr, he⟩ := mem_entries_iff.mp he
    exact reports_named hr e he
  refine ⟨a, b, k, hjoins, ha, hb, fun hk => ?_⟩
  obtain ⟨hne, ha, hb⟩ := hends hk
  exact ⟨hne, hlists a ha, hlists b hb⟩

/-- An abstract class, and a class that extends it and has a field of it: two relations are found, two are inferred. -/
def abstractBase : Entry :=
  .folder [("Shape.java", .file (.text
    "abstract class Shape \x7b\x7d\nclass Square extends Shape \x7b Shape inner; \x7d\n"))]

theorem relations_sound_abstractBase :
    ∃ survey rs, ofRepository abstractBase "shapes" (.record []) .silent = .ok survey ∧
      survey.get "relations" = .ok (.list rs) ∧ rs.length = 4 ∧
      (∀ r ∈ rs, HasSource r ∧ ∃ a b k, Joins r a b k ∧ a ≠ "" ∧ b ≠ "" ∧ (k ≠ .dependency →
        a ≠ b ∧ (∃ l : Language, Schema.Lists survey l.name a) ∧ ∃ l : Language, Schema.Lists survey l.name b)) ∧
      rs.Pairwise Differ := by
  have hlength : (do let survey ← ofRepository abstractBase "shapes" (.record []) .silent
                     (← survey.get "relations").length : Loose Nat).toOption = some 4 := by
    decide +kernel
  cases h : ofRepository abstractBase "shapes" (.record []) .silent with
  | error e =>
    rw [h] at hlength
    cases hlength
  | ok survey =>
    obtain ⟨rs, hrs, hall, hpair⟩ := relations_sound _ _ _ _ _ h
    rw [h, Loose.ok_bind, hrs] at hlength
    exact ⟨survey, rs, rfl, hrs, Option.some.inj hlength, hall, hpair⟩

end Survey

end CodeAtlas
