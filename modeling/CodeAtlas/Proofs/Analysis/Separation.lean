import CodeAtlas.Proofs.Analysis.Order
import CodeAtlas.Proofs.Analysis.SharedWorkbench

/-!
# Surveys and one workbench for all files

A survey reads every file on a workbench of its own.  Read one after the other on a single workbench, the same files may
show more: what is imported may be a class of another file, classes of earlier Python files are known, and C# files that
were given up still count.  Here it is told exactly when a survey says all that the single workbench shows, and when its
statistics are those of that workbench.  The single workbench reads the files in the order in which they are found; the
reports of the survey are delivered in any other order.

* **`Survey.ofRepository_covers_shared_iff`**: a survey tells all shared relations if and only if nothing is lost, and
  it has the statistics of the single workbench if and only if no file shows a class or a declared relation.
-/

namespace CodeAtlas.Survey

open List Workbench Loose

open Register Findings

section

variable [Java.Parser] {directory : String} {files delivered : List SourceFile}

/-! ### Reports of files -/

theorem ofFile?_eq (f : SourceFile) (directory : String) :
    FileReport.ofFile? f.path (Discovery.package f.path directory) f.source =
      (languageOf? f.path).map (f.report directory) := by
  unfold FileReport.ofFile? SourceFile.report SourceFile.classes SourceFile.findings
  generalize Workbench.read {} f.path f.source (Discovery.package f.path directory) = result
  rfl

theorem mem_reports_iff {r : FileReport} : r ∈ reports directory files ↔
    ∃ f ∈ files, f.classes directory ≠ [] ∧ ∃ l, languageOf? f.path = some l ∧ f.report directory l = r := by
  simp only [reports, mem_filter, mem_filterMap, ofFile?_eq, Option.map_eq_some_iff]
  constructor
  · rintro ⟨⟨f, hf, l, hl, rfl⟩, hclasses⟩
    exact ⟨f, hf, by simpa [SourceFile.report] using hclasses, l, hl, rfl⟩
  · rintro ⟨f, hf, hclasses, l, hl, rfl⟩
    exact ⟨⟨f, hf, l, hl, rfl⟩, by simpa [SourceFile.report] using hclasses⟩

def listed (directory : String) (files : List SourceFile) : List String :=
  (entries (reports directory files)).map (·.name)

variable {f : SourceFile} {n a b : String} {k : RelationKind}

theorem mem_listed_iff (h : delivered.Perm files) : n ∈ listed directory delivered ↔ n ∈ listed directory files :=
  mem_names_iff ((h.filterMap _).filter _)

theorem mem_listed_of_mem (hf : f ∈ files) (h : n ∈ (f.classes directory).map (·.name)) :
    n ∈ listed directory files := by
  obtain ⟨e, he, rfl⟩ := mem_map.mp h
  obtain ⟨l, hl⟩ := SourceFile.exists_language_of_mem he
  have hr : f.report directory l ∈ reports directory files := mem_reports_iff.mpr ⟨f, hf, ne_nil_of_mem he, l, hl, rfl⟩
  rw [← SourceFile.classes_report (l := l)] at he
  have hentry : e ∈ entries (reports directory files) := mem_entries_iff.mpr ⟨_, hr, he⟩
  exact mem_map.mpr ⟨e, hentry, rfl⟩

theorem ne_empty_of_mem_listed (h : n ∈ listed directory files) : n ≠ "" := by
  obtain ⟨e, he, rfl⟩ := mem_map.mp h
  obtain ⟨r, hr, he⟩ := mem_entries_iff.mp he
  exact reports_named hr e he

theorem related_of_relates (hf : f ∈ files) (hclasses : f.classes directory ≠ []) {l : Language}
    (h : (f.findings directory l).Relates a b k.name) (hne : a ≠ b) (ha : a ∈ listed directory files)
    (hb : b ∈ listed directory files) : Related (reports directory files) a b k := by
  obtain ⟨r, hr, hlinks⟩ := h
  have hl : languageOf? f.path = some l :=
    hr.elim (fun hr => (SourceFile.eq_classesOf_of_has hr).1) fun hr => (SourceFile.eq_classesOf_of_has hr).1
  have hmem : r ∈ (reports directory files).flatMap (·.relations) := mem_flatMap.mpr
    ⟨f.report directory l, mem_reports_iff.mpr ⟨f, hf, hclasses, l, hl, rfl⟩, SourceFile.mem_relations_report.mpr hr⟩
  exact .inl ⟨⟨r, hmem, hlinks⟩, ne_empty_of_mem_listed ha, ne_empty_of_mem_listed hb, fun _ => ⟨hne, ha, hb⟩⟩

theorem not_related_dependency : ¬ Related (reports directory files) a b .dependency := by
  rintro (⟨⟨r, hr, _, _, hkind⟩, _⟩ | ⟨hk, _⟩ | ⟨hk, _⟩)
  · obtain ⟨report, hreport, hr⟩ := mem_flatMap.mp hr
    obtain ⟨f, _, _, l, _, rfl⟩ := mem_reports_iff.mp hreport
    rcases SourceFile.mem_relations_report.mp hr with hr | hr <;> rcases SourceFile.findings_regular hr with h | h <;>
      exact absurd (h.symm.trans hkind) (by decide)
  · cases hk
  · cases hk

/-! ### The relations that one workbench supports -/

/-- The relations that one workbench for all files supports among the classes of a survey, as far as they are valid. -/
def shared (directory : String) (files : List SourceFile) : Loose Register := do
  let classes := Value.list (allClasses (reports directory files))
  let rels ← (Workbench.readAll directory files).relations classes
  let r ← Register.setClasses {} classes
  let r ← r.add (.list (rels.map Relation.toValue))
  r.keepValid

/-- One workbench for all files relates two classes of a survey, or the class is imported. -/
def IsShared (directory : String) (files : List SourceFile) (a b : String) (k : RelationKind) : Prop :=
  (a ≠ b ∧ a ∈ listed directory files ∧ b ∈ listed directory files ∧
    ∃ l, ((Workbench.readAll directory files).findings l).Relates a b k.name) ∨
  (k = .dependency ∧ a = b ∧ a ∈ listed directory files ∧
    ∃ l, ((Workbench.readAll directory files).findings l).Has (.imported a))

/-- **Which classes the shared relations join**: those that the workbench relates, and imported classes with
themselves. -/
theorem shows_shared_iff (directory : String) (files : List SourceFile) : ∃ r, shared directory files = .ok r ∧
    (∀ v ∈ r.relations, IsJoin v) ∧ ∀ a b k, Shows r.relations a b k ↔ IsShared directory files a b k := by
  obtain ⟨known, hclasses, hknown⟩ := exists_setClasses (entries (reports directory files))
  have hrelations := Workbench.relations_eq (Workbench.readAll directory files) (entries (reports directory files))
  generalize hrels : Relation.distinct _ = rels at hrelations
  have hplain := isPlain_toValue rels
  refine ⟨⟨kept known (rels.map Relation.toValue), known⟩, ?_, fun v => isJoin_of_mem_kept hplain, fun a b k => ?_⟩
  · have hadd : add ⟨[], known⟩ (.list (rels.map Relation.toValue)) = .ok ⟨rels.map Relation.toValue, known⟩ := rfl
    rw [shared, allClasses_eq, hrelations, ok_bind, hclasses, ok_bind, hadd, ok_bind, keepValid_eq known hplain]
  rw [shows_kept hplain, shows_toValue, allowsEnds_iff hknown, ← hrels]
  have hlinks : (∃ r ∈ Relation.distinct (Language.all.flatMap fun l =>
      ((Workbench.readAll directory files).findings l).relationsAmong l fun n => (listed directory files).contains n),
      r.Links a b k.name) ↔ ∃ l, ∃ r ∈ ((Workbench.readAll directory files).findings l).relationsAmong l fun n =>
        (listed directory files).contains n, r.Links a b k.name := by
    rw [Relation.exists_mem_distinct_iff]
    simp only [mem_flatMap, Language.mem_all, true_and]
    grind
  have hregular : ∀ l x, ((Workbench.readAll directory files).findings l).Has x → x.IsRegular :=
    fun l x => readAll_regular
  refine (and_congr_left' hlinks).trans ⟨?_, ?_⟩
  · rintro ⟨⟨l, hr⟩, ha, hb, hallowed⟩
    have hother : k.name ≠ "dependency" → (listed directory files).contains b ∧ b ≠ a := by
      intro hk
      obtain ⟨hne, _, hb⟩ := hallowed fun h => hk (h ▸ rfl)
      exact ⟨contains_iff_mem.mpr hb, hne.symm⟩
    rcases (exists_mem_relationsAmong_iff (hregular l) l hother).mp hr with h | ⟨hk, rfl, himported, ha⟩
    · obtain ⟨hne, ha, hb⟩ := hallowed fun hk => h.ne_dependency (hregular l) (hk ▸ rfl)
      exact .inl ⟨hne, ha, hb, l, h⟩
    · exact .inr ⟨RelationKind.name_injective hk, rfl, contains_iff_mem.mp ha, l, himported⟩
  · rintro (⟨hne, ha, hb, l, h⟩ | ⟨rfl, rfl, ha, l, h⟩)
    · have hother := And.intro (contains_iff_mem.mpr hb) hne.symm
      exact ⟨⟨l, (exists_mem_relationsAmong_iff (hregular l) l fun _ => hother).mpr (.inl h)⟩,
        ne_empty_of_mem_listed ha, ne_empty_of_mem_listed hb, fun _ => ⟨hne, ha, hb⟩⟩
    · exact ⟨⟨l, (exists_mem_relationsAmong_iff (hregular l) l fun hk => absurd rfl hk).mpr
        (.inr ⟨rfl, rfl, h, contains_iff_mem.mpr ha⟩)⟩,
        ne_empty_of_mem_listed ha, ne_empty_of_mem_listed ha, fun hk => absurd rfl hk⟩

/-- Nothing is lost where every file has a workbench of its own: no file imports a class of the survey; what a Python
file refers to in an earlier one is told anyway; and so is what C# files relate that were given up.  Earlier are the
files that the single workbench reads earlier; what is told may depend on the order of delivery. -/
structure KeepsAll (directory : String) (files delivered : List SourceFile) : Prop where
  imports : ∀ f ∈ files, ∀ l, ∀ n ∈ (f.findings directory l).imports, n ∉ listed directory files
  references : files.Pairwise fun e f => languageOf? e.path = some .python →
    ∀ b ∈ (e.classes directory).map (·.name), ∀ a k, f.Refers a b k → Related (reports directory delivered) a b k
  abandoned : ∀ f ∈ files, languageOf? f.path = some .csharp → f.classes directory = [] →
    ∀ a ∈ listed directory files, ∀ b ∈ listed directory files, a ≠ b → ∀ k : RelationKind,
      (f.findings directory .csharp).Relates a b k.name → Related (reports directory delivered) a b k

theorem mem_classes_of_refers (h : f.Refers a b k) : a ∈ (f.classes directory).map (·.name) := by
  obtain ⟨hl, s, hs, hrefers⟩ := h
  unfold SourceFile.classes Workbench.read
  rw [hl, hs]
  exact Python.mem_names_of_refersIn s _ hrefers

theorem has_cls_iff {e : SourceFile} : (e.findings directory .python).Has (.cls b) ↔
    languageOf? e.path = some .python ∧ b ∈ (e.classes directory).map (·.name) := by
  constructor
  · intro h
    obtain ⟨hl, s, _, hclasses, hfindings⟩ := SourceFile.eq_classesOf_of_has h
    rw [hfindings] at h
    rw [hclasses]
    exact ⟨hl, (Python.has_cls_classes_iff s _ b).mp h⟩
  · rintro ⟨hl, hb⟩
    unfold SourceFile.classes Workbench.read at hb
    unfold SourceFile.findings Workbench.read
    rw [hl] at hb ⊢
    cases hs : e.source with
    | none =>
      rw [hs] at hb
      cases hb
    | some s =>
      rw [hs] at hb
      exact (Python.has_cls_classes_iff s _ b).mpr hb

omit [Java.Parser] in
theorem refers_ne (h : f.Refers a b k) : a ≠ b := by
  obtain ⟨_, s, _, tree, _, name, bases, keywords, body, decorators, _, _, hne, _⟩ := h
  exact hne.symm

/-- **The shared relations are all told by reports if and only if nothing is lost.** -/
theorem shared_related_iff {r : Register} (hperm : delivered.Perm files)
    (hshows : ∀ a b k, Shows r.relations a b k ↔ IsShared directory files a b k) :
    (∀ a b k, Shows r.relations a b k → Related (reports directory delivered) a b k) ↔
      KeepsAll directory files delivered := by
  constructor
  · intro h
    refine ⟨fun f hf l n hn hlisted => ?_, ?_, fun f hf hl hclasses a ha b hb hne k hrelates => ?_⟩
    · have himported : ((Workbench.readAll directory files).findings l).Has (.imported n) :=
        (has_readAll_iff directory files l _).mpr (.inl ⟨f, hf, hn⟩)
      exact not_related_dependency (h n n .dependency ((hshows ..).mpr (.inr ⟨rfl, rfl, hlisted, l, himported⟩)))
    · rw [pairwise_iff_forall_sublist]
      intro e f hsub hl b hb a k hrefers
      have he : e ∈ files := hsub.subset (by simp)
      have hf : f ∈ files := hsub.subset (by simp)
      have hrelates : ((Workbench.readAll directory files).findings .python).Relates a b k.name :=
        relates_readAll_iff.mpr (.inr ⟨rfl, e, f, hsub, has_cls_iff.mpr ⟨hl, hb⟩, k, rfl, hrefers⟩)
      exact h a b k ((hshows ..).mpr (.inl ⟨refers_ne hrefers, mem_listed_of_mem hf (mem_classes_of_refers hrefers),
        mem_listed_of_mem he hb, .python, hrelates⟩))
    · have hshared := relates_readAll_iff.mpr (.inl ⟨f, hf, hrelates⟩)
      exact h a b k ((hshows ..).mpr (.inl ⟨hne, ha, hb, .csharp, hshared⟩))
  · intro h a b k hs
    rcases (hshows a b k).mp hs with ⟨hne, ha, hb, l, hrelates⟩ | ⟨rfl, rfl, ha, l, himported⟩
    · rcases relates_readAll_iff.mp hrelates with ⟨f, hf, hrelates⟩ | ⟨_, e, f, hsub, hcls, k', hk, hrefers⟩
      · obtain ⟨hl, hcsharp⟩ := SourceFile.language_of_relates hrelates
        by_cases hclasses : f.classes directory = []
        · obtain rfl := hcsharp hclasses
          exact h.abandoned f hf hl hclasses a ha b hb hne k hrelates
        · exact related_of_relates (hperm.mem_iff.mpr hf) hclasses hrelates hne ((mem_listed_iff hperm).mpr ha)
            ((mem_listed_iff hperm).mpr hb)
      · obtain rfl := RelationKind.name_injective hk
        obtain ⟨hl, hb⟩ := has_cls_iff.mp hcls
        exact pairwise_iff_forall_sublist.mp h.references hsub hl b hb a k hrefers
    · rcases (has_readAll_iff ..).mp himported with ⟨f, hf, hn⟩ | ⟨_, e, f, _, _, _, _, _, _, heq⟩
      · exact absurd ha (h.imports f hf l a hn)
      · cases heq

theorem statistics_readAll_iff :
    (Workbench.readAll directory files).statistics = Workbench.statistics {} ↔
      ∀ f ∈ files, ∀ l, (f.findings directory l).classNames = [] ∧ (f.findings directory l).relations = [] := by
  have hcls : ∀ l n, n ∈ ((Workbench.readAll directory files).findings l).classNames ↔
      ∃ f ∈ files, n ∈ (f.findings directory l).classNames := by
    intro l n
    simpa [Has] using has_readAll_iff directory files l (.cls n)
  have hdeclared : ∀ l r, r ∈ ((Workbench.readAll directory files).findings l).relations ↔
      ∃ f ∈ files, r ∈ (f.findings directory l).relations := by
    intro l r
    simpa [Has] using has_readAll_iff directory files l (.declared r)
  simp only [statistics_eq_iff, eq_nil_iff_forall_not_mem, hcls, hdeclared]
  grind

end

/-! ### Surveys of repositories -/

/-- **Surveys and one workbench for all files.**  Whatever the repository and its limits are, as long as they allow
files to be read, and in whatever order reports are delivered: the survey tells all relations that one workbench for the
same files supports among the same classes if and only if nothing is lost, and it has the statistics of that workbench
if and only if no file shows a class or a declared relation. -/
theorem ofRepository_covers_shared_iff [Java.Parser] (root : Entry) (name : String) (limits : Value)
    (delivery : Reordering SourceFile) (files : List SourceFile) (h : filesRead root limits = .ok files) :
    ∃ survey register notes, ofRepository root name limits .silent delivery = .ok survey ∧
      shared "" files = .ok register ∧ survey.get "meta" = .ok notes ∧ (∀ v ∈ register.relations, IsJoin v) ∧
      ((∀ a b k, Shows register.relations a b k → Tells (.ok survey) a b k) ↔
        KeepsAll "" files (delivery.order files)) ∧
      (notes.get "analyzer_stats" = .ok (Workbench.readAll "" files).statistics ↔
        ∀ f ∈ files, ∀ l, (f.findings "" l).classNames = [] ∧ (f.findings "" l).relations = []) := by
  obtain ⟨survey, hsurvey, his, _⟩ := exists_ofRepository h name delivery
  obtain ⟨register, hregister, hjoin, hshows⟩ := shows_shared_iff "" files
  obtain ⟨notes, hnotes, _, _, hstatistics⟩ := his.notes
  refine ⟨survey, register, notes, hsurvey, hregister, hnotes, hjoin, ?_, ?_⟩
  · rw [← shared_related_iff (delivery.perm files) hshows]
    simp only [his.tells_iff]
  · rw [hstatistics, Except.ok.injEq, ← statistics_readAll_iff, eq_comm]

/-- A class in one file, and in the other one a class that extends it and has a field of it. -/
def shapes : Entry :=
  .folder [("Shape.java", .file (.text "class Shape \x7b\x7d\n")),
    ("Square.java", .file (.text "class Square extends Shape \x7b Shape inner; \x7d\n"))]

def shapeFiles : List SourceFile :=
  [⟨"Shape.java", some "class Shape \x7b\x7d\n"⟩,
    ⟨"Square.java", some "class Square extends Shape \x7b Shape inner; \x7d\n"⟩]

theorem ofRepository_covers_shared_iff_shapes :
    filesRead shapes (.record []) = .ok shapeFiles ∧ KeepsAll "" shapeFiles shapeFiles.reverse ∧
      ∃ survey register notes, ofRepository shapes "shapes" (.record []) .silent .reversed = .ok survey ∧
        shared "" shapeFiles = .ok register ∧ survey.get "meta" = .ok notes ∧
        (∀ a b k, Shows register.relations a b k → Tells (.ok survey) a b k) ∧
        notes.get "analyzer_stats" ≠ .ok (Workbench.readAll "" shapeFiles).statistics := by
  have hread : filesRead shapes (.record []) = .ok shapeFiles := by rfl
  have himports : ∀ f ∈ shapeFiles, (f.findings "" .java).imports = [] := by decide +kernel
  have hcls : (SourceFile.findings ⟨"Shape.java", some "class Shape \x7b\x7d\n"⟩ "" .java).classNames ≠ [] := by
    decide +kernel
  have hjava : ∀ f ∈ shapeFiles, Workbench.languageOf? f.path = some .java := by decide
  have hkeeps : KeepsAll "" shapeFiles shapeFiles.reverse := by
    refine ⟨fun f hf l n hn => ?_, ?_, fun f hf hl => ?_⟩
    · obtain ⟨hl, _⟩ := SourceFile.eq_classesOf_of_has (x := .imported n) hn
      obtain rfl := Option.some.inj ((hjava f hf).symm.trans hl)
      rw [himports f hf] at hn
      cases hn
    · rw [List.pairwise_iff_forall_sublist]
      intro e f hsub hl
      cases (hjava e (hsub.subset (by simp))).symm.trans hl
    · cases (hjava f hf).symm.trans hl
  obtain ⟨survey, register, notes, hsurvey, hregister, hnotes, _, hcovers, hstatistics⟩ :=
    ofRepository_covers_shared_iff shapes "shapes" (.record []) .reversed shapeFiles hread
  refine ⟨hread, hkeeps, survey, register, notes, hsurvey, hregister, hnotes, hcovers.mpr hkeeps, fun h => ?_⟩
  exact hcls (hstatistics.mp h _ List.mem_cons_self .java).1

/-- A class in one file, and in the other one a class that makes an object of it. -/
def callers : Entry :=
  .folder [("a.py", .file (.text "class A:\n    pass\n")),
    ("b.py", .file (.text "class B:\n    def run(self):\n        return A()\n"))]

def callerFiles : List SourceFile :=
  [⟨"a.py", some "class A:\n    pass\n"⟩, ⟨"b.py", some "class B:\n    def run(self):\n        return A()\n"⟩]

/-- One workbench knows the class of the first file when it reads the second one; a survey does not, and it counts
nothing. -/
theorem survey_misses_shared :
    filesRead callers (.record []) = .ok callerFiles ∧
      ∃ survey register notes, ofRepository callers "repo" (.record []) .silent = .ok survey ∧
        shared "" callerFiles = .ok register ∧ survey.get "meta" = .ok notes ∧
        Shows register.relations "B" "A" .composition ∧ ¬ Tells (.ok survey) "B" "A" .composition ∧
        notes.get "analyzer_stats" ≠ .ok (Workbench.readAll "" callerFiles).statistics := by
  have hread : filesRead callers (.record []) = .ok callerFiles := by rfl
  obtain ⟨survey, hsurvey, his, _⟩ := exists_ofRepository hread "repo" .kept
  rw [Reordering.order_kept] at his
  obtain ⟨register, hregister, hjoin, hshows⟩ := shows_shared_iff "" callerFiles
  obtain ⟨notes, hnotes, _, _, hstatistics⟩ := his.notes
  refine ⟨hread, survey, register, notes, hsurvey, hregister, hnotes, ?_, ?_, ?_⟩
  · have hheld : (⟨"B", "A", "composition", some "heuristic"⟩ : Relation) ∈
        ((Workbench.readAll "" callerFiles).findings .python).compositions := by decide +kernel
    exact (hshows ..).mpr (.inl ⟨by decide, by decide +kernel, by decide +kernel, .python, _, .inr (.inl hheld),
      rfl, rfl, rfl⟩)
  · have hnone : (reports "" callerFiles).flatMap (·.relations) = [] := by decide +kernel
    have hfields : (ClassEntry.lastNamed? "B" (entries (reports "" callerFiles))).map ClassEntry.fieldTypes =
        some [] := by decide +kernel
    rw [his.tells_iff]
    rintro (⟨⟨r, hr, _⟩, _⟩ | ⟨_, _, _, e, he, hmem⟩ | ⟨hkind, _⟩)
    · rw [hnone] at hr
      cases hr
    · rw [he] at hfields
      rw [Option.some.inj hfields] at hmem
      cases hmem
    · cases hkind
  · rw [hstatistics, ne_eq, Except.ok.injEq, eq_comm, statistics_readAll_iff]
    intro h
    have hcls : (SourceFile.findings ⟨"a.py", some "class A:\n    pass\n"⟩ "" .python).classNames ≠ [] := by
      decide +kernel
    exact hcls (h _ (by simp [callerFiles]) .python).1

end CodeAtlas.Survey
