import CodeAtlas.Proofs.Analysis.Outcome
import CodeAtlas.Proofs.Language.KnownClasses

/-!
# One workbench for all files

Files are read one after the other on a single workbench.  What it holds in the end is told by what each file shows when
it is read by itself and, in Python, by the classes of one file to which a later one refers.

* `Findings.exists_mem_relationsAmong_iff`, `Workbench.relations_eq`: the relations that findings support.
-/

namespace CodeAtlas

open List Workbench Discovery Loose Findings

/-! ### Files -/

namespace SourceFile

variable [Java.Parser]

def classes (f : SourceFile) (directory : String) : List ClassEntry :=
  (Workbench.read {} f.path f.source (package f.path directory)).1

/-- What a file shows in a language when it is read by itself. -/
def findings (f : SourceFile) (directory : String) (l : Language) : Findings :=
  (Workbench.read {} f.path f.source (package f.path directory)).2.findings l

def report (f : SourceFile) (directory : String) (l : Language) : FileReport :=
  ⟨l, f.classes directory, (f.findings directory l).relations ++ (f.findings directory l).compositions ++
    (f.findings directory l).usages⟩

def Refers (f : SourceFile) (a b : String) (k : RelationKind) : Prop :=
  languageOf? f.path = some .python ∧ ∃ s, f.source = some s ∧ Python.RefersIn s a b k

section

variable {f : SourceFile} {directory : String} {l : Language} {x : Finding}

theorem eq_classesOf_of_has (h : (f.findings directory l).Has x) : languageOf? f.path = some l ∧
    ∃ s, f.source = some s ∧
      f.classes directory = (Workbench.classesOf l s (package f.path directory) {}).1 ∧
      f.findings directory l = (Workbench.classesOf l s (package f.path directory) {}).2 := by
  unfold findings classes Workbench.read at *
  cases hl : languageOf? f.path with
  | none =>
    rw [hl] at h
    exact absurd h (not_has_empty x)
  | some m =>
    cases hs : f.source with
    | none =>
      rw [hl, hs] at h
      exact absurd h (not_has_empty x)
    | some s =>
      rw [hl, hs] at h
      by_cases hlm : l = m
      · subst hlm
        exact ⟨rfl, s, rfl, rfl, if_pos rfl⟩
      · simp only [Workbench.put, if_neg hlm] at h
        exact absurd h (not_has_empty x)

theorem classes_report : (f.report directory l).classes = f.classes directory := by rw [report]

theorem mem_relations_report {r : Relation} : r ∈ (f.report directory l).relations ↔
    (f.findings directory l).Has (.declared r) ∨ (f.findings directory l).Has (.observed r) := by
  simp [report, Findings.Has]

theorem exists_language_of_mem {e : ClassEntry} (h : e ∈ f.classes directory) :
    ∃ l, languageOf? f.path = some l := by
  unfold classes Workbench.read at h
  cases hl : languageOf? f.path with
  | none =>
    rw [hl] at h
    cases h
  | some l => exact ⟨l, rfl⟩

theorem findings_regular (h : (f.findings directory l).Has x) : x.IsRegular := by
  obtain ⟨_, s, _, _, heq⟩ := eq_classesOf_of_has h
  exact Workbench.classesOf_regular l s _ (heq ▸ h)

end

end SourceFile

theorem sublist_pair_append {α : Type} {as bs : List α} {a b : α} :
    [a, b].Sublist (as ++ bs) ↔ [a, b].Sublist as ∨ [a, b].Sublist bs ∨ (a ∈ as ∧ b ∈ bs) := by
  constructor
  · intro h
    obtain ⟨l, l', heq, hl, hl'⟩ := sublist_append_iff.mp h
    rcases cons_eq_append_iff.mp heq with ⟨rfl, rfl⟩ | ⟨ls, rfl, hrest⟩
    · exact .inr (.inl hl')
    · rcases cons_eq_append_iff.mp hrest with ⟨rfl, rfl⟩ | ⟨ls, rfl, hnil⟩
      · exact .inr (.inr ⟨singleton_sublist.mp hl, singleton_sublist.mp hl'⟩)
      · obtain ⟨rfl, rfl⟩ := nil_eq_append_iff.mp hnil
        exact .inl hl
  · rintro (h | h | ⟨ha, hb⟩)
    · exact h.trans (sublist_append_left ..)
    · exact h.trans (sublist_append_right ..)
    · exact (singleton_sublist.mpr ha).append (singleton_sublist.mpr hb)

theorem sublist_pair_concat {α : Type} {as : List α} {a b c : α} :
    [a, b].Sublist (as ++ [c]) ↔ [a, b].Sublist as ∨ (a ∈ as ∧ b = c) := by
  simp [sublist_pair_append]

namespace Workbench

def readAll [Java.Parser] (directory : String) (files : List SourceFile) : Workbench :=
  files.foldl (fun w f => (w.read f.path f.source (package f.path directory)).2) {}

/-- **What one file adds** to a workbench. -/
theorem has_read_iff [Java.Parser] (w : Workbench) (f : SourceFile) (directory : String) (l : Language) (x : Finding) :
    ((w.read f.path f.source (package f.path directory)).2.findings l).Has x ↔
      (w.findings l).Has x ∨ (f.findings directory l).Has x ∨
        (l = .python ∧ ∃ a b k, f.Refers a b k ∧ (w.findings .python).Has (.cls b) ∧
          x = .observed ⟨a, b, k.name, some "heuristic"⟩) := by
  unfold SourceFile.findings SourceFile.Refers read
  cases hl : languageOf? f.path with
  | none => simp [not_has_empty]
  | some m =>
    cases hs : f.source with
    | none => simp [not_has_empty]
    | some s =>
      simp only [put]
      by_cases hlm : l = m
      · subst hlm
        simp only [if_true]
        rw [has_classesOf_iff]
        refine or_congr_right (or_congr_right (and_congr_right ?_))
        rintro rfl
        simp
      · simp only [if_neg hlm]
        refine (or_iff_left ?_).symm
        rintro (hx | ⟨hl, a, b, k, ⟨hm, _⟩, _⟩)
        · exact not_has_empty x hx
        · exact hlm (hl.trans (Option.some.inj hm).symm)

/-- **What one workbench holds after all files**: what each of them shows alone, and in Python the relations to classes
of earlier files. -/
theorem has_readAll_iff [Java.Parser] (directory : String) (files : List SourceFile) (l : Language) (x : Finding) :
    ((readAll directory files).findings l).Has x ↔
      (∃ f ∈ files, (f.findings directory l).Has x) ∨
        (l = .python ∧ ∃ e f, [e, f].Sublist files ∧ ∃ a b k, f.Refers a b k ∧
          (e.findings directory .python).Has (.cls b) ∧ x = .observed ⟨a, b, k.name, some "heuristic"⟩) := by
  induction files using List.reverseRecOn generalizing l x with
  | nil => simp [readAll, not_has_empty]
  | append_singleton files f ih =>
    have hknown : ∀ b, ((readAll directory files).findings .python).Has (.cls b) ↔
        ∃ e ∈ files, (e.findings directory .python).Has (.cls b) := by
      intro b
      simp [ih]
    rw [readAll, foldl_append, foldl_cons, foldl_nil, has_read_iff, ← readAll, ih]
    simp only [hknown, sublist_pair_concat, mem_append, mem_singleton]
    grind

theorem readAll_regular [Java.Parser] {directory : String} {files : List SourceFile} {l : Language} {x : Finding}
    (h : ((readAll directory files).findings l).Has x) : x.IsRegular := by
  rcases (has_readAll_iff directory files l x).mp h with ⟨f, _, hx⟩ | ⟨_, e, f, _, a, b, k, hrefers, _, rfl⟩
  · exact f.findings_regular hx
  · obtain ⟨_, s, _, hrefers⟩ := hrefers
    exact hrefers.isRegular

end Workbench

/-! ### Relations of a workbench -/

def Relation.Links (r : Relation) (a b kind : String) : Prop := r.fromClass = a ∧ r.toClass = b ∧ r.kind = kind

theorem Relation.sameEnds_iff {r s : Relation} : r.sameEnds s ↔ r.Links s.fromClass s.toClass s.kind := by
  simp [sameEnds, Links, and_assoc]

variable {a b kind : String} {f : Findings} {isKnown : String → Bool}

theorem Relation.distinctFrom_eq (seen rs : List Relation) :
    distinctFrom seen rs = firstsFrom id (fun s r => r.sameEnds s) seen rs := by
  induction rs generalizing seen with
  | nil => rfl
  | cons r rs ih =>
    rw [distinctFrom, firstsFrom, ih, ih]
    rfl

theorem Relation.distinct_eq (rs : List Relation) : distinct rs = firsts id (fun s r => r.sameEnds s) rs :=
  distinctFrom_eq [] rs

theorem Relation.exists_mem_distinct_iff {rs : List Relation} :
    (∃ r ∈ distinct rs, r.Links a b kind) ↔ ∃ r ∈ rs, r.Links a b kind := by
  rw [distinct_eq]
  constructor
  · rintro ⟨r, hr, hlinks⟩
    exact ⟨r, mem_of_mem_firsts hr, hlinks⟩
  · rintro ⟨r, hr, rfl, rfl, rfl⟩
    obtain ⟨s, hs, hsame⟩ : ∃ s ∈ firsts id (fun s r => r.sameEnds s) rs, r.sameEnds s = true := by
      refine exists_mem_firsts ?_ hr
      exact sameEnds_iff.mpr ⟨rfl, rfl, rfl⟩
    obtain ⟨hfrom, hto, hkind⟩ := sameEnds_iff.mp hsame
    exact ⟨s, hs, hfrom.symm, hto.symm, hkind.symm⟩

def Findings.Relates (f : Findings) (a b kind : String) : Prop :=
  ∃ r : Relation, (f.Has (.declared r) ∨ f.Has (.observed r)) ∧ r.Links a b kind

theorem Findings.Relates.ne_dependency (hregular : ∀ x, f.Has x → x.IsRegular)
    (h : f.Relates a b kind) : kind ≠ "dependency" := by
  obtain ⟨r, hr | hr, _, _, rfl⟩ := h
  · rcases hregular _ hr with h | h <;> rw [h] <;> decide
  · rcases hregular _ hr with h | h <;> rw [h] <;> decide

theorem Findings.relates_iff : f.Relates a b kind ↔
    ((∃ r ∈ f.relations, r.Links a b kind) ∨ ∃ r ∈ f.compositions, r.Links a b kind) ∨
      ∃ r ∈ f.usages, r.Links a b kind := by
  simp only [Relates, Has, or_and_right, exists_or, or_assoc]

theorem Findings.exists_mem_dependency_iff : (∃ r ∈ (f.imports.filter isKnown).map dependency, r.Links a b kind) ↔
      kind = "dependency" ∧ a = b ∧ f.Has (.imported a) ∧ isKnown a := by
  constructor
  · rintro ⟨_, hr, rfl, rfl, rfl⟩
    obtain ⟨n, hn, rfl⟩ := mem_map.mp hr
    exact ⟨rfl, rfl, mem_filter.mp hn⟩
  · rintro ⟨rfl, rfl, hn⟩
    exact ⟨dependency a, mem_map_of_mem (mem_filter.mpr hn), rfl, rfl, rfl⟩

theorem Findings.exists_mem_relationsPlain_iff : (∃ r ∈ f.relationsPlain isKnown, r.Links a b kind) ↔
      f.Relates a b kind ∨ (kind = "dependency" ∧ a = b ∧ f.Has (.imported a) ∧ isKnown a) := by
  rw [relates_iff, ← exists_mem_dependency_iff]
  simp only [relationsPlain, mem_append, or_and_right, exists_or, Relation.exists_mem_distinct_iff]

/-- **What findings support among known classes**: what they relate, and dependencies of imported classes. -/
theorem Findings.exists_mem_relationsAmong_iff (hregular : ∀ x, f.Has x → x.IsRegular) (l : Language)
    (hends : kind ≠ "dependency" → isKnown b ∧ b ≠ a) : (∃ r ∈ f.relationsAmong l isKnown, r.Links a b kind) ↔
      f.Relates a b kind ∨ (kind = "dependency" ∧ a = b ∧ f.Has (.imported a) ∧ isKnown a) := by
  -- where only other known classes count, nothing is left out that the ends allow
  have hfilter : ∀ rs : List Relation, (∀ r ∈ rs, f.Has (.observed r)) →
      ((∃ r ∈ rs.filter fun r => isKnown r.toClass && r.toClass != r.fromClass, r.Links a b kind) ↔
        ∃ r ∈ rs, r.Links a b kind) := by
    intro rs hrs
    refine exists_congr fun r => ?_
    rw [mem_filter, and_right_comm, and_iff_left_iff_imp]
    rintro ⟨hr, rfl, rfl, rfl⟩
    have hkind : r.kind ≠ "dependency" := by
      rcases hregular _ (hrs r hr) with h | h <;> rw [h] <;> decide
    simpa using hends hkind
  unfold relationsAmong
  split
  · exact exists_mem_relationsPlain_iff
  · rw [relates_iff, ← exists_mem_dependency_iff]
    simp only [relationsKnown, mem_append, or_and_right, exists_or, Relation.exists_mem_distinct_iff]
    rw [hfilter f.compositions fun r hr => .inl hr, hfilter f.usages fun r hr => .inr hr]

theorem SourceFile.language_of_relates [Java.Parser] {f : SourceFile} {directory : String} {l : Language}
    (h : (f.findings directory l).Relates a b kind) :
    languageOf? f.path = some l ∧ (f.classes directory = [] → l = .csharp) := by
  have hhas : ∃ x : Finding, x.IsRelation ∧ (f.findings directory l).Has x := by
    obtain ⟨r, hr | hr, _⟩ := h
    · exact ⟨.declared r, trivial, hr⟩
    · exact ⟨.observed r, trivial, hr⟩
  obtain ⟨x, hx, hhas⟩ := hhas
  obtain ⟨hl, s, _, hclasses, hfindings⟩ := eq_classesOf_of_has hhas
  refine ⟨hl, fun hempty => ?_⟩
  by_contra hne
  exact Workbench.not_has_of_no_classes hne (hclasses.symm.trans hempty) hx (hfindings ▸ hhas)

namespace Workbench

/-- **Which classes one workbench relates after all files**: those that a file relates by itself, and in Python those to
which a file refers after they were found. -/
theorem relates_readAll_iff [Java.Parser] {directory : String} {files : List SourceFile} {l : Language}
    {a b kind : String} : ((readAll directory files).findings l).Relates a b kind ↔
      (∃ f ∈ files, (f.findings directory l).Relates a b kind) ∨
        (l = .python ∧ ∃ e f, [e, f].Sublist files ∧ (e.findings directory .python).Has (.cls b) ∧
          ∃ k : RelationKind, kind = k.name ∧ f.Refers a b k) := by
  constructor
  · rintro ⟨r, hr | hr, hlinks⟩
    · rcases (has_readAll_iff ..).mp hr with ⟨f, hf, hx⟩ | ⟨_, e, f, _, a', b', k, _, _, heq⟩
      · exact .inl ⟨f, hf, r, .inl hx, hlinks⟩
      · cases heq
    · rcases (has_readAll_iff ..).mp hr with ⟨f, hf, hx⟩ | ⟨hl, e, f, hsub, a', b', k, hrefers, hb, heq⟩
      · exact .inl ⟨f, hf, r, .inr hx, hlinks⟩
      · cases heq
        obtain ⟨rfl, rfl, rfl⟩ := hlinks
        exact .inr ⟨hl, e, f, hsub, hb, k, rfl, hrefers⟩
  · rintro (⟨f, hf, r, hr, hlinks⟩ | ⟨hl, e, f, hsub, hb, k, rfl, hrefers⟩)
    · have hhas : ∀ x, (f.findings directory l).Has x → ((readAll directory files).findings l).Has x :=
        fun x hx => (has_readAll_iff ..).mpr (.inl ⟨f, hf, hx⟩)
      exact ⟨r, hr.imp (hhas _) (hhas _), hlinks⟩
    · exact ⟨⟨a, b, k.name, some "heuristic"⟩,
        .inr ((has_readAll_iff ..).mpr (.inr ⟨hl, e, f, hsub, a, b, k, hrefers, hb, rfl⟩)), rfl, rfl, rfl⟩

theorem anyNamed_eq (n : String) {cs : List Value} {ns : List Atom} (h : names cs = .ok ns) :
    anyNamed n cs = .ok ((Atom.text n).isIn ns) := by
  induction cs generalizing ns with
  | nil =>
    obtain rfl : [] = ns := of_pure h
    rfl
  | cons c cs ih =>
    obtain ⟨a, as, ha, has, rfl⟩ := forall₂_cons_left_iff.mp (mapM_ok_iff.mp h)
    obtain ⟨v, hv, ha⟩ := of_bind ha
    obtain rfl := Value.eq_atom_of_key ha
    have hsame : (Value.atom a).isText n = a.same (.text n) := by cases a <;> rfl
    rw [anyNamed, hv, ok_bind, ih (mapM_ok_iff.mpr has), hsame, Atom.isIn, Atom.isIn, any_cons]
    cases a.same (.text n) <;> rfl

theorem relationsIn_eq (w : Workbench) (l : Language) {classes : Value} {ns : List Atom}
    (h : Register.classNames classes = .ok ns) :
    w.relationsIn l classes = .ok ((w.findings l).relationsAmong l fun n => (Atom.text n).isIn ns) := by
  obtain ⟨cs, hcs, hnames⟩ := of_bind h
  unfold relationsIn
  dsimp only
  split
  · have himported : importedClasses classes (w.findings .python).imports =
        .ok ((w.findings .python).imports.filter fun n => (Atom.text n).isIn ns) :=
      filterM_ok fun n _ => by rw [hcs, ok_bind, anyNamed_eq n hnames]
    rw [himported, ok_bind]
    -- an import is among those that name a class if it names one
    have hfilter : (w.findings .python).imports.filter
        ((w.findings .python).imports.filter fun n => (Atom.text n).isIn ns).contains =
        (w.findings .python).imports.filter fun n => (Atom.text n).isIn ns := by
      refine filter_congr fun n hn => ?_
      rw [Bool.eq_iff_iff, contains_iff_mem, mem_filter, and_iff_right hn]
    show Except.ok (relationsPlain _ _) = .ok (relationsPlain _ _)
    rw [relationsPlain, hfilter]
    rfl
  · have hnames : names cs = .ok ns := hnames
    rw [hcs, ok_bind, hnames, ok_bind]
    rfl

theorem relationsIn_toValue (w : Workbench) (l : Language) (es : List ClassEntry) :
    w.relationsIn l (.list (es.map ClassEntry.toValue)) =
      .ok ((w.findings l).relationsAmong l fun n => (es.map (·.name)).contains n) := by
  rw [relationsIn_eq w l (Survey.classNames_toValue es)]
  congr
  funext n
  rw [Bool.eq_iff_iff, Atom.isIn_text_iff, contains_iff_mem]
  simp

theorem relations_eq (w : Workbench) (es : List ClassEntry) : w.relations (.list (es.map ClassEntry.toValue)) =
    .ok (Relation.distinct (Language.all.flatMap fun l =>
      (w.findings l).relationsAmong l fun n => (es.map (·.name)).contains n)) := by
  rw [relations, mapM_ok fun l _ => relationsIn_toValue w l es, ok_bind, List.flatMap]
  rfl

theorem statistics_eq_iff (w : Workbench) : statistics w = statistics {} ↔
    ∀ l, (w.findings l).classNames = [] ∧ (w.findings l).relations = [] := by
  have hget : ∀ (w : Workbench) (l : Language), (statistics w).get l.name =
      .ok (.ofFields [("classes_found", .nat (w.findings l).classNames.length),
        ("relationships", .nat (w.findings l).relations.length)]) := by
    intro w l
    cases l <;> rfl
  constructor
  · intro h l
    have hl := Except.ok.inj ((hget w l).symm.trans (h ▸ hget {} l))
    have hclasses : (.ok (.nat (w.findings l).classNames.length) : Loose Value) = .ok (.nat 0) :=
      congrArg (·.get "classes_found") hl
    have hrelations : (.ok (.nat (w.findings l).relations.length) : Loose Value) = .ok (.nat 0) :=
      congrArg (·.get "relationships") hl
    simpa [Value.nat] using And.intro hclasses hrelations
  · intro h
    simp [statistics, h]

end Workbench

end CodeAtlas
