import CodeAtlas.Proofs.Analysis.Independence

/-!
# Tables of languages

Two tables say what an ending stands for.  A search looks for the endings of `Discovery.extensions` and groups files by
it, and a survey notes these groups as its languages.  A workbench reads the endings of `Language.extensions`, and a
survey lists classes under the name of the language that read them.

* **`Survey.ofRepository_agrees_iff`**: which files are listed in the group that they are in, and which are searched
  for.
-/

namespace CodeAtlas

open List Discovery Loose

namespace Discovery

/-! ### Endings that are looked for -/

theorem wants_of_mem_collect {l : Limits} {found : List String} {cs : List Candidate} {p : String}
    (h : p ∈ collect l found cs) : p ∈ found ∨ l.wants (Path.extension p) = .ok true := by
  induction cs generalizing found with
  | nil => exact .inl h
  | cons c cs ih =>
    rw [collect] at h
    split at h
    · split at h
      · exact ih h
      · split at h
        next hadmits =>
          rcases ih h with hp | hp
          · rcases mem_append.mp hp with hp | hp
            · exact .inl hp
            · obtain ⟨b, hb, hrest⟩ := of_bind hadmits
              cases b with
              | false => cases hrest
              | true => exact .inr (mem_singleton.mp hp ▸ hb)
          · exact .inr hp
        · exact ih h
        · exact .inl h
    · exact .inl h

end Discovery

namespace Survey

theorem wants_searchLimits (maxFiles maxBytes : Value) (e : String) :
    (searchLimits maxFiles maxBytes).wants e = .ok (Discovery.extensions.lookup e).isSome := by
  have hlist : (searchLimits maxFiles maxBytes).wants e =
      .ok (((Discovery.extensions.map (·.1)).map Value.text).any (·.isText e)) := rfl
  refine congrArg Except.ok ?_
  induction Discovery.extensions with
  | nil => rfl
  | cons x table ih =>
    rw [map_cons, map_cons, any_cons, ih, lookup_cons]
    have htext : (Value.text x.1).isText e = (x.1 == e) := rfl
    rw [htext, Bool.beq_comm]
    cases e == x.1 <;> rfl

/-- **All files that are found are read**: a limit on their number that can be applied has been kept to before. -/
theorem filesRead_eq_found {root : Entry} {limits maxFiles maxBytes : Value} {files : List SourceFile}
    (hfiles : limits.getD "max_files" (.nat 20000) = .ok maxFiles)
    (hbytes : limits.getD "max_bytes" (.nat 2000000) = .ok maxBytes) (h : filesRead root limits = .ok files) :
    files = found root maxFiles maxBytes := by
  rw [filesRead, hfiles, ok_bind, hbytes, ok_bind] at h
  have hnil : found root maxFiles maxBytes = [] → files = found root maxFiles maxBytes := by
    intro hnil
    unfold limited at h
    split at h <;> simp_all
  have hlimited : ∀ {a : Atom} {n : Int}, maxFiles = .atom a → a.number? = some (.inl n) →
      files = found root maxFiles maxBytes := by
    intro a n ha hn
    have hlength : (found root maxFiles maxBytes).length ≤ n.toNat := by
      have hcollect := collect_eq (l := searchLimits maxFiles maxBytes) ⟨a, ha, hn⟩ []
        (candidates "" (root.visits (fun n => !Skip.folder n) ""))
      rw [found, length_map, find]
      rw [searchLimits] at hcollect
      rw [hcollect, nil_append, length_take]
      exact Nat.min_le_left _ _
    by_cases hneg : n < 0
    · exact hnil (length_eq_zero_iff.mp (by omega))
    · rw [ha, limited_eq_self hn (by rw [← ha]; omega)] at h
      rw [ha]
      exact (Except.ok.inj h).symm
  cases maxFiles with
  | atom a =>
    cases a with
    | null =>
      refine hnil ?_
      rw [found, find]
      cases candidates "" (root.visits (fun n => !Skip.folder n) "") <;> rfl
    | bool b => exact hlimited rfl rfl
    | int n => exact hlimited rfl rfl
    | _ => cases h
  | _ => cases h

end Survey

/-! ### Where the tables agree -/

namespace Language

/-- The endings of files that are grouped under another name than that of the language which reads them. -/
def regrouped : List String := [".js", ".c", ".h"]

/-- The endings of files that could be read but are not searched for. -/
def unsearched : List String := [".tsx", ".jsx"]

theorem mem_of_lookup {e g : String} (h : Discovery.extensions.lookup e = some g) : (e, g) ∈ Discovery.extensions := by
  obtain ⟨_, _, heq, _⟩ := lookup_eq_some_iff.mp h
  rw [heq]
  simp

theorem name_eq_group_iff {e g : String} {l : Language} (hg : Discovery.extensions.lookup e = some g)
    (hl : ofExtension? e = some l) : l.name = g ↔ e ∉ regrouped := by
  have htable : ∀ x ∈ Discovery.extensions, ∀ l ∈ ofExtension? x.1, (l.name = x.2 ↔ x.1 ∉ regrouped) := by decide
  exact htable (e, g) (mem_of_lookup hg) l hl

theorem isSome_lookup_iff {e : String} (h : (ofExtension? e).isSome) :
    (Discovery.extensions.lookup e).isSome ↔ e ∉ unsearched := by
  have htable : ∀ x ∈ extensions, ((Discovery.extensions.lookup x.1).isSome ↔ x.1 ∉ unsearched) := by decide
  obtain ⟨x, hx⟩ := Option.isSome_iff_exists.mp ((Option.isSome_map ..).symm.trans h)
  have hkey : x.1 = e := by simpa using find?_some hx
  exact hkey ▸ htable x (mem_of_find?_eq_some hx)

theorem mem_headings_of_lookup {e g : String} (h : Discovery.extensions.lookup e = some g) : g ∈ Survey.headings := by
  have htable : ∀ x ∈ Discovery.extensions, x.2 ∈ Survey.headings := by decide
  exact htable (e, g) (mem_of_lookup h)

end Language

theorem SourceFile.listed_group_iff [Java.Parser] {f : SourceFile} {g : String}
    (hg : Discovery.group? f.path = some g) : f.listed g = (f.classes "").map ClassEntry.toValue ↔
      f.classes "" = [] ∨ Path.extension f.path ∉ Language.regrouped := by
  rw [listed]
  cases hclasses : f.classes "" with
  | nil => simp
  | cons e es =>
    obtain ⟨l, hl⟩ := exists_language_of_mem (hclasses ▸ mem_cons_self)
    have hname : l.name = g ↔ Path.extension f.path ∉ Language.regrouped := Language.name_eq_group_iff hg hl
    rw [hl, Option.map_some, ← hname]
    by_cases heq : l.name = g
    · simp [heq]
    · simp [heq]

namespace Survey

/-! ### Surveys with advice -/

theorem exists_ofReports_advised (rs : List FileReport) (files : List SourceFile) (groups : Record) (name : String)
    (advisor : Advisor) : ∃ survey, ofReports rs files groups name advisor = .ok survey ∧
      ∀ heading ∈ headings, survey.get heading = .ok (.list (classesUnder rs heading)) := by
  obtain ⟨_, hsilent, _⟩ := exists_ofReports rs files groups name
  obtain ⟨register, hregister, h⟩ := of_bind hsilent
  obtain ⟨cycles, hcycles, h⟩ := of_bind h
  obtain ⟨kinds, hkinds, _⟩ := of_bind h
  refine ⟨_, by rw [ofReports, hregister, ok_bind, hcycles, ok_bind, hkinds]; rfl, fun heading hheading => ?_⟩
  exact get_heading _ _ hheading

variable {files : List SourceFile} {root : Entry} {limits : Value}

theorem exists_ofRepository_advised [Java.Parser] (h : filesRead root limits = .ok files) (name : String)
    (advisor : Advisor) (delivery : Reordering SourceFile) :
    ∃ survey, ofRepository root name limits advisor delivery = .ok survey ∧
      ∀ heading ∈ headings, survey.get heading = .ok (.list ((delivery.order files).flatMap (·.listed heading))) := by
  obtain ⟨all, groups, heq⟩ := exists_ofRepository_eq h name advisor delivery
  obtain ⟨survey, hsurvey, hclasses⟩ :=
    exists_ofReports_advised (reports "" (delivery.order files)) all groups name advisor
  refine ⟨survey, heq.trans hsurvey, fun heading hheading => (hclasses heading hheading).trans ?_⟩
  rw [classesUnder_reports]

/-! ### Files that are searched for -/

/-- Names that lead to a file which is not left out for its name, its folders or its size. -/
structure IsUnskipped (root : Entry) (limits : Value) (names : List String) : Prop where
  ne_nil : names ≠ []
  folders : ∀ n ∈ names.dropLast, Skip.folder n = false
  name : Skip.file (names.getLastD "") = false
  size : ∃ c maxBytes, root.fileAt? names = some c ∧ limits.getD "max_bytes" (.nat 2000000) = .ok maxBytes ∧
    (searchLimits .null maxBytes).exceeds c.size = .ok false

theorem isSome_group_of_mem_found {maxFiles maxBytes : Value} {f : SourceFile}
    (h : f ∈ found root maxFiles maxBytes) : (Discovery.group? f.path).isSome := by
  obtain ⟨p, hp, rfl⟩ := mem_map.mp h
  have hwants := (wants_of_mem_collect hp).resolve_left not_mem_nil
  exact Except.ok.inj ((wants_searchLimits maxFiles maxBytes _).symm.trans hwants)

theorem exists_mem_filesRead (hroot : root.IsProper) (hbelow : IsBelowLimit root limits)
    (h : filesRead root limits = .ok files) {names : List String} (hnames : IsUnskipped root limits names)
    (hgroup : (Discovery.group? (Text.join "/" names)).isSome) :
    ∃ f ∈ files, f.path = Text.join "/" names := by
  obtain ⟨maxFiles, maxBytes, n, hfiles, hbytes, hlimit, hle⟩ := hbelow
  cases h.symm.trans (filesRead_eq hroot hfiles hbytes hlimit hle).2
  obtain ⟨c, maxBytes', hfile, hbytes', hsize⟩ := hnames.size
  cases hbytes.symm.trans hbytes'
  refine ⟨sourceAt root names, mem_map_of_mem ?_, rfl⟩
  refine (mem_taken_iff hroot _).mpr ⟨hnames.ne_nil, hnames.folders, c, hfile, ?_⟩
  refine Discovery.Limits.takes_iff.mpr ⟨hnames.name, ?_⟩
  have hexceeds : (searchLimits maxFiles maxBytes).exceeds c.size = .ok false := hsize
  have hwants := wants_searchLimits maxFiles maxBytes (Path.extension (Text.join "/" names))
  rw [show (Discovery.extensions.lookup _).isSome = true from hgroup] at hwants
  unfold Discovery.Limits.admits
  rw [hwants, ok_bind, if_pos rfl]
  simp only [hexceeds]
  rfl

/-- **How far the tables of languages agree.**  Whatever the repository, its limits and the advice are, as long as files
can be read, and in whatever order their reports are delivered: the survey notes as its languages the groups of the
files that are read.  Under each heading it lists the classes of the files that belong there, in the order of delivery.
Each of these files is in a group that the survey has a heading for, and all its classes are listed there if and only if
it has no classes or its ending is none of `.js`, `.c` and `.h`.  Below the limit on the number of files, a file that is
not left out for its name, its folders or its size and that has the ending of a language is read if and only if this
ending is neither `.tsx` nor `.jsx`. -/
theorem ofRepository_agrees_iff [Java.Parser] (root : Entry) (name : String) (limits : Value) (advisor : Advisor)
    (delivery : Reordering SourceFile) (files : List SourceFile) (h : filesRead root limits = .ok files) :
    ∃ survey notes languages, ofRepository root name limits advisor delivery = .ok survey ∧
      survey.get "meta" = .ok notes ∧ notes.get "languages" = .ok (.list languages) ∧
      (∀ g, .text g ∈ languages ↔ ∃ f ∈ files, Discovery.group? f.path = some g) ∧
      (∀ heading ∈ headings, survey.get heading = .ok (.list ((delivery.order files).flatMap (·.listed heading)))) ∧
      (∀ f ∈ files, ∃ g ∈ headings, Discovery.group? f.path = some g ∧
        (f.listed g = (f.classes "").map ClassEntry.toValue ↔
          f.classes "" = [] ∨ Path.extension f.path ∉ [".js", ".c", ".h"])) ∧
      (root.IsProper → IsBelowLimit root limits → ∀ names, IsUnskipped root limits names →
        (Workbench.languageOf? (Text.join "/" names)).isSome = true →
          ((∃ f ∈ files, f.path = Text.join "/" names) ↔ Path.extension (Text.join "/" names) ∉ [".tsx", ".jsx"])) := by
  obtain ⟨survey, hsurvey, hclasses⟩ := exists_ofRepository_advised h name advisor delivery
  obtain ⟨maxFiles, maxBytes, groups, notes, hfiles, hbytes, hgroups, _, hnotes, hlanguages⟩ :=
    ofRepository_parts hsurvey
  have hfound : files = found root maxFiles maxBytes := filesRead_eq_found hfiles hbytes h
  have hgroup : ∀ f ∈ files, (Discovery.group? f.path).isSome = true := fun f hf =>
    isSome_group_of_mem_found (hfound ▸ hf)
  refine ⟨survey, notes, _, hsurvey, hnotes, hlanguages, fun g => ?_, hclasses, fun f hf => ?_, ?_⟩
  · have hkey : Value.text g ∈ (Record.keys groups).map .atom ↔ .text g ∈ Record.keys groups := by
      simp [Value.text]
    rw [Discovery.groups_texts, ← hfound] at hgroups
    rw [hkey, ← Except.ok.inj hgroups, Discovery.text_mem_keys_grouped_iff, Record.keys, List.map_nil]
    simp only [List.not_mem_nil, false_or, List.mem_map, exists_exists_and_eq_and]
    refine exists_congr fun f => and_congr_right fun hf => ?_
    obtain ⟨g', hg'⟩ := Option.isSome_iff_exists.mp (hgroup f hf)
    simp [hg']
  · obtain ⟨g, hg⟩ := Option.isSome_iff_exists.mp (hgroup f hf)
    exact ⟨g, Language.mem_headings_of_lookup hg, hg, SourceFile.listed_group_iff hg⟩
  · intro hroot hbelow names hnames hlanguage
    have hsearched := Language.isSome_lookup_iff hlanguage
    constructor
    · rintro ⟨f, hf, hpath⟩
      exact hsearched.mp (hpath ▸ hgroup f hf)
    · intro hmem
      exact exists_mem_filesRead hroot hbelow h hnames (hsearched.mpr hmem)

def mixedFiles : Entry := textFiles [("a.js", "class A {}\n"), ("b.py", "class B:\n    pass\n")]

/-- A script, which is grouped under another name than the one it is listed under, beside a module, which is not. -/
theorem ofRepository_agrees_iff_mixed :
    filesRead mixedFiles (.record []) = .ok [⟨"a.js", some "class A {}\n"⟩, ⟨"b.py", some "class B:\n    pass\n"⟩] ∧
      mixedFiles.IsProper ∧ IsBelowLimit mixedFiles (.record []) ∧ IsUnskipped mixedFiles (.record []) ["b.py"] ∧
      ∃ survey notes languages b, ofRepository mixedFiles "repo" (.record []) .silent .reversed = .ok survey ∧
        survey.get "meta" = .ok notes ∧ notes.get "languages" = .ok (.list languages) ∧
        .text "javascript" ∈ languages ∧ .text "python" ∈ languages ∧ .text "typescript" ∉ languages ∧
        survey.get "javascript" = .ok (.list []) ∧ survey.get "python" = .ok (.list [b]) := by
  have hread : filesRead mixedFiles (.record []) =
      .ok [⟨"a.js", some "class A {}\n"⟩, ⟨"b.py", some "class B:\n    pass\n"⟩] := by rfl
  obtain ⟨survey, notes, languages, hsurvey, hnotes, hlanguages, hgroups, hclasses, _⟩ :=
    ofRepository_agrees_iff mixedFiles "repo" (.record []) .silent .reversed _ hread
  have hjavascript := hclasses "javascript" (by decide)
  have hpython := hclasses "python" (by decide)
  obtain ⟨b, hb, _⟩ := SourceFile.exists_listed ⟨"b.py", some "class B:\n    pass\n"⟩ "python" "B" (by decide)
    (by decide +kernel)
  have hscript : ∀ heading, heading ≠ "typescript" → SourceFile.listed ⟨"a.js", some "class A {}\n"⟩ heading = [] := by
    intro heading hne
    exact if_neg fun heq => hne (Option.some.inj heq).symm
  have hmodule : SourceFile.listed ⟨"b.py", some "class B:\n    pass\n"⟩ "javascript" = [] :=
    if_neg (by decide)
  simp only [Reordering.order_reversed, List.reverse_cons, List.reverse_nil, List.nil_append, List.cons_append,
    List.flatMap_cons, hscript _ (by decide : "javascript" ≠ "typescript"), hmodule] at hjavascript
  simp only [Reordering.order_reversed, List.reverse_cons, List.reverse_nil, List.nil_append, List.cons_append,
    List.flatMap_cons, hscript _ (by decide : "python" ≠ "typescript"), hb] at hpython
  have hbelow : IsBelowLimit mixedFiles (.record []) :=
    ⟨_, _, 20000, rfl, rfl, ⟨.int 20000, rfl, rfl⟩, by decide +kernel⟩
  have hunskipped : IsUnskipped mixedFiles (.record []) ["b.py"] :=
    ⟨by decide, by decide, by decide, _, _, rfl, rfl, by decide⟩
  refine ⟨hread, textFiles_isProper (by decide) (by decide), hbelow, hunskipped, survey, notes, languages, b, hsurvey,
    hnotes, hlanguages, (hgroups _).mpr ⟨_, List.mem_cons_self, by decide⟩,
    (hgroups _).mpr ⟨_, List.mem_cons_of_mem _ List.mem_cons_self, by decide⟩, ?_, hjavascript, hpython⟩
  rw [hgroups]
  decide

/-- The classes of a script are not listed in its group, and a file that could be read is not searched for. -/
theorem ofRepository_regroups :
    (∃ survey a, ofRepository (textFiles [("a.js", "class A {}\n")]) "repo" (.record []) .silent = .ok survey ∧
      Discovery.group? "a.js" = some "javascript" ∧ survey.get "javascript" = .ok (.list []) ∧
      survey.get "typescript" = .ok (.list [a])) ∧
    IsUnskipped (textFiles [("a.tsx", "class A {}\n")]) (.record []) ["a.tsx"] ∧
      Workbench.languageOf? "a.tsx" = some .typescript ∧
      filesRead (textFiles [("a.tsx", "class A {}\n")]) (.record []) = .ok [] := by
  refine ⟨?_, ⟨by decide, by decide, by decide, _, _, rfl, rfl, by decide⟩, by decide, by rfl⟩
  have hread : filesRead (textFiles [("a.js", "class A {}\n")]) (.record []) = .ok [⟨"a.js", some "class A {}\n"⟩] := by
    rfl
  obtain ⟨survey, hsurvey, hclasses⟩ := exists_ofRepository_advised hread "repo" .silent .kept
  obtain ⟨a, ha, _⟩ := SourceFile.exists_listed ⟨"a.js", some "class A {}\n"⟩ "typescript" "A" (by decide)
    (by decide +kernel)
  have hnone : SourceFile.listed ⟨"a.js", some "class A {}\n"⟩ "javascript" = [] := if_neg (by decide)
  refine ⟨survey, a, hsurvey, by decide, ?_, ?_⟩
  · rw [hclasses _ (by decide), Reordering.order_kept, List.flatMap_cons, hnone]
    rfl
  · rw [hclasses _ (by decide), Reordering.order_kept, List.flatMap_cons, ha]
    rfl

end Survey

end CodeAtlas
