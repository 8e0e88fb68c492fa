import CodeAtlas.Proofs.Analysis.Separation

/-!
# Files of a repository by themselves

A survey reads each file by itself.  It lists the endpoints of the files one after the other, in the order of a walk,
and their classes in the order in which reports are delivered.  So two repositories that differ in one file have surveys
that differ in what this file shows, as far as classes and endpoints go, and in the order of what the others show.

* **`Survey.ofRepository_independent`**: what all other files give stays the same, up to the order of walk and delivery;
* **`Survey.classes_in_order_of_delivery`**: two deliveries by which the order differs.
-/

namespace CodeAtlas

open List Loose

/-! ### Endpoints -/

namespace Endpoint

theorem methodList_ne_nil (s : String) : methodList s ≠ [] := by
  simpa [methodList, Text.splitOn] using Chars.splitOn_ne_nil ",".toList s.toList

theorem methods_of_mem_declared {source : List Char} {framework method : String} {starts : List String} {e : Endpoint}
    (h : e ∈ declared source framework starts method) : e.methods ≠ [] := by
  obtain ⟨m, _, rfl⟩ := mem_map.mp h
  exact cons_ne_nil _ _

theorem methods_ne_nil {l : Language} {source : String} {e : Endpoint} (h : e ∈ ofSource l source) :
    e.methods ≠ [] := by
  cases l with
  | python =>
    rcases mem_append.mp h with h | h
    · rcases mem_append.mp h with h | h
      · obtain ⟨m, _, rfl⟩ := mem_map.mp h
        exact methodList_ne_nil _
      · obtain ⟨m, _, rfl⟩ := mem_map.mp h
        exact cons_ne_nil _ _
    · obtain ⟨m, _, rfl⟩ := mem_map.mp h
      exact cons_ne_nil _ _
  | java | csharp =>
    obtain ⟨d, _, hd⟩ := mem_flatMap.mp h
    exact methods_of_mem_declared hd
  | typescript =>
    rcases mem_append.mp h with h | h
    · obtain ⟨d, _, hd⟩ := mem_flatMap.mp h
      exact methods_of_mem_declared hd
    · obtain ⟨d, _, hd⟩ := mem_flatMap.mp h
      exact methods_of_mem_declared hd
  | cpp => cases h

def IsSingle (v : Value) : Prop := (∃ m, v.field? "method" = some (.text m)) ∧ v.field? "methods" = none

theorem isSingle_of_mem_perMethod {e : Endpoint} (h : e.methods ≠ []) {v : Value} (hv : v ∈ Survey.perMethod e) :
    IsSingle v := by
  have hnot : ¬ e.methods.isEmpty := by simpa using h
  have hrecord : e.toValue = .record [(.text "path", .text e.path), (.text "methods", .texts e.methods),
    (.text "framework", .text e.framework)] := rfl
  simp only [Survey.perMethod, hrecord] at hv
  rw [if_neg hnot] at hv
  obtain ⟨m, _, rfl⟩ := mem_map.mp hv
  exact ⟨⟨m, rfl⟩, rfl⟩

end Endpoint

/-! ### What a file gives -/

namespace SourceFile

/-- The classes of a file that are listed under a heading: all of them under the name of its language. -/
def listed [Java.Parser] (f : SourceFile) (heading : String) : List Value :=
  if (Workbench.languageOf? f.path).map Language.name = some heading then (f.classes "").map ClassEntry.toValue else []

def endpoints (f : SourceFile) : List Value := (Workbench.endpoints f.path f.source).flatMap Survey.perMethod

theorem isSingle_of_mem_endpoints {f : SourceFile} {v : Value} (h : v ∈ f.endpoints) : Endpoint.IsSingle v := by
  obtain ⟨e, he, hv⟩ := mem_flatMap.mp h
  refine Endpoint.isSingle_of_mem_perMethod ?_ hv
  unfold Workbench.endpoints at he
  split at he
  · exact Endpoint.methods_ne_nil he
  · cases he

end SourceFile

theorem SourceFile.exists_listed [Java.Parser] (f : SourceFile) (heading n : String)
    (hlanguage : (Workbench.languageOf? f.path).map Language.name = some heading)
    (h : (f.classes "").map (·.name) = [n]) : ∃ a, f.listed heading = [a] ∧ a.get "class" = .ok (.text n) := by
  obtain ⟨e, he, rfl⟩ := map_eq_singleton_iff.mp h
  exact ⟨e.toValue, by rw [listed, if_pos hlanguage, he, map_singleton], rfl⟩

namespace Survey

theorem classesUnder_append (rs rs' : List FileReport) (heading : String) :
    classesUnder (rs ++ rs') heading = classesUnder rs heading ++ classesUnder rs' heading := by
  rw [classesUnder, filter_append, flatMap_append, map_append]
  rfl

theorem classesUnder_reports_singleton [Java.Parser] (f : SourceFile) (heading : String) :
    classesUnder (reports "" [f]) heading = f.listed heading := by
  have hreports : reports "" [f] =
      ((Workbench.languageOf? f.path).map (f.report "")).toList.filter fun r => !r.classes.isEmpty := by
    rw [reports, filterMap_cons, ofFile?_eq]
    cases Workbench.languageOf? f.path <;> rfl
  rw [hreports, SourceFile.listed]
  cases hl : Workbench.languageOf? f.path with
  | none => rfl
  | some l =>
    rw [Option.map_some, Option.map_some, Option.toList_some]
    cases hclasses : f.classes "" with
    | nil =>
      have hempty : (f.report "" l).classes = [] := SourceFile.classes_report.trans hclasses
      rw [filter_cons_of_neg (by simp [hempty])]
      simp [classesUnder]
    | cons e es =>
      have hfilled : (f.report "" l).classes = e :: es := SourceFile.classes_report.trans hclasses
      have hlanguage : (f.report "" l).language = l := rfl
      rw [filter_cons_of_pos (by simp [hfilled]), filter_nil, classesUnder]
      by_cases hname : l.name = heading
      · rw [filter_cons_of_pos (by simp [hlanguage, hname]), if_pos (congrArg some hname)]
        simp [hfilled]
      · rw [filter_cons_of_neg (by simp [hlanguage, hname]), if_neg fun heq => hname (Option.some.inj heq)]
        rfl

/-- **Under a heading stand the classes of the files, one file after the other.** -/
theorem classesUnder_reports [Java.Parser] (files : List SourceFile) (heading : String) :
    classesUnder (reports "" files) heading = files.flatMap (·.listed heading) := by
  induction files with
  | nil => rfl
  | cons f files ih =>
    have hcons : reports "" (f :: files) = reports "" [f] ++ reports "" files := by
      rw [← singleton_append, reports, filterMap_append, filter_append]
      rfl
    rw [hcons, classesUnder_append, classesUnder_reports_singleton, ih, flatMap_cons]

/-! ### Surveys of files -/

/-- The number of classes that a survey notes is that of the different names of classes that it lists. -/
def CountsNames (survey : Value) : Prop :=
  ∃ (notes : Value) (names : List String), survey.get "meta" = .ok notes ∧
    notes.get "classes_found" = .ok (.nat names.length) ∧ names.Nodup ∧
    ∀ n, n ∈ names ↔ ∃ heading ∈ headings, Schema.Lists survey heading n

/-- A survey lists the classes that its files give in the order of their delivery, and the endpoints in the order of the
files, and it counts the names of the classes that it lists. -/
structure IsAssembled [Java.Parser] (files delivered : List SourceFile) (survey : Value) : Prop where
  classes : ∀ heading ∈ headings, survey.get heading = .ok (.list (delivered.flatMap (·.listed heading)))
  endpoints : survey.get "endpoints" = .ok (.list (files.flatMap SourceFile.endpoints))
  single : ∀ v ∈ files.flatMap SourceFile.endpoints, Endpoint.IsSingle v
  counted : CountsNames survey

variable {survey limits : Value} {n : Int} {root : Entry}

theorem IsSurveyOf.countsNames [Java.Parser] {files : List SourceFile} (h : IsSurveyOf (reports "" files) survey) :
    CountsNames survey := by
  obtain ⟨notes, hnotes, _, hcount, _⟩ := h.notes
  refine ⟨notes, _, hnotes, hcount, Text.ascendingSet_nodup _, fun n => ?_⟩
  rw [Text.mem_ascendingSet]
  constructor
  · intro hn
    obtain ⟨e, he, rfl⟩ := mem_map.mp (mem_filter.mp hn).1
    obtain ⟨r, hr, her⟩ := mem_flatMap.mp he
    have hheading := language_mem_headings r.language
    exact ⟨_, hheading, (h.lists_iff hheading).mpr ⟨r, hr, rfl, e, her, rfl⟩⟩
  · rintro ⟨heading, hheading, hlists⟩
    obtain ⟨r, hr, _, e, he, rfl⟩ := (h.lists_iff hheading).mp hlists
    have hne : e.name ≠ "" := reports_named hr e he
    exact mem_filter.mpr ⟨mem_map_of_mem (mem_flatMap.mpr ⟨r, hr, he⟩), by simpa using hne⟩

theorem ofRepository_parts [Java.Parser] {name : String} {advisor : Advisor} {delivery : Reordering SourceFile}
    (h : ofRepository root name limits advisor delivery = .ok survey) : ∃ maxFiles maxBytes groups notes,
      limits.getD "max_files" (.nat 20000) = .ok maxFiles ∧ limits.getD "max_bytes" (.nat 2000000) = .ok maxBytes ∧
      Discovery.groups (.texts ((found root maxFiles maxBytes).map (·.path))) .null = .ok groups ∧
      survey.get "endpoints" = .ok (.list ((found root maxFiles maxBytes).flatMap SourceFile.endpoints)) ∧
      survey.get "meta" = .ok notes ∧ notes.get "languages" = .ok (.list ((Record.keys groups).map .atom)) := by
  obtain ⟨maxFiles, hfiles, h⟩ := of_bind h
  obtain ⟨maxBytes, hbytes, h⟩ := of_bind h
  obtain ⟨groups, hgroups, h⟩ := of_bind h
  obtain ⟨files, _, h⟩ := of_bind h
  obtain ⟨register, _, h⟩ := of_bind h
  obtain ⟨cycles, _, h⟩ := of_bind h
  obtain ⟨kinds, _, h⟩ := of_bind h
  refine ⟨maxFiles, maxBytes, groups, _, hfiles, hbytes, hgroups, ?_, by rw [← Except.ok.inj h]; rfl, ?_⟩
  · rw [← Except.ok.inj h]
    have hflat : (found root maxFiles maxBytes).flatMap SourceFile.endpoints =
        ((found root maxFiles maxBytes).flatMap fun f => Workbench.endpoints f.path f.source).flatMap perMethod :=
      (flatMap_assoc).symm
    rw [hflat]
    rfl
  · split <;> split <;> rfl

/-! ### Repositories below the limit -/

/-- All source files of a repository are read: the number of files is limited to a whole number that is not less than
the number of those that are taken. -/
def IsBelowLimit (root : Entry) (limits : Value) : Prop :=
  ∃ maxFiles maxBytes n, limits.getD "max_files" (.nat 20000) = .ok maxFiles ∧
    limits.getD "max_bytes" (.nat 2000000) = .ok maxBytes ∧ (searchLimits maxFiles maxBytes).IsLimitedTo n ∧
    ((Discovery.taken root (searchLimits maxFiles maxBytes)).length : Int) ≤ n

theorem limited_eq_self {α : Type} {xs : List α} {a : Atom} (ha : a.number? = some (.inl n))
    (hle : (xs.length : Int) ≤ n) : limited xs (.atom a) = .ok xs := by
  cases a with
  | bool b =>
    cases ha
    refine congrArg Except.ok (take_of_length_le ?_)
    cases b
    · exact Int.ofNat_le.mp hle
    · exact Int.ofNat_le.mp hle
  | int m =>
    cases ha
    have hnot : ¬ n < 0 := by omega
    refine congrArg Except.ok ?_
    rw [if_neg hnot, take_of_length_le (by omega)]
  | null | float | text => cases ha

theorem filesRead_eq (hroot : root.IsProper) {maxFiles maxBytes : Value}
    (hfiles : limits.getD "max_files" (.nat 20000) = .ok maxFiles)
    (hbytes : limits.getD "max_bytes" (.nat 2000000) = .ok maxBytes)
    (hlimit : (searchLimits maxFiles maxBytes).IsLimitedTo n)
    (hle : ((Discovery.taken root (searchLimits maxFiles maxBytes)).length : Int) ≤ n) :
    found root maxFiles maxBytes = (Discovery.taken root (searchLimits maxFiles maxBytes)).map (sourceAt root) ∧
      filesRead root limits = .ok ((Discovery.taken root (searchLimits maxFiles maxBytes)).map (sourceAt root)) := by
  have hfound : found root maxFiles maxBytes =
      (Discovery.taken root (searchLimits maxFiles maxBytes)).map (sourceAt root) := by
    rw [found_eq hroot maxBytes hlimit, take_of_length_le (by omega)]
  refine ⟨hfound, ?_⟩
  obtain ⟨a, ha, hn⟩ := hlimit
  have hatom : maxFiles = .atom a := ha
  rw [filesRead, hfiles, ok_bind, hbytes, ok_bind, hfound, hatom]
  refine limited_eq_self hn ?_
  rw [length_map, ← hatom]
  exact hle

theorem exists_isAssembled [Java.Parser] (hroot : root.IsProper) (h : IsBelowLimit root limits) (name : String)
    (delivery : Reordering SourceFile) : ∃ files survey, filesRead root limits = .ok files ∧
      ofRepository root name limits .silent delivery = .ok survey ∧
      IsAssembled files (delivery.order files) survey := by
  obtain ⟨maxFiles, maxBytes, n, hfiles, hbytes, hlimit, hle⟩ := h
  obtain ⟨hfound, hread⟩ := filesRead_eq hroot hfiles hbytes hlimit hle
  obtain ⟨survey, hsurvey, his, _⟩ := exists_ofRepository hread name delivery
  obtain ⟨maxFiles', maxBytes', _, _, hfiles', hbytes', _, hendpoints, _⟩ := ofRepository_parts hsurvey
  cases hfiles.symm.trans hfiles'
  cases hbytes.symm.trans hbytes'
  rw [hfound] at hendpoints
  refine ⟨_, survey, hread, hsurvey, fun heading hheading => ?_, hendpoints, fun v hv => ?_, his.countsNames⟩
  · rw [his.classes heading hheading, classesUnder_reports]
  · obtain ⟨f, _, hf⟩ := mem_flatMap.mp hv
    exact SourceFile.isSingle_of_mem_endpoints hf

end Survey

/-! ### Trees that differ in one file -/

/-- Two trees hold the same files, but for what is at a path. -/
def Entry.SameBeside (path : String) (root root' : Entry) : Prop :=
  ∀ names, Text.join "/" names ≠ path → root.fileAt? names = root'.fileAt? names

namespace Survey

variable {root' : Entry} {path : String}

theorem mem_taken_filter_iff (hroot : root.IsProper) (hroot' : root'.IsProper) (h : Entry.SameBeside path root root')
    (l : Discovery.Limits) (p : List String) : p ∈ (Discovery.taken root l).filter (Text.join "/" · != path) ↔
      p ∈ (Discovery.taken root' l).filter (Text.join "/" · != path) := by
  rw [mem_filter, mem_filter, and_comm, and_comm (b := _ = true)]
  refine and_congr_right fun hne => ?_
  rw [Discovery.mem_taken_iff hroot, Discovery.mem_taken_iff hroot', h p (bne_iff_ne.mp hne)]

/-- **The files of two trees, but for what is at a path**, are the same; they are found in the same order where the
trees are walked through alike. -/
theorem sources_filter_perm (hroot : root.IsProper) (hroot' : root'.IsProper) (h : Entry.SameBeside path root root')
    (l : Discovery.Limits) :
    (((Discovery.taken root l).map (sourceAt root)).filter (·.path != path)).Perm
      (((Discovery.taken root' l).map (sourceAt root')).filter (·.path != path)) ∧
    (Entry.WalksAlike root root' → ((Discovery.taken root l).map (sourceAt root)).filter (·.path != path) =
      ((Discovery.taken root' l).map (sourceAt root')).filter (·.path != path)) := by
  have hpaths : ∀ tree : Entry, ((fun f : SourceFile => f.path != path) ∘ sourceAt tree) = (Text.join "/" · != path) :=
    fun _ => rfl
  have hordered := (Discovery.taken_pairwise hroot l).filter (Text.join "/" · != path)
  have hordered' := (Discovery.taken_pairwise hroot' l).filter (Text.join "/" · != path)
  have hperm := Entry.perm_of_walksBefore hroot hroot' hordered hordered' (mem_taken_filter_iff hroot hroot' h l)
  have hsources : ((Discovery.taken root l).filter (Text.join "/" · != path)).map (sourceAt root) =
      ((Discovery.taken root l).filter (Text.join "/" · != path)).map (sourceAt root') := by
    refine map_congr_left fun p hp => ?_
    rw [sourceAt, sourceAt, h p (bne_iff_ne.mp (mem_filter.mp hp).2)]
  rw [filter_map, filter_map, hpaths, hpaths, hsources]
  refine ⟨hperm.map _, fun halike => ?_⟩
  rw [Entry.eq_of_walksAlike hroot' halike hordered hordered' hperm]

/-- **Files do not interfere.**  Two repositories below the limit hold the same files but for what is at one path, and
in both the reports of files are delivered in some order.  Then both have surveys, and each lists the classes that its
files give in the order of delivery and the endpoints in the order of the files.  Apart from what is at the path, the
files are the same, in the same order where the trees are walked through alike, and what they give is the same up to the
order of delivery.  Every endpoint has a single method, and the names of classes that are counted are the different ones
that are listed. -/
theorem ofRepository_independent [Java.Parser] (root root' : Entry) (name path : String) (limits : Value)
    (delivery delivery' : Reordering SourceFile) (hroot : root.IsProper) (hroot' : root'.IsProper)
    (hsame : Entry.SameBeside path root root') (hbelow : IsBelowLimit root limits)
    (hbelow' : IsBelowLimit root' limits) :
    ∃ files files' survey survey', filesRead root limits = .ok files ∧ filesRead root' limits = .ok files' ∧
      ofRepository root name limits .silent delivery = .ok survey ∧
      ofRepository root' name limits .silent delivery' = .ok survey' ∧
      IsAssembled files (delivery.order files) survey ∧ IsAssembled files' (delivery'.order files') survey' ∧
      (Entry.WalksAlike root root' → files.filter (·.path != path) = files'.filter (·.path != path)) ∧
      (files.filter (·.path != path)).Perm (files'.filter (·.path != path)) ∧
      ∀ heading, (((delivery.order files).filter (·.path != path)).flatMap (·.listed heading)).Perm
        (((delivery'.order files').filter (·.path != path)).flatMap (·.listed heading)) := by
  obtain ⟨files, survey, hread, hsurvey, hassembled⟩ := exists_isAssembled hroot hbelow name delivery
  obtain ⟨files', survey', hread', hsurvey', hassembled'⟩ := exists_isAssembled hroot' hbelow' name delivery'
  refine ⟨files, files', survey, survey', hread, hread', hsurvey, hsurvey', hassembled, hassembled', ?_⟩
  obtain ⟨maxFiles, maxBytes, n, hfiles, hbytes, hlimit, hle⟩ := hbelow
  obtain ⟨_, _, n', hfiles', hbytes', hlimit', hle'⟩ := hbelow'
  cases hfiles.symm.trans hfiles'
  cases hbytes.symm.trans hbytes'
  cases hread.symm.trans (filesRead_eq hroot hfiles hbytes hlimit hle).2
  cases hread'.symm.trans (filesRead_eq hroot' hfiles hbytes hlimit' hle').2
  obtain ⟨hperm, halike⟩ := sources_filter_perm hroot hroot' hsame (searchLimits maxFiles maxBytes)
  refine ⟨halike, hperm, fun heading => Perm.flatMap_right _ ?_⟩
  exact ((delivery.perm _).filter _).trans (hperm.trans ((delivery'.perm _).filter _).symm)

/-! ### Files in one folder -/

def textFiles (texts : List (String × String)) : Entry := .folder (texts.map fun t => (t.1, .file (.text t.2)))

theorem textFiles_isProper {texts : List (String × String)} (hnames : ∀ t ∈ texts, Path.IsProper t.1)
    (hdistinct : texts.Pairwise fun t u => t.1 ≠ u.1) : (textFiles texts).IsProper := by
  refine .folder _ ?_ (pairwise_map.mpr hdistinct) ?_
  · intro e he
    obtain ⟨t, ht, rfl⟩ := mem_map.mp he
    exact hnames t ht
  · intro e he
    obtain ⟨t, _, rfl⟩ := mem_map.mp he
    exact .file _

theorem fileAt?_textFiles (texts : List (String × String)) (names : List String) : (textFiles texts).fileAt? names =
    match names with
    | [n] => (texts.lookup n).map .text
    | _ => none := by
  have hlookup : ∀ n, (textFiles texts).entries.lookup n = (texts.lookup n).map fun t => .file (.text t) := by
    intro n
    rw [textFiles, Entry.entries]
    induction texts with
    | nil => rfl
    | cons t texts ih =>
      rw [map_cons, lookup_cons, lookup_cons, ih]
      cases n == t.1 <;> rfl
  rcases names with _ | ⟨n, _ | ⟨m, ns⟩⟩
  · rfl
  · rw [Entry.fileAt?, Entry.at?_singleton, hlookup]
    dsimp only
    cases texts.lookup n <;> rfl
  · rw [Entry.fileAt?, Entry.at?_cons, hlookup]
    cases texts.lookup n <;> rfl

theorem textFiles_sameBeside (texts : List (String × String)) (name text text' : String) :
    Entry.SameBeside name (textFiles (texts ++ [(name, text)])) (textFiles (texts ++ [(name, text')])) := by
  intro names hne
  rw [fileAt?_textFiles, fileAt?_textFiles]
  rcases names with _ | ⟨n, _ | ⟨m, ns⟩⟩
  · rfl
  · have hjoin : Text.join "/" [n] = n := by
      rw [← String.toList_inj, Text.toList_join]
      rfl
    rw [hjoin] at hne
    simp [lookup_append, beq_eq_false_iff_ne.mpr hne]
  · rfl

def threeFiles (text : String) : Entry :=
  textFiles ([("a.py", "class A:\n    pass\n"), ("b.py", "class B:\n    pass\n")] ++ [("c.py", text)])

theorem threeFiles_isProper (text : String) : (threeFiles text).IsProper := by
  refine textFiles_isProper ?_ ?_
  · simp only [cons_append, nil_append, forall_mem_cons]
    exact ⟨by decide, by decide, by decide, by simp⟩
  · simp

theorem threeFiles_read {text : String} (h : text ∈ ["class C:\n    pass\n", "class C(:\n"]) :
    IsBelowLimit (threeFiles text) (.record []) ∧ filesRead (threeFiles text) (.record []) =
      .ok [⟨"a.py", some "class A:\n    pass\n"⟩, ⟨"b.py", some "class B:\n    pass\n"⟩, ⟨"c.py", some text⟩] := by
  simp only [mem_cons, not_mem_nil, or_false] at h
  rcases h with rfl | rfl
  · exact ⟨⟨_, _, 20000, rfl, rfl, ⟨.int 20000, rfl, rfl⟩, by decide +kernel⟩, by rfl⟩
  · exact ⟨⟨_, _, 20000, rfl, rfl, ⟨.int 20000, rfl, rfl⟩, by decide +kernel⟩, by rfl⟩

theorem exists_listed_threeFiles : ∃ a b c, a.get "class" = .ok (.text "A") ∧ b.get "class" = .ok (.text "B") ∧
    SourceFile.listed ⟨"a.py", some "class A:\n    pass\n"⟩ "python" = [a] ∧
    SourceFile.listed ⟨"b.py", some "class B:\n    pass\n"⟩ "python" = [b] ∧
    SourceFile.listed ⟨"c.py", some "class C:\n    pass\n"⟩ "python" = [c] ∧
    SourceFile.listed ⟨"c.py", some "class C(:\n"⟩ "python" = [] := by
  obtain ⟨a, ha, hA⟩ := SourceFile.exists_listed ⟨"a.py", some "class A:\n    pass\n"⟩ "python" "A" (by decide)
    (by decide +kernel)
  obtain ⟨b, hb, hB⟩ := SourceFile.exists_listed ⟨"b.py", some "class B:\n    pass\n"⟩ "python" "B" (by decide)
    (by decide +kernel)
  obtain ⟨c, hc, _⟩ := SourceFile.exists_listed ⟨"c.py", some "class C:\n    pass\n"⟩ "python" "C" (by decide)
    (by decide +kernel)
  have hnone : (SourceFile.listed ⟨"c.py", some "class C(:\n"⟩ "python").length = 0 := by decide +kernel
  exact ⟨a, b, c, hA, hB, ha, hb, hc, length_eq_zero_iff.mp hnone⟩

/-- A file that cannot be parsed takes nothing from the others. -/
theorem ofRepository_independent_broken :
    (threeFiles "class C:\n    pass\n").IsProper ∧ (threeFiles "class C(:\n").IsProper ∧
      Entry.SameBeside "c.py" (threeFiles "class C:\n    pass\n") (threeFiles "class C(:\n") ∧
      IsBelowLimit (threeFiles "class C:\n    pass\n") (.record []) ∧
      IsBelowLimit (threeFiles "class C(:\n") (.record []) ∧
      ∃ survey survey' a b c,
        ofRepository (threeFiles "class C:\n    pass\n") "repo" (.record []) .silent .reversed = .ok survey ∧
        ofRepository (threeFiles "class C(:\n") "repo" (.record []) .silent .reversed = .ok survey' ∧
        survey.get "python" = .ok (.list [c, b, a]) ∧ survey'.get "python" = .ok (.list [b, a]) := by
  obtain ⟨hbelow, hfiles⟩ := threeFiles_read (mem_cons_self (a := "class C:\n    pass\n"))
  obtain ⟨hbelow', hfiles'⟩ := threeFiles_read (mem_cons_of_mem _ (mem_cons_self (a := "class C(:\n")))
  obtain ⟨files, files', survey, survey', hread, hread', hsurvey, hsurvey', hassembled, hassembled', _⟩ :=
    ofRepository_independent _ _ "repo" "c.py" (.record []) .reversed .reversed (threeFiles_isProper _)
      (threeFiles_isProper _) (textFiles_sameBeside _ _ _ _) hbelow hbelow'
  cases hread.symm.trans hfiles
  cases hread'.symm.trans hfiles'
  obtain ⟨a, b, c, _, _, ha, hb, hc, hnone⟩ := exists_listed_threeFiles
  have hpython := hassembled.classes "python" (by decide)
  have hpython' := hassembled'.classes "python" (by decide)
  simp only [Reordering.order_reversed, reverse_cons, reverse_nil, nil_append, cons_append, flatMap_cons,
    flatMap_nil, ha, hb, hc] at hpython
  simp only [Reordering.order_reversed, reverse_cons, reverse_nil, nil_append, cons_append, flatMap_cons,
    flatMap_nil, ha, hb, hnone] at hpython'
  exact ⟨threeFiles_isProper _, threeFiles_isProper _, textFiles_sameBeside _ _ _ _, hbelow, hbelow',
    survey, survey', a, b, c, hsurvey, hsurvey', hpython, hpython'⟩

/-- Two deliveries list the classes of the other files in different orders, although the files are found in the same
order; and the heading for scripts stays empty while a script has a class. -/
theorem classes_in_order_of_delivery :
    (∃ survey survey' a b c, Entry.SameBeside "c.py" (threeFiles "class C:\n    pass\n") (threeFiles "class C(:\n") ∧
      ofRepository (threeFiles "class C:\n    pass\n") "repo" (.record []) .silent .kept = .ok survey ∧
      ofRepository (threeFiles "class C(:\n") "repo" (.record []) .silent .reversed = .ok survey' ∧
      a.get "class" = .ok (.text "A") ∧ b.get "class" = .ok (.text "B") ∧
      survey.get "python" = .ok (.list [a, b, c]) ∧ survey'.get "python" = .ok (.list [b, a])) ∧
    ∃ survey, ofRepository (textFiles [("a.js", "class A {}\n")]) "repo" (.record []) .silent .kept = .ok survey ∧
      SourceFile.classes ⟨"a.js", some "class A {}\n"⟩ "" ≠ [] ∧ survey.get "javascript" = .ok (.list []) := by
  refine ⟨?_, ?_⟩
  · obtain ⟨hbelow, hfiles⟩ := threeFiles_read (mem_cons_self (a := "class C:\n    pass\n"))
    obtain ⟨hbelow', hfiles'⟩ := threeFiles_read (mem_cons_of_mem _ (mem_cons_self (a := "class C(:\n")))
    obtain ⟨files, survey, hread, hsurvey, hassembled⟩ :=
      exists_isAssembled (threeFiles_isProper _) hbelow "repo" .kept
    obtain ⟨files', survey', hread', hsurvey', hassembled'⟩ :=
      exists_isAssembled (threeFiles_isProper _) hbelow' "repo" .reversed
    cases hread.symm.trans hfiles
    cases hread'.symm.trans hfiles'
    obtain ⟨a, b, c, hA, hB, ha, hb, hc, hnone⟩ := exists_listed_threeFiles
    have hpython := hassembled.classes "python" (by decide)
    have hpython' := hassembled'.classes "python" (by decide)
    simp only [Reordering.order_kept, flatMap_cons, flatMap_nil, ha, hb, hc] at hpython
    simp only [Reordering.order_reversed, reverse_cons, reverse_nil, nil_append, cons_append, flatMap_cons,
      flatMap_nil, ha, hb, hnone] at hpython'
    exact ⟨survey, survey', a, b, c, textFiles_sameBeside _ _ _ _, hsurvey, hsurvey', hA, hB, hpython, hpython'⟩
  · have hread : filesRead (textFiles [("a.js", "class A {}\n")]) (.record []) =
      .ok [⟨"a.js", some "class A {}\n"⟩] := by rfl
    obtain ⟨survey, hsurvey, his, _⟩ := exists_ofRepository hread "repo" .kept
    have hlength : (SourceFile.classes ⟨"a.js", some "class A {}\n"⟩ "").length = 1 := by decide +kernel
    refine ⟨survey, hsurvey, ne_nil_of_length_pos (by rw [hlength]; decide), ?_⟩
    rw [his.classes _ (by decide), classesUnder_other]
    intro l
    cases l <;> decide

end Survey

end CodeAtlas
