import CodeAtlas.Analysis.Survey
import CodeAtlas.Proofs.Repository.Walk
import CodeAtlas.Proofs.Value.Fields

/-!
# Files that are found

A search goes through the files that a walk meets until it has found as many as it may.  It finds the first of those
that it takes, and which these are is said by what stands at the end of their names.  Files can always be grouped by
the usual table of endings.

* **`Discovery.collect_eq`**: what is found is the first part of what is taken;
* **`Discovery.mem_taken_iff`**, `Discovery.taken_pairwise`: which these are, and their order;
* **`Survey.found_eq`**: the source files of a repository with their texts.
-/

namespace CodeAtlas

namespace Discovery

def group? (path : String) : Option String := extensions.lookup (Path.extension path)

def intoGroup (groups : Record) (path : String) : Record :=
  addTo groups (.text ((group? path).getD "unknown")) (.text path)

theorem getD_tableOr_null (e : String) : (tableOr .null).getD e (.text "unknown") =
    .ok (.text ((extensions.lookup e).getD "unknown")) := by
  have hfield : (tableOr .null).field? e = (extensions.lookup e).map .text := Value.field?_ofFields_texts extensions e
  rw [Value.getD_eq_field? rfl, hfield]
  cases extensions.lookup e <;> rfl

/-- **Files are put into their groups one after the other.** -/
theorem groups_texts (paths : List String) : groups (.texts paths) .null = .ok (paths.foldl intoGroup []) := by
  have hitems : (Value.texts paths).items = .ok (paths.map .text) := rfl
  rw [groups, hitems, Loose.ok_bind]
  generalize ([] : Record) = acc
  induction paths generalizing acc with
  | nil => rfl
  | cons p paths ih =>
    have hext : extensionOf (.text p) = .ok (Path.extension p) := rfl
    rw [List.map_cons, List.foldlM_cons, hext, Loose.ok_bind, getD_tableOr_null]
    exact ih rfl (intoGroup acc p)

theorem text_mem_keys_intoGroup_iff {g p : String} {groups : Record} : .text g ∈ Record.keys (intoGroup groups p) ↔
    (group? p).getD "unknown" = g ∨ .text g ∈ Record.keys groups := by
  unfold intoGroup addTo
  rw [eq_comm (b := g)]
  split
  · exact Record.text_mem_keys_put_iff
  · exact Record.text_mem_keys_put_iff

/-- **There is a group if and only if there is a file for it**, apart from the groups that were there before. -/
theorem text_mem_keys_grouped_iff {g : String} (paths : List String) (groups : Record) :
    .text g ∈ Record.keys (paths.foldl intoGroup groups) ↔
      .text g ∈ Record.keys groups ∨ ∃ p ∈ paths, (group? p).getD "unknown" = g := by
  induction paths generalizing groups with
  | nil => simp
  | cons p paths ih =>
    simp only [List.mem_cons, exists_eq_or_imp]
    rw [List.foldl_cons, ih, text_mem_keys_intoGroup_iff, or_assoc, or_left_comm]

end Discovery

open List

namespace Discovery

/-! ### What is taken -/

/-- Whether a file that a walk meets is taken: its name is not skipped, its ending is looked for, and it has a size that
is not too large. -/
def Limits.takes (l : Limits) (c : Candidate) : Bool :=
  !Skip.file c.name && (l.admits c.path c.size?).toOption == some true

variable {l : Limits} {c : Candidate} {n : Int} {root : Entry}

theorem Limits.takes_iff : l.takes c ↔ Skip.file c.name = false ∧ l.admits c.path c.size? = .ok true := by
  rw [takes, Bool.and_eq_true, Bool.not_eq_true']
  refine and_congr_right fun _ => ?_
  cases l.admits c.path c.size? with
  | error e => simp [Except.toOption]
  | ok b => cases b <;> simp [Except.toOption]

theorem compareTo_cases (limit : Value) (operator : String) :
    (∀ n, ∃ o, compareTo n limit operator = .ok o) ∨ ∀ n, ∃ e, compareTo n limit operator = .error e := by
  cases limit with
  | atom a =>
    simp only [compareTo]
    cases a.number? with
    | none => exact .inr fun n => ⟨_, rfl⟩
    | some x => exact .inl fun n => ⟨_, rfl⟩
  | list | record => exact .inr fun n => ⟨_, rfl⟩

theorem holdsText_cases (v : Value) :
    (∀ s, ∃ b, v.holdsText s = .ok b) ∨ ∀ s, ∃ e, v.holdsText s = .error e := by
  cases v with
  | atom a =>
    cases a with
    | text t => exact .inl fun s => ⟨_, rfl⟩
    | null | bool | int | float => exact .inr fun s => ⟨_, rfl⟩
  | list | record => exact .inl fun s => ⟨_, rfl⟩

/-- **Limits apply to all files or to none**: either it can be told of every file whether it is admitted, or none is. -/
theorem Limits.admits_cases (l : Limits) :
    (∀ path size?, ∃ b, l.admits path size? = .ok b) ∨ ∀ path size?, l.admits path size? ≠ .ok true := by
  have hwants : (∀ s, ∃ b, l.wants s = .ok b) ∨ ∀ s, ∃ e, l.wants s = .error e := holdsText_cases _
  have hexceeds : (∀ n, ∃ b, l.exceeds n = .ok b) ∨ ∀ n, ∃ e, l.exceeds n = .error e := by
    refine (compareTo_cases (if l.maxSize.isNull then .nat usualSize else l.maxSize) ">").imp ?_ ?_
    · intro h n
      obtain ⟨o, ho⟩ := h n
      exact ⟨o == some .gt, by rw [exceeds, ho]; rfl⟩
    · intro h n
      obtain ⟨e, he⟩ := h n
      exact ⟨e, by rw [exceeds, he]; rfl⟩
  rcases hwants with hwants | hwants
  · rcases hexceeds with hexceeds | hexceeds
    · refine .inl fun path size? => ?_
      obtain ⟨b, hb⟩ := hwants (Path.extension path)
      unfold admits
      rw [hb, Loose.ok_bind]
      cases b with
      | false => exact ⟨false, rfl⟩
      | true =>
        cases size? with
        | none => exact ⟨false, rfl⟩
        | some n =>
          obtain ⟨b, hb⟩ := hexceeds n
          exact ⟨!b, by rw [if_pos rfl]; simp only [hb]; rfl⟩
    · refine .inr fun path size? => ?_
      obtain ⟨b, hb⟩ := hwants (Path.extension path)
      unfold admits
      rw [hb, Loose.ok_bind]
      cases b with
      | false => simp [pure, Except.pure]
      | true =>
        cases size? with
        | none => simp [pure, Except.pure]
        | some n =>
          obtain ⟨e, he⟩ := hexceeds n
          simp only [he]
          intro h
          cases h
  · refine .inr fun path size? => ?_
    obtain ⟨e, he⟩ := hwants (Path.extension path)
    unfold admits
    rw [he]
    intro h
    cases h

/-! ### The search -/

def Limits.IsLimitedTo (l : Limits) (n : Int) : Prop := ∃ a, l.maxFiles = .atom a ∧ a.number? = some (.inl n)

theorem Limits.isReached_eq (h : l.IsLimitedTo n) (k : Nat) : l.isReached k = .ok (decide (n ≤ k)) := by
  obtain ⟨a, ha, hn⟩ := h
  have hcompare : compareTo k l.maxFiles ">=" = .ok (some (compare (k : Int) n)) := by
    simp only [compareTo, ha, hn]
    rfl
  rw [isReached, hcompare, Loose.ok_bind]
  refine congrArg Except.ok ?_
  rcases Int.lt_trichotomy (k : Int) n with hlt | heq | hgt
  · rw [Int.compare_eq_lt.mpr hlt, decide_eq_false (by omega)]
    rfl
  · rw [Int.compare_eq_eq.mpr heq, decide_eq_true (by omega)]
    rfl
  · rw [Int.compare_eq_gt.mpr hgt, decide_eq_true (by omega)]
    rfl

/-- **A search finds the first files that it takes, as many as it may.** -/
theorem collect_eq (h : l.IsLimitedTo n) (found : List String) (cs : List Candidate) :
    collect l found cs = found ++ ((cs.filter l.takes).map (·.path)).take (n.toNat - found.length) := by
  induction cs generalizing found with
  | nil => simp [collect]
  | cons c cs ih =>
    rw [collect, l.isReached_eq h]
    by_cases hreached : n ≤ found.length
    · have hnone : n.toNat - found.length = 0 := by omega
      rw [decide_eq_true hreached, hnone, take_zero, append_nil]
    · rw [decide_eq_false hreached]
      dsimp only
      cases hskip : Skip.file c.name with
      | true =>
        have htakes : l.takes c = false := by simp [Limits.takes, hskip]
        rw [if_pos rfl, ih, filter_cons_of_neg (by simp [htakes])]
      | false =>
        rw [if_neg Bool.false_ne_true]
        split
        next hadmits =>
          have htakes : l.takes c := Limits.takes_iff.mpr ⟨hskip, hadmits⟩
          have hleft : n.toNat - found.length = (n.toNat - (found ++ [c.path]).length) + 1 := by
            rw [length_append, length_singleton]
            omega
          rw [ih, filter_cons_of_pos htakes, map_cons, hleft, take_succ_cons, append_assoc]
          rfl
        next hadmits =>
          have htakes : l.takes c = false := by
            rw [← Bool.not_eq_true, Limits.takes_iff, hadmits]
            simp
          rw [ih, filter_cons_of_neg (by simp [htakes])]
        next e hadmits =>
          -- a limit that cannot be applied here can be applied nowhere, and nothing is taken
          rcases l.admits_cases with hall | hnone
          · obtain ⟨b, hb⟩ := hall c.path c.size?
            cases hb.symm.trans hadmits
          · have hnil : (c :: cs).filter l.takes = [] := by
              refine filter_eq_nil_iff.mpr fun d _ hd => ?_
              exact hnone d.path d.size? (Limits.takes_iff.mp hd).2
            rw [hnil, map_nil, take_nil, append_nil]

/-! ### The files of a tree -/

def candidateAt (root : Entry) (names : List String) : Candidate :=
  ⟨Text.join "/" names, names.getLastD "", (root.fileAt? names).map FileContent.size⟩

theorem candidates_eq (hroot : root.IsProper) (keep : String → Bool) :
    candidates "" (root.visits keep "") = (Entry.met (root.visits keep "")).map (candidateAt root) := by
  have hvisits : root.visits keep "" = Entry.visitsFrom root keep [] [] root := rfl
  rw [hvisits, candidates, Entry.met, map_flatMap]
  refine flatMap_congr fun v hv => ?_
  obtain ⟨rest, es, hat, _, rfl⟩ := (Entry.mem_visitsFrom_iff root keep [] hroot).mp hv
  obtain ⟨hfolder, hrest⟩ := hroot.of_at? hat
  cases hfolder with
  | folder _ hnames hdistinct hinner =>
    simp only [Entry.Visit.paths, Entry.visit, map_map, nil_append]
    refine map_congr_left fun e he => ?_
    have hmem : e ∈ es := (mem_filter.mp he).1
    have hproper : ∀ n ∈ rest ++ [e.1], Path.IsProper n := by
      intro n hn
      rcases mem_append.mp hn with hn | hn
      · exact hrest n hn
      · rw [mem_singleton.mp hn]
        exact hnames e hmem
    have hfound : root.at? (rest ++ [e.1]) = some e.2 := by
      have hlookup : es.lookup e.1 = some e.2 := (Entry.lookup_eq_some_iff hdistinct).mpr hmem
      rw [Entry.at?_append, hat, Option.bind_some, Entry.at?_singleton, Entry.entries, hlookup]
    have hsize : Entry.seenSize? root rest e.2 = (root.fileAt? (rest ++ [e.1])).map FileContent.size := by
      rw [Entry.seenSize?_eq, Entry.fileAt?, hfound, dropLast_concat, Option.bind_some]
    have hlast : (rest ++ [e.1]).getLastD "" = e.1 := by simp
    simp only [Function.comp_apply, candidateAt, Path.foldl_join hproper, hsize, hlast]

/-- The names that lead to the files of a tree that are taken, in the order of a walk. -/
def taken (root : Entry) (l : Limits) : List (List String) :=
  (Entry.met (root.visits (fun n => !Skip.folder n) "")).filter fun p => l.takes (candidateAt root p)

theorem taken_pairwise (hroot : root.IsProper) (l : Limits) : (taken root l).Pairwise root.walksBefore :=
  (Entry.met_pairwise root _ [] hroot).filter _

theorem Limits.not_takes_of_none (h : c.size? = none) : l.takes c = false := by
  rw [← Bool.not_eq_true, takes_iff, h]
  rintro ⟨_, hadmits⟩
  obtain ⟨b, _, hb⟩ := Loose.of_bind hadmits
  cases b <;> cases hb

/-- **Which files are taken**: those below folders that are not skipped, whose name is not skipped, with an ending that
is looked for and a size that is not too large. -/
theorem mem_taken_iff (hroot : root.IsProper) (l : Limits) {p : List String} :
    p ∈ taken root l ↔ p ≠ [] ∧ (∀ n ∈ p.dropLast, Skip.folder n = false) ∧
      ∃ c, root.fileAt? p = some c ∧ l.takes ⟨Text.join "/" p, p.getLastD "", some c.size⟩ := by
  have hvisits :
      root.visits (fun n => !Skip.folder n) "" = Entry.visitsFrom root (fun n => !Skip.folder n) [] [] root := rfl
  rw [taken, mem_filter, hvisits, Entry.mem_met_iff root _ [] hroot]
  constructor
  · rintro ⟨⟨rest, n, f, rfl, hat, hkeep, hseen⟩, htakes⟩
    refine ⟨by simp, fun m hm => ?_, ?_⟩
    · rw [nil_append, dropLast_concat] at hm
      simpa using hkeep m hm
    · cases hfile : root.fileAt? ([] ++ (rest ++ [n])) with
      | none =>
        rw [Limits.not_takes_of_none (by rw [candidateAt, hfile]; rfl)] at htakes
        cases htakes
      | some c =>
        rw [candidateAt, hfile] at htakes
        exact ⟨c, rfl, htakes⟩
  · rintro ⟨hne, hkeep, c, hfile, htakes⟩
    obtain ⟨rest, n, rfl⟩ := (eq_nil_or_concat p).resolve_left hne
    rw [concat_eq_append] at *
    obtain ⟨f, hf, hcontent⟩ := Option.bind_eq_some_iff.mp hfile
    obtain ⟨g, hg, hseen⟩ := Option.bind_eq_some_iff.mp hf
    rw [dropLast_concat] at hkeep hseen
    refine ⟨⟨rest, n, g, rfl, hg, fun m hm => by simp [hkeep m hm], ?_⟩, ?_⟩
    · refine Entry.not_seenAsFolder (c := c) ?_
      rw [nil_append, nil_append, hseen, Option.bind_some, hcontent]
    · rw [candidateAt, hfile]
      exact htakes

/-- **The source files below the root of a tree.** -/
theorem find_eq (hroot : root.IsProper) (h : l.IsLimitedTo n) :
    find root "" l = ((taken root l).take n.toNat).map (Text.join "/") := by
  rw [find, collect_eq h, nil_append, candidates_eq hroot, filter_map, map_map, ← map_take, taken]
  rfl

/-! ### Searches for endings -/

/-- A search for some endings, up to a size and a number of files; an absent size stands for the usual one. -/
def Limits.ofEndings (endings : List String) (size? : Option Int) (count : Nat) : Limits :=
  { extensions := .texts endings, maxFiles := .nat count, maxSize := (size?.map .int).getD .null }

variable {endings : List String} {size? : Option Int} {count : Nat}

theorem Limits.wants_ofEndings (hne : endings ≠ []) (e : String) :
    (ofEndings endings size? count).wants e = .ok (decide (e ∈ endings)) := by
  have hlist : (Value.texts endings).orElse (.texts (Discovery.extensions.map (·.1))) = .texts endings := by
    cases endings with
    | nil => exact absurd rfl hne
    | cons => rfl
  rw [wants, ofEndings, hlist, Value.texts, Value.holdsText, any_map]
  refine congrArg Except.ok (Bool.eq_iff_iff.mpr ?_)
  rw [any_eq_true, decide_eq_true_eq]
  constructor
  · rintro ⟨t, ht, hsame⟩
    rwa [← beq_iff_eq.mp hsame]
  · exact fun he => ⟨e, he, beq_self_eq_true e⟩

theorem Limits.exceeds_ofEndings (size : Nat) :
    (ofEndings endings size? count).exceeds size = .ok (decide (size?.getD usualSize < (size : Int))) := by
  have hcompare : ∀ k : Int, ((some (compare (size : Int) k)) == some .gt) = decide (k < (size : Int)) := by
    intro k
    rw [Bool.eq_iff_iff, beq_iff_eq, Option.some.injEq, Int.compare_eq_gt, decide_eq_true_eq]
  cases size? with
  | none => exact congrArg Except.ok (hcompare usualSize)
  | some k => exact congrArg Except.ok (hcompare k)

theorem Limits.takes_ofEndings_iff (hne : endings ≠ []) {path name : String} {size : Nat} :
    (ofEndings endings size? count).takes ⟨path, name, some size⟩ ↔
      Skip.file name = false ∧ Path.extension path ∈ endings ∧ (size : Int) ≤ size?.getD usualSize := by
  rw [takes_iff, admits, wants_ofEndings hne, Loose.ok_bind]
  refine and_congr_right fun _ => ?_
  by_cases hending : Path.extension path ∈ endings
  · simp only [hending, decide_true, if_true, exceeds_ofEndings, Loose.ok_bind, Loose.pure_ok_iff, true_and]
    rw [Bool.not_eq_true', decide_eq_false_iff_not, Int.not_lt]
  · simp [hending, Loose.pure_ok_iff]

/-- **A search finds the first files that are looked for, as many as it may**: in the order of a walk, those below
folders that are not skipped whose own name is not skipped, with one of the endings and not too large.  The order of a
walk is that in which folders list their names; it ascends where the listings do.  A folder that is only linked is not
walked through.  To allow more files only adds files at the end. -/
theorem find_eq_first_files (root : Entry) (hroot : root.IsProper) (endings : List String) (hne : endings ≠ [])
    (size? : Option Int) : ∃ files : List (List String), files.Pairwise root.walksBefore ∧
      (root.IsAscending → files.Pairwise Entry.namesBefore) ∧
      (∀ p, p ∈ files ↔ p ≠ [] ∧ (∀ n ∈ p.dropLast, Skip.folder n = false) ∧ ∃ content, root.fileAt? p = some content ∧
        Skip.file (p.getLastD "") = false ∧ Path.extension (Text.join "/" p) ∈ endings ∧
        (content.size : Int) ≤ size?.getD usualSize) ∧
      (∀ count, find root "" (.ofEndings endings size? count) = (files.take count).map (Text.join "/")) ∧
      ∀ count more, count ≤ more →
        find root "" (.ofEndings endings size? count) <+: find root "" (.ofEndings endings size? more) := by
  have hfind : ∀ count, find root "" (.ofEndings endings size? count) =
      ((taken root (.ofEndings endings size? 0)).take count).map (Text.join "/") := by
    intro count
    -- what is taken does not depend on the number of files that may be found
    have hsame : taken root (.ofEndings endings size? count) = taken root (.ofEndings endings size? 0) := rfl
    rw [find_eq hroot ⟨_, rfl, rfl⟩, hsame]
    rfl
  have hordered := taken_pairwise hroot (.ofEndings endings size? 0)
  refine ⟨_, hordered, fun h => hordered.imp h.namesBefore, fun p => ?_, hfind, fun count more hle => ?_⟩
  · rw [mem_taken_iff hroot]
    simp only [Limits.takes_ofEndings_iff hne]
  · rw [hfind, hfind]
    exact (take_prefix_take_left hle).map _

/-- A module, a folder of two others one of which is large, a folder that is skipped and a file that is; the names are
listed in no particular order. -/
def nestedFiles : Entry := .folder [("setup.py", .file (.text "y")), ("build", .folder [("gen.py", .file (.text ""))]),
  ("app", .folder [("big.py", .file (.filler 9)), ("Main.PY", .file (.text "x"))]), ("x.min.js", .file (.text "")),
  ("main.js", .file (.text ""))]

theorem find_eq_first_files_nested :
    find nestedFiles "" (.ofEndings [".py", ".js"] (some 4) 2) = ["setup.py", "main.js"] ∧
    find nestedFiles "" (.ofEndings [".py", ".js"] (some 4) 9) = ["setup.py", "main.js", "app/Main.PY"] ∧
    nestedFiles.IsProper ∧ ∃ files : List (List String), files.Pairwise nestedFiles.walksBefore ∧
      ["app", "Main.PY"] ∈ files ∧ ["app", "big.py"] ∉ files ∧ ["build", "gen.py"] ∉ files ∧
      find nestedFiles "" (.ofEndings [".py", ".js"] (some 4) 9) = (files.take 9).map (Text.join "/") := by
  have hproper : nestedFiles.IsProper := by
    refine .folder _ (by decide) (by decide) ?_
    simp only [forall_mem_cons, not_mem_nil, false_imp_iff, implies_true, and_true]
    refine ⟨.file _, .folder _ (by decide) (by decide) ?_, .folder _ (by decide) (by decide) ?_, .file _, .file _⟩
    · simp [Entry.IsProper.file]
    · simp [Entry.IsProper.file]
  obtain ⟨files, hordered, _, hmem, hfind, _⟩ :=
    find_eq_first_files nestedFiles hproper [".py", ".js"] (by decide) (some 4)
  refine ⟨by decide +kernel, by decide +kernel, hproper, files, hordered, (hmem _).mpr ?_, fun h => ?_,
    fun h => ?_, hfind 9⟩
  · exact ⟨by decide, by decide, _, rfl, by decide +kernel, by decide +kernel, by decide⟩
  · obtain ⟨_, _, content, hfile, _, _, hsize⟩ := (hmem _).mp h
    cases hfile
    revert hsize
    decide
  · exact absurd ((hmem _).mp h).2.1 (by decide)

/-- Two files that are listed with the later name first, and a folder that is reached by a link too. -/
def oddFolders : Entry := .folder [("b.py", .file (.text "")), ("a.py", .file (.text "")),
  ("real", .folder [("c.py", .file (.text ""))]), ("link", .link "real")]

/-- What is found first need not have the first name, and what stands below a linked folder is found once. -/
theorem find_in_order_of_listing : oddFolders.isFolderAt "link" = true ∧
    (oddFolders.find? "link/c.py").bind Entry.content? ≠ none ∧
    find oddFolders "" (.ofEndings [".py"] none 1) = ["b.py"] ∧
    find oddFolders "" (.ofEndings [".py"] none 9) = ["b.py", "a.py", "real/c.py"] := by
  refine ⟨by decide +kernel,
    by simp [show oddFolders.find? "link/c.py" = some (.file (.text "")) from rfl, Entry.content?],
    by decide +kernel, by decide +kernel⟩

end Discovery

namespace Survey

def sourceAt (root : Entry) (names : List String) : SourceFile :=
  ⟨Text.join "/" names, (root.fileAt? names).map FileContent.read⟩

def searchLimits (maxFiles maxBytes : Value) : Discovery.Limits := { maxFiles, maxSize := maxBytes }

/-- **The source files of a repository are those at the end of the names that are taken**, as many as there may be. -/
theorem found_eq {root : Entry} (hroot : root.IsProper) {maxFiles : Value} (maxBytes : Value) {n : Int}
    (h : (searchLimits maxFiles maxBytes).IsLimitedTo n) :
    found root maxFiles maxBytes =
      ((Discovery.taken root (searchLimits maxFiles maxBytes)).take n.toNat).map (sourceAt root) := by
  have hfind := Discovery.find_eq hroot h
  rw [searchLimits] at hfind
  rw [found, hfind, map_map]
  refine map_congr_left fun p hp => ?_
  obtain ⟨hne, _, c, hfile, _⟩ := (Discovery.mem_taken_iff hroot _).mp (take_subset _ _ hp)
  obtain ⟨f, hf, hcontent⟩ := Option.bind_eq_some_iff.mp hfile
  obtain ⟨g, hg, hseen⟩ := Option.bind_eq_some_iff.mp hf
  rw [Function.comp_apply, Entry.find?_join hroot hne hg, hseen, sourceAt, hfile]
  cases f with
  | file d => cases hcontent; rfl
  | folder | link => cases hcontent

end Survey

end CodeAtlas
