import CodeAtlas.Proofs.Analysis.Outcome

/-!
# Surveys and the order in which files are read

Files are read by workers, and a survey is put together from their reports in the order in which these are delivered.
What it lists and counts does not depend on the order, and neither do the relations that files declare.  What is
inferred may: for the fields of classes with the same name the last one counts, and for whether they are abstract the
first one.

* **`Survey.ofReports_order_iff`**: the relations of a survey do not depend on the order if and only if that is so.
-/

namespace CodeAtlas

open List

namespace Survey

open Register ClassEntry

/-! ### The class that comes first -/

section

variable (order : List Language) (pick : FileReport → Option ClassEntry)

/-- The first class that is picked from reports, language by language. -/
def firstBy (rs : List FileReport) : Option ClassEntry :=
  order.findSome? fun l => (rs.filter fun r => decide (r.language = l)).findSome? pick

/-- A class is picked from a report, and none from the reports of a language that comes earlier. -/
structure Leads (rs : List FileReport) (r : FileReport) : Prop where
  mem : r ∈ rs
  found : pick r ≠ none
  first : ∃ before after, order = before ++ r.language :: after ∧ ∀ s ∈ rs, s.language ∈ before → pick s = none

/-- What is asked of the class that comes first has the same answer for all leading reports. -/
def Agree (Q : ClassEntry → Prop) (rs : List FileReport) : Prop :=
  ∀ r s, Leads order pick rs r → Leads order pick rs s → ∀ d e, pick r = some d → pick s = some e → Q d → Q e

variable {order pick} {rs rs' : List FileReport} {r : FileReport} {e : ClassEntry}

theorem Leads.of_perm (h : rs'.Perm rs) (hleads : Leads order pick rs r) : Leads order pick rs' r := by
  obtain ⟨hmem, hfound, before, after, horder, hnone⟩ := hleads
  exact ⟨h.mem_iff.mpr hmem, hfound, before, after, horder, fun s hs => hnone s (h.mem_iff.mp hs)⟩

theorem exists_leads_of_firstBy (h : firstBy order pick rs = some e) :
    ∃ r, Leads order pick rs r ∧ pick r = some e := by
  obtain ⟨before, l, after, horder, hl, hnone⟩ := findSome?_eq_some_iff.mp h
  obtain ⟨r, hr, hpick⟩ := exists_of_findSome?_eq_some hl
  obtain ⟨hmem, hlanguage⟩ := mem_filter.mp hr
  obtain rfl : r.language = l := by simpa using hlanguage
  refine ⟨r, ⟨hmem, by simp [hpick], before, after, horder, fun s hs hbefore => ?_⟩, hpick⟩
  exact findSome?_eq_none_iff.mp (hnone _ hbefore) s (mem_filter.mpr ⟨hs, by simp⟩)

theorem firstBy_cons_of_leads (h : Leads order pick (r :: rs) r) : firstBy order pick (r :: rs) = pick r := by
  obtain ⟨_, hfound, before, after, horder, hnone⟩ := h
  obtain ⟨e, he⟩ := Option.ne_none_iff_exists'.mp hfound
  rw [he, firstBy, findSome?_eq_some_iff]
  refine ⟨before, r.language, after, horder, ?_, fun l hl => ?_⟩
  · rw [filter_cons_of_pos (by simp), findSome?_cons, he]
  · refine findSome?_eq_none_iff.mpr fun s hs => ?_
    obtain ⟨hmem, hlanguage⟩ := mem_filter.mp hs
    exact hnone s hmem (by rwa [decide_eq_true_iff.mp hlanguage])

theorem Leads.exists_perm (h : Leads order pick rs r) :
    ∃ rs', rs'.Perm rs ∧ firstBy order pick rs' = pick r := by
  obtain ⟨before, after, rfl⟩ := append_of_mem h.mem
  have hperm : (r :: (before ++ after)).Perm (before ++ r :: after) := perm_middle.symm
  exact ⟨_, hperm, firstBy_cons_of_leads (h.of_perm hperm)⟩

theorem Leads.firstBy_ne_none (h : Leads order pick rs r) : firstBy order pick rs ≠ none := by
  obtain ⟨hmem, hfound, before, after, horder, _⟩ := h
  intro hnone
  have hl := findSome?_eq_none_iff.mp hnone r.language (by simp [horder])
  exact hfound (findSome?_eq_none_iff.mp hl r (mem_filter.mpr ⟨hmem, by simp⟩))

/-- **What is asked of the first class does not depend on the order if and only if the leading reports agree on it.** -/
theorem firstBy_order_iff (Q : ClassEntry → Prop) :
    (∀ rs', rs'.Perm rs →
      ((∃ e, firstBy order pick rs' = some e ∧ Q e) ↔ ∃ e, firstBy order pick rs = some e ∧ Q e)) ↔
      Agree order pick Q rs := by
  constructor
  · intro h r s hr hs d e hd he hQ
    obtain ⟨rs₁, hperm₁, hfirst₁⟩ := hr.exists_perm
    obtain ⟨rs₂, hperm₂, hfirst₂⟩ := hs.exists_perm
    obtain ⟨c, hc, hQc⟩ := (h rs₂ hperm₂).mpr ((h rs₁ hperm₁).mp ⟨d, hfirst₁.trans hd, hQ⟩)
    cases hc.symm.trans (hfirst₂.trans he)
    exact hQc
  · intro h
    have hall : ∀ rs₁ rs₂ : List FileReport, rs₁.Perm rs → rs₂.Perm rs →
        (∃ e, firstBy order pick rs₁ = some e ∧ Q e) → ∃ e, firstBy order pick rs₂ = some e ∧ Q e := by
      rintro rs₁ rs₂ hperm₁ hperm₂ ⟨d, hd, hQ⟩
      obtain ⟨r, hr, hpick⟩ := exists_leads_of_firstBy hd
      have hr₀ := hr.of_perm hperm₁.symm
      obtain ⟨e, he⟩ := Option.ne_none_iff_exists'.mp (hr₀.of_perm hperm₂).firstBy_ne_none
      obtain ⟨s, hs, hpick'⟩ := exists_leads_of_firstBy he
      exact ⟨e, he, h r s hr₀ (hs.of_perm hperm₂.symm) d e hpick hpick' hQ⟩
    exact fun rs' hperm => ⟨hall rs' rs hperm (.refl rs), hall rs rs' (.refl rs) hperm⟩

theorem Agree.of_perm {Q : ClassEntry → Prop} (h : rs'.Perm rs) (hagree : Agree order pick Q rs) :
    Agree order pick Q rs' := fun r s hr hs => hagree r s (hr.of_perm h.symm) (hs.of_perm h.symm)

end

/-! ### First and last classes of a name -/

section

variable (a : String) (rs : List FileReport) (Q : ClassEntry → Prop)

theorem firstNamed?_entries :
    firstNamed? a (entries rs) = firstBy Language.all (fun r => firstNamed? a r.classes) rs := by
  simp only [firstNamed?, entries, firstBy, find?_flatMap]

theorem lastNamed?_entries :
    lastNamed? a (entries rs) = firstBy Language.all.reverse (fun r => lastNamed? a r.classes) rs.reverse := by
  simp only [lastNamed?, firstNamed?, entries, firstBy, reverse_flatMap, find?_flatMap, filter_reverse,
    Function.comp_def]

theorem lastNamed?_order_iff {rs : List FileReport} : (∀ rs', rs'.Perm rs →
      ((∃ e, lastNamed? a (entries rs') = some e ∧ Q e) ↔ ∃ e, lastNamed? a (entries rs) = some e ∧ Q e)) ↔
      Agree Language.all.reverse (fun r => lastNamed? a r.classes) Q rs := by
  simp only [lastNamed?_entries]
  constructor
  · intro h
    refine Agree.of_perm rs.reverse_perm.symm ((firstBy_order_iff Q).mp fun rs' hperm => ?_)
    have h' := h rs'.reverse (rs'.reverse_perm.trans (hperm.trans rs.reverse_perm))
    rwa [reverse_reverse] at h'
  · intro h rs' hperm
    refine (firstBy_order_iff Q).mpr (h.of_perm rs.reverse_perm) rs'.reverse ?_
    exact rs'.reverse_perm.trans (hperm.trans rs.reverse_perm.symm)

theorem firstNamed?_order_iff {rs : List FileReport} : (∀ rs', rs'.Perm rs →
      ((∃ e, firstNamed? a (entries rs') = some e ∧ Q e) ↔ ∃ e, firstNamed? a (entries rs) = some e ∧ Q e)) ↔
      Agree Language.all (fun r => firstNamed? a r.classes) Q rs := by
  simp only [firstNamed?_entries]
  exact firstBy_order_iff Q

end

/-! ### Reports in another order -/

section

variable {rs rs' : List FileReport}

theorem entries_perm (h : rs'.Perm rs) : (entries rs').Perm (entries rs) :=
  List.Perm.flatMap_left _ fun _ _ => (h.filter _).flatMap_right _

theorem classesUnder_perm (h : rs'.Perm rs) (heading : String) :
    (classesUnder rs' heading).Perm (classesUnder rs heading) := ((h.filter _).flatMap_right _).map _

theorem classCount_of_perm (h : rs'.Perm rs) : classCount rs' = classCount rs := by
  have hnames := (((h.flatMap_right (·.classes)).map (·.name)).filter (· != ""))
  rw [classCount, classCount, Text.ascendingSet, Text.ascendingSet, Text.ascending_of_perm hnames]

theorem mem_names_iff (h : rs'.Perm rs) {a : String} :
    a ∈ (entries rs').map (·.name) ↔ a ∈ (entries rs).map (·.name) := ((entries_perm h).map _).mem_iff

theorem declares_iff (h : rs'.Perm rs) {a b : String} {k : RelationKind} :
    Declares (entries rs') (rs'.flatMap (·.relations)) a b k ↔
      Declares (entries rs) (rs.flatMap (·.relations)) a b k := by
  simp only [Declares, mem_names_iff h, (h.flatMap_right (·.relations)).mem_iff]

end

/-- No two reports disagree on what is inferred: of a name that is in several reports, those that may come last agree on
the fields that make compositions which are not declared, and those that may come first agree on whether the class is
abstract, where that makes an implementation which is not declared. -/
structure Settled (rs : List FileReport) : Prop where
  fields : ∀ a b, b ∈ (entries rs).map (·.name) → b ≠ a →
    ¬ Declares (entries rs) (rs.flatMap (·.relations)) a b .composition →
    Agree Language.all.reverse (fun r => lastNamed? a r.classes) (fun e => b ∈ e.fieldTypes) rs
  bases : ∀ a b, Declares (entries rs) (rs.flatMap (·.relations)) a b .extends →
    (∃ e ∈ entries rs, e.name = b ∧ e.isAbstract = false) →
    ¬ Declares (entries rs) (rs.flatMap (·.relations)) a b .implements →
    Agree Language.all (fun r => firstNamed? a r.classes) (fun e => e.isAbstract = true) rs

theorem related_order_iff (rs : List FileReport) :
    (∀ rs', rs'.Perm rs → ∀ a b k, Related rs' a b k ↔ Related rs a b k) ↔ Settled rs := by
  constructor
  · intro h
    refine ⟨fun a b hb hne hnot => ?_, fun a b hextends hconcrete hnot => ?_⟩
    · refine (lastNamed?_order_iff a _).mp fun rs' hperm => ?_
      have hsame := h rs' hperm a b .composition
      simp only [Related, declares_iff hperm, hnot, Holds, mem_names_iff hperm, hb, ne_eq, hne] at hsame
      simpa using hsame
    · refine (firstNamed?_order_iff a _).mp fun rs' hperm => ?_
      have hsame := h rs' hperm a b .implements
      simp only [Related, declares_iff hperm, hnot, Fulfils, hextends, (entries_perm hperm).mem_iff, hconcrete] at hsame
      simpa using hsame
  · intro h rs' hperm a b k
    rw [Related, Related, declares_iff hperm]
    by_cases hdeclares : Declares (entries rs) (rs.flatMap (·.relations)) a b k
    · exact iff_of_true (.inl hdeclares) (.inl hdeclares)
    refine or_congr_right (or_congr (and_congr_right ?_) (and_congr_right ?_))
    · rintro rfl
      rw [Holds, Holds, mem_names_iff hperm]
      refine and_congr_right fun hb => and_congr_right fun hne => ?_
      exact (lastNamed?_order_iff a _).mpr (h.fields a b hb hne hdeclares) rs' hperm
    · rintro rfl
      simp only [Fulfils, declares_iff hperm, (entries_perm hperm).mem_iff]
      refine and_congr_right fun hextends => and_congr_right fun hconcrete => ?_
      exact (firstNamed?_order_iff a _).mpr (h.bases a b hextends hconcrete hdeclares) rs' hperm

def Apart (r s : FileReport) : Prop := ∀ d ∈ r.classes, ∀ e ∈ s.classes, d.name ≠ e.name

variable {rs : List FileReport} {a : String} {results : List (Option FileReport)}

theorem name_of_firstNamed? {es : List ClassEntry} {e : ClassEntry} (h : firstNamed? a es = some e) :
    e ∈ es ∧ e.name = a := ⟨mem_of_find?_eq_some h, by simpa using find?_some h⟩

theorem agree_of_apart {order : List Language} {pick : FileReport → Option ClassEntry} {Q : ClassEntry → Prop}
    (hpick : ∀ r e, pick r = some e → e ∈ r.classes ∧ e.name = a) (h : rs.Pairwise Apart) : Agree order pick Q rs := by
  intro r s hr hs d e hd he hQ
  obtain ⟨hdmem, hdname⟩ := hpick r d hd
  obtain ⟨hemem, hename⟩ := hpick s e he
  have hsymm : Std.Symm Apart := ⟨fun r s h d hd e he heq => h e he d hd heq.symm⟩
  by_cases heq : r = s
  · subst heq
    cases hd.symm.trans he
    exact hQ
  · exact absurd (hdname.trans hename.symm) (h.forall hr.mem hs.mem heq d hdmem e hemem)

theorem settled_of_apart (h : rs.Pairwise Apart) : Settled rs where
  fields a b _ _ _ := by
    refine agree_of_apart (a := a) (fun r e he => ?_) h
    obtain ⟨hmem, hname⟩ := name_of_firstNamed? he
    exact ⟨mem_reverse.mp hmem, hname⟩
  bases a b _ _ _ := agree_of_apart (a := a) (fun r e he => name_of_firstNamed? he) h

/-! ### Results of reading files -/

/-- The reports that count among the results of reading files: a file may give none, or show no classes. -/
def counted (results : List (Option FileReport)) : List FileReport :=
  (results.filterMap id).filter fun r => !r.classes.isEmpty

/-- What comes of reading a file of a directory. -/
def result [Java.Parser] (directory : String) (f : SourceFile) : Option FileReport :=
  FileReport.ofFile? f.path (Discovery.package f.path directory) f.source

theorem reports_eq_counted [Java.Parser] (directory : String) (files : List SourceFile) :
    reports directory files = counted (files.map (result directory)) := by
  rw [reports, counted, filterMap_map, Function.id_comp]
  rfl

theorem counted_perm {results' : List (Option FileReport)} (h : results'.Perm results) :
    (counted results').Perm (counted results) := (h.filterMap id).filter _

theorem counted_append (results results' : List (Option FileReport)) :
    counted (results ++ results') = counted results ++ counted results' := by
  rw [counted, filterMap_append, filter_append]
  rfl

def counts (result : Option FileReport) : Bool := result.any fun r => !r.classes.isEmpty

theorem map_some_counted (results : List (Option FileReport)) : (counted results).map some = results.filter counts := by
  induction results with
  | nil => rfl
  | cons result results ih =>
    rw [← singleton_append, counted_append, map_append, ih, filter_append]
    congr 1
    cases result with
    | none => rfl
    | some r => cases h : r.classes.isEmpty <;> simp [counted, counts, h]

theorem exists_perm_of_counted
    (h : rs.Perm (counted results)) : ∃ results', results'.Perm results ∧ counted results' = rs := by
  refine ⟨rs.map some ++ results.filter (!counts ·), ?_, ?_⟩
  · have hperm : (rs.map some).Perm (results.filter counts) := map_some_counted results ▸ h.map some
    exact (hperm.append_right _).trans (filter_append_perm counts results)
  · have hrest : (counted (results.filter (!counts ·))).map some = [] := by
      rw [map_some_counted, filter_filter]
      simp
    have hrs : (counted (rs.map some)).map some = rs.map some := by
      rw [map_some_counted, filter_eq_self]
      intro result hresult
      obtain ⟨r, hr, rfl⟩ := mem_map.mp hresult
      exact (mem_filter.mp (h.mem_iff.mp hr)).2
    rw [counted_append, map_eq_nil_iff.mp hrest, append_nil]
    exact map_injective_iff.mpr (Option.some_injective _) hrs

/-- A survey that was made says that two classes are related. -/
def Tells (survey : Loose Value) (a b : String) (k : RelationKind) : Prop :=
  ∃ s vs, survey = .ok s ∧ s.get "relations" = .ok (.list vs) ∧ Shows vs a b k

/-- Two surveys that were made list the same classes under each heading, in some order, and count the same files and
classes; all of their relations join two classes by a kind. -/
def SameLists (survey survey' : Loose Value) : Prop :=
  ∃ s s', survey = .ok s ∧ survey' = .ok s' ∧
    (∀ heading ∈ headings, ∃ cs cs', s.get heading = .ok (.list cs) ∧ s'.get heading = .ok (.list cs') ∧ cs.Perm cs') ∧
    (∃ vs vs', s.get "relations" = .ok (.list vs) ∧ s'.get "relations" = .ok (.list vs') ∧
      ∀ v ∈ vs ++ vs', IsJoin v) ∧
    ∃ notes notes', s.get "meta" = .ok notes ∧ s'.get "meta" = .ok notes' ∧
      ∀ key ∈ ["files_scanned", "classes_found"], ∃ n : Nat,
        notes.get key = .ok (.nat n) ∧ notes'.get key = .ok (.nat n)

theorem sameLists_of_perm {rs' : List FileReport} (h : rs'.Perm rs) (files : List SourceFile) (groups : Record)
    (name : String) : SameLists (ofReports rs' files groups name .silent) (ofReports rs files groups name .silent) := by
  obtain ⟨s', hs', ⟨hclasses', ⟨vs', hvs', hjoin', _⟩, ⟨notes', hnotes', hfiles', hcount', _⟩⟩, _⟩ :=
    exists_ofReports rs' files groups name
  obtain ⟨s, hs, ⟨hclasses, ⟨vs, hvs, hjoin, _⟩, ⟨notes, hnotes, hfiles, hcount, _⟩⟩, _⟩ :=
    exists_ofReports rs files groups name
  refine ⟨s', s, hs', hs, fun heading hheading => ?_, ⟨vs', vs, hvs', hvs, fun v hv => ?_⟩,
    ⟨notes', notes, hnotes', hnotes, fun key hkey => ?_⟩⟩
  · exact ⟨_, _, hclasses' heading hheading, hclasses heading hheading, classesUnder_perm h heading⟩
  · exact (mem_append.mp hv).elim (hjoin' v) (hjoin v)
  · simp only [mem_cons, not_mem_nil, or_false] at hkey
    rcases hkey with rfl | rfl
    · exact ⟨rs.length, h.length_eq ▸ hfiles', hfiles⟩
    · exact ⟨classCount rs, classCount_of_perm h ▸ hcount', hcount⟩

theorem IsSurveyOf.tells_iff {rs : List FileReport} {survey : Value} (h : IsSurveyOf rs survey) {a b : String}
    {k : RelationKind} : Tells (.ok survey) a b k ↔ Related rs a b k := by
  obtain ⟨vs, hvs, _, hshows⟩ := h.relations
  rw [← hshows]
  constructor
  · rintro ⟨s, ws, hs, hws, h⟩
    cases hs
    cases hvs.symm.trans hws
    exact h
  · exact fun h => ⟨survey, vs, rfl, hvs, h⟩

theorem tells_ofReports_iff (rs : List FileReport) (files : List SourceFile) (groups : Record) (name : String)
    {b : String} {k : RelationKind} :
    Tells (ofReports rs files groups name .silent) a b k ↔ Related rs a b k := by
  obtain ⟨s, hs, his, _⟩ := exists_ofReports rs files groups name
  rw [hs]
  exact his.tells_iff

/-- **Surveys and the order in which files are read.**  Whatever the results of reading files are, and in whatever order
they come: the survey is made, lists the same classes under each heading and counts the same files and classes.  And its
relations join the same classes by the same kinds in every order if and only if no two reports disagree on what is
inferred, as is the case when no name is in two of them.  The survey of a repository is such a survey: of the results of
reading its files, in the order of their delivery. -/
theorem ofReports_order_iff [Java.Parser] (results : List (Option FileReport)) (files : List SourceFile)
    (groups : Record) (name : String) :
    (∀ results', results'.Perm results → SameLists (ofReports (counted results') files groups name .silent)
      (ofReports (counted results) files groups name .silent)) ∧
    ((∀ results', results'.Perm results → ∀ a b k,
      Tells (ofReports (counted results') files groups name .silent) a b k ↔
        Tells (ofReports (counted results) files groups name .silent) a b k) ↔ Settled (counted results)) ∧
    ((counted results).Pairwise Apart → Settled (counted results)) ∧
    ∀ root limits read, filesRead root limits = .ok read → ∀ delivery : Reordering SourceFile, ∃ all groups,
      ofRepository root name limits .silent delivery =
        ofReports (counted ((delivery.order read).map (result ""))) all groups name .silent := by
  refine ⟨fun results' h => sameLists_of_perm (counted_perm h) files groups name, ?_, settled_of_apart, ?_⟩
  · simp only [tells_ofReports_iff]
    rw [← related_order_iff]
    constructor
    · intro h rs' hperm
      obtain ⟨results', hresults, rfl⟩ := exists_perm_of_counted hperm
      exact h results' hresults
    · exact fun h results' hresults => h _ (counted_perm hresults)
  · intro root limits read hread delivery
    rw [← reports_eq_counted]
    exact exists_ofRepository_eq hread name .silent delivery

def filledOrder : FileReport :=
  ⟨.python, [{ name := "Item", package := "main" }, { name := "Order", fields := ["item: Item"], package := "main" }],
    []⟩

def buyers : FileReport := ⟨.python, [{ name := "Buyer", fields := ["last: Order"], package := "main" }], []⟩

theorem ofReports_order_iff_buyers :
    (counted [some filledOrder, none, some buyers]).Pairwise Apart ∧
      SameLists (ofReports (counted [some buyers, none, some filledOrder]) [] [] "shop" .silent)
        (ofReports (counted [some filledOrder, none, some buyers]) [] [] "shop" .silent) ∧
      ∀ a b k, Tells (ofReports (counted [some buyers, none, some filledOrder]) [] [] "shop" .silent) a b k ↔
        Tells (ofReports (counted [some filledOrder, none, some buyers]) [] [] "shop" .silent) a b k := by
  obtain ⟨hlists, htells, hsettled, _⟩ := ofReports_order_iff [some filledOrder, none, some buyers] [] [] "shop"
  have hperm : [some buyers, none, some filledOrder].Perm [some filledOrder, none, some buyers] :=
    List.reverse_perm [some filledOrder, none, some buyers]
  have hnames : ∀ d ∈ filledOrder.classes, ∀ e ∈ buyers.classes, d.name ≠ e.name := by decide
  have hapart : (counted [some filledOrder, none, some buyers]).Pairwise Apart := List.pairwise_pair.mpr hnames
  exact ⟨hapart, hlists _ hperm, htells.mpr (hsettled hapart) _ hperm⟩

def plainOrder : FileReport := ⟨.python, [{ name := "Order", package := "main" }], []⟩

/-- Two files with a class of the same name: its composition is found only if the file that shows it is read last. -/
theorem relations_depend_on_order :
    (FileReport.ofFile? "a.py" "main" (some "class Item:\n    pass\nclass Order:\n    item: Item\n")).map
        (·.toValue.same filledOrder.toValue) = some true ∧
      (FileReport.ofFile? "b.py" "main" (some "class Order:\n    pass\n")).map
        (·.toValue.same plainOrder.toValue) = some true ∧
      [some plainOrder, some filledOrder].Perm [some filledOrder, some plainOrder] ∧
      Tells (ofReports (counted [some plainOrder, some filledOrder]) [] [] "shop" .silent) "Order" "Item"
        .composition ∧
      ¬ Tells (ofReports (counted [some filledOrder, some plainOrder]) [] [] "shop" .silent) "Order" "Item"
        .composition := by
  refine ⟨by decide +kernel, by decide +kernel, .swap .., ?_, ?_⟩
  · rw [tells_ofReports_iff]
    exact .inr (.inl ⟨rfl, by decide, by decide, _, rfl, by decide⟩)
  · rw [tells_ofReports_iff]
    rintro (⟨⟨r, hr, _⟩, _⟩ | ⟨_, _, _, e, he, hmem⟩ | ⟨hkind, _⟩)
    · cases hr
    · cases he
      cases hmem
    · cases hkind

end Survey

end CodeAtlas
