import CodeAtlas.Proofs.Repository.NormalPath
import CodeAtlas.Repository.Tree
import Mathlib.Data.List.Pairwise
import Mathlib.Data.List.Perm.Basic

/-!
# Walks through trees

A walk goes through the folders of a tree from the top down.  Which folders it comes to, and which files it meets there,
is said here by the names that lead to them; and that it meets the files in an order which depends only on how folders
list their names.  A folder may list them in any order: that a tree is proper says nothing about it.

* `Entry.IsProper`, `Entry.IsAscending`: names that can be told apart, and names that are listed in ascending order;
* **`Entry.mem_met_iff`**, **`Entry.exists_met`**: which files a walk meets, and in which order.
-/

namespace CodeAtlas

open List

namespace Path

instance (name : String) : Decidable (IsProper name) :=
  decidable_of_iff (name ≠ "" ∧ name ≠ "." ∧ name ≠ ".." ∧ '/' ∉ name.toList)
    ⟨fun h => ⟨h.1, h.2.1, h.2.2.1, h.2.2.2⟩, fun h => ⟨h.1, h.2, h.3, h.4⟩⟩

theorem no_slash_end {ns : List String} (h : ∀ n ∈ ns, IsProper n) : ¬ ['/'] <:+ (Text.join "/" ns).toList := by
  induction ns with
  | nil => simp [Text.join, Chars.join]
  | cons n ns ih =>
    rw [forall_mem_cons] at h
    have hlast : ∀ s : List Char, s ≠ [] → ¬ ['/'] <:+ s → ∀ t, ¬ ['/'] <:+ t ++ s := by
      rintro s hs hnot t ⟨r, hr⟩
      have hend : (t ++ s).getLast? = some '/' := by rw [← hr, getLast?_concat]
      rw [getLast?_append_of_ne_nil _ hs] at hend
      exact hnot (singleton_suffix_iff_getLast?_eq_some.mpr hend)
    cases ns with
    | nil =>
      rintro ⟨r, hr⟩
      have hjoin : (Text.join "/" [n]).toList = n.toList := by rw [Text.toList_join]; rfl
      rw [hjoin] at hr
      exact h.1.no_slash (hr ▸ mem_append_right r mem_cons_self)
    | cons m ns =>
      have hne : Text.join "/" (m :: ns) ≠ "" := by
        rw [ne_eq, (join_names_not_isAbsolute fun k hk => ⟨(h.2 k hk).ne_empty, (h.2 k hk).no_slash⟩).2]
        exact cons_ne_nil m ns
      rw [Text.join_cons_cons, String.toList_append]
      exact hlast _ (by simpa using hne) (ih h.2) _

theorem foldl_join {ns : List String} (h : ∀ n ∈ ns, IsProper n) : ns.foldl join "" = Text.join "/" ns := by
  induction ns using List.reverseRecOn with
  | nil => rfl
  | append_singleton ns n ih =>
    have hns : ∀ m ∈ ns, IsProper m := fun m hm => h m (mem_append_left _ hm)
    have hn : IsProper n := h n (mem_append_right _ mem_cons_self)
    have habsolute : isAbsolute n = false := by
      rw [← Bool.not_eq_true, isAbsolute_iff]
      exact fun hstart => hn.no_slash (hstart.subset mem_cons_self)
    have hempty := (join_names_not_isAbsolute fun k hk => ⟨(hns k hk).ne_empty, (hns k hk).no_slash⟩).2
    have hend := no_slash_end hns
    rw [foldl_concat, ih hns]
    rcases join_cases (Text.join "/" ns) habsolute with ⟨hnil, hjoin⟩ | ⟨c, hc, _⟩ | ⟨hne, _, hjoin⟩
    · rw [hjoin, hempty.mp hnil, ← String.toList_inj, Text.toList_join]
      rfl
    · rw [hc, String.toList_append] at hend
      exact absurd (suffix_append ..) hend
    · have hmap : ns.map String.toList ≠ [] := by simpa using fun hnil => hne (hempty.mpr hnil)
      rw [hjoin, ← String.toList_inj, Text.toList_join, map_append, Chars.join_append _ hmap (by simp),
        String.toList_append, String.toList_append, Text.toList_join]
      rfl

theorem names_join {ns : List String} (h : ∀ n ∈ ns, IsProper n) : names (Text.join "/" ns) = ns := by
  by_cases hne : ns = []
  · subst hne
    rfl
  · rw [names, Text.splitOn_join rfl hne fun n hn => (h n hn).no_slash, filter_eq_self]
    exact fun n hn => by simpa using (h n hn).ne_empty

end Path

namespace Entry

/-! ### Proper trees -/

/-- In every folder of a tree the names are proper and no two are the same. -/
inductive IsProper : Entry → Prop where
  | file (content : FileContent) : IsProper (.file content)
  | link (target : String) : IsProper (.link target)
  | folder (es : List (String × Entry)) (names : ∀ e ∈ es, Path.IsProper e.1)
      (distinct : es.Pairwise fun e f => e.1 ≠ f.1) (inner : ∀ e ∈ es, IsProper e.2) : IsProper (.folder es)

/-- In every folder of a tree the names are listed in ascending order. -/
inductive IsAscending : Entry → Prop where
  | file (content : FileContent) : IsAscending (.file content)
  | link (target : String) : IsAscending (.link target)
  | folder (es : List (String × Entry)) (ascending : es.Pairwise fun e f => e.1 < f.1)
      (inner : ∀ e ∈ es, IsAscending e.2) : IsAscending (.folder es)

variable {f root : Entry} {ns : List String}

theorem lookup_eq_some_iff {es : List (String × Entry)} (h : es.Pairwise fun e f => e.1 ≠ f.1) {n : String} :
    es.lookup n = some f ↔ (n, f) ∈ es := by
  induction es with
  | nil => simp
  | cons e es ih =>
    rw [pairwise_cons] at h
    rw [lookup_cons, mem_cons]
    by_cases hn : n = e.1
    · subst hn
      have hlater : (e.1, f) ∉ es := fun hmem => h.1 (e.1, f) hmem rfl
      simp [hlater, Prod.ext_iff, eq_comm]
    · have hfirst : (n, f) ≠ e := fun heq => hn (congrArg Prod.fst heq)
      have hbeq : (n == e.1) = false := beq_eq_false_iff_ne.mpr hn
      simp [hbeq, hfirst, ih h.2]

theorem at?_cons (e : Entry) (n : String) (ns : List String) :
    e.at? (n :: ns) = (e.entries.lookup n).bind (·.at? ns) := by
  rw [at?]
  cases e.entries.lookup n <;> rfl

theorem at?_append (e : Entry) (ms ns : List String) : e.at? (ms ++ ns) = (e.at? ms).bind (·.at? ns) := by
  induction ms generalizing e with
  | nil => rfl
  | cons m ms ih =>
    rw [cons_append, at?_cons, at?_cons, Option.bind_assoc]
    congr 1
    funext f
    exact ih f

theorem at?_singleton (e : Entry) (n : String) : e.at? [n] = e.entries.lookup n := by
  rw [at?_cons]
  exact Option.bind_fun_some _

theorem IsProper.of_at? {e : Entry} (h : e.IsProper) (hat : e.at? ns = some f) :
    f.IsProper ∧ ∀ n ∈ ns, Path.IsProper n := by
  induction ns generalizing e with
  | nil =>
    cases hat
    exact ⟨h, by simp⟩
  | cons n ns ih =>
    rw [at?_cons] at hat
    obtain ⟨g, hg, hrest⟩ := Option.bind_eq_some_iff.mp hat
    cases h with
    | file | link => cases hg
    | folder es hnames hdistinct hinner =>
      have hmem : (n, g) ∈ es := (lookup_eq_some_iff hdistinct).mp hg
      obtain ⟨hf, hns⟩ := ih (hinner _ hmem) hrest
      exact ⟨hf, forall_mem_cons.mpr ⟨hnames _ hmem, hns⟩⟩

/-! ### Files -/

def content? : Entry → Option FileContent
  | file c => some c
  | folder _ | link _ => none

/-- The file at the end of some names.  The last name may be that of a link; links before it are not followed. -/
def fileAt? (root : Entry) (names : List String) : Option FileContent :=
  ((root.at? names).bind (root.seen? names.dropLast)).bind content?

theorem seenSize?_eq (root : Entry) (here : List String) (e : Entry) :
    root.seenSize? here e = ((root.seen? here e).bind content?).map FileContent.size := by
  rw [seenSize?]
  cases root.seen? here e with
  | none => rfl
  | some f => cases f <;> rfl

theorem not_seenAsFolder {e : Entry} {here : List String} {c : FileContent}
    (h : (root.seen? here e).bind content? = some c) : root.seenAsFolder here e = false := by
  obtain ⟨f, hf, hc⟩ := Option.bind_eq_some_iff.mp h
  rw [seenAsFolder, hf]
  cases f with
  | file => rfl
  | folder | link => cases hc

theorem follow?_of_at? {e : Entry} (hne : ns ≠ []) (hns : ∀ n ∈ ns, Path.IsProper n)
    (here : List String) (hat : root.at? (here ++ ns) = some e) :
    (root.follow? maxLinks here ns).bind root.at? = root.seen? (here ++ ns).dropLast e := by
  induction ns generalizing here with
  | nil => exact absurd rfl hne
  | cons n ns ih =>
    rw [forall_mem_cons] at hns
    have hhere : (n == ".") = false := by simpa using hns.1.ne_here
    have hup : (n == "..") = false := by simpa using hns.1.ne_up
    cases ns with
    | nil =>
      rw [follow?, stride, hhere, hup, if_neg Bool.false_ne_true, if_neg Bool.false_ne_true, hat, dropLast_concat]
      cases e with
      | file | folder => exact hat
      | link target =>
        simp only [seen?, append_nil]
        split <;> rfl
    | cons m ns =>
      have hsplit : here ++ n :: m :: ns = (here ++ [n]) ++ m :: ns := by simp
      rw [hsplit] at hat
      have hbind := hat
      rw [at?_append] at hbind
      obtain ⟨g, hg, hrest⟩ := Option.bind_eq_some_iff.mp hbind
      -- something stands below the first name, so that no link does
      have hstride : stride root here (n :: m :: ns) = stride root (here ++ [n]) (m :: ns) := by
        rw [stride, hhere, hup, if_neg Bool.false_ne_true, if_neg Bool.false_ne_true, hg]
        cases g with
        | file | folder => rfl
        | link target => cases hrest
      have hfollow : root.follow? maxLinks here (n :: m :: ns) = root.follow? maxLinks (here ++ [n]) (m :: ns) := by
        rw [follow?, follow?, hstride]
      rw [hfollow, hsplit]
      exact ih (cons_ne_nil m ns) hns.2 (here ++ [n]) hat

theorem find?_join {e : Entry} (hroot : root.IsProper) (hne : ns ≠ []) (hat : root.at? ns = some e) :
    root.find? (Text.join "/" ns) = root.seen? ns.dropLast e := by
  have hns := (hroot.of_at? hat).2
  rw [find?, locate?, Path.names_join hns]
  exact follow?_of_at? hne hns [] hat

/-! ### The folders of a walk -/

section Folders

variable (root) (keep : String → Bool) (start : List String)

theorem mem_visitsIn_iff {es : List (String × Entry)} {here : List String} {v : Visit} :
    v ∈ visitsIn root keep start here es ↔
      ∃ e ∈ es, keep e.1 ∧ v ∈ visitsFrom root keep start (here ++ [e.1]) e.2 := by
  induction es with
  | nil => simp [visitsIn]
  | cons e es ih =>
    rw [visitsIn, mem_append, ih, exists_mem_cons_iff]
    by_cases hkeep : keep e.1 = true <;> simp [hkeep]

/-- **The folders that a walk comes to**: those at the end of names that are kept. -/
theorem mem_visitsFrom_iff {e : Entry} (h : e.IsProper) {here : List String} {v : Visit} :
    v ∈ visitsFrom root keep start here e ↔ ∃ rest es, e.at? rest = some (folder es) ∧
      (∀ n ∈ rest, keep n) ∧ v = visit root keep start (here ++ rest) es := by
  induction h generalizing here with
  | file content =>
    refine iff_of_false (by simp [visitsFrom]) ?_
    rintro ⟨rest, es, hat, _⟩
    cases rest <;> cases hat
  | link target =>
    refine iff_of_false (by simp [visitsFrom]) ?_
    rintro ⟨rest, es, hat, _⟩
    cases rest <;> cases hat
  | folder es hnames hdistinct hinner ih =>
    rw [visitsFrom, mem_cons, mem_visitsIn_iff]
    constructor
    · rintro (rfl | ⟨e, he, hkeep, hv⟩)
      · exact ⟨[], es, rfl, by simp, by rw [append_nil]⟩
      · obtain ⟨rest, fs, hat, hrest, rfl⟩ := (ih e he).mp hv
        refine ⟨e.1 :: rest, fs, ?_, forall_mem_cons.mpr ⟨hkeep, hrest⟩, by rw [append_assoc]; rfl⟩
        have hlookup : es.lookup e.1 = some e.2 := (lookup_eq_some_iff hdistinct).mpr he
        rw [at?_cons, entries, hlookup]
        exact hat
    · rintro ⟨rest, fs, hat, hkeep, rfl⟩
      cases rest with
      | nil =>
        cases hat
        exact .inl (by rw [append_nil])
      | cons n rest =>
        rw [at?_cons] at hat
        obtain ⟨g, hg, hrest⟩ := Option.bind_eq_some_iff.mp hat
        have hmem : (n, g) ∈ es := (lookup_eq_some_iff hdistinct).mp hg
        rw [forall_mem_cons] at hkeep
        refine .inr ⟨(n, g), hmem, hkeep.1, (ih _ hmem).mpr ⟨rest, fs, hrest, hkeep.2, ?_⟩⟩
        rw [append_assoc]
        rfl

end Folders

/-! ### The files of a walk -/

def Visit.paths (v : Visit) : List (List String) := v.files.map fun f => v.place ++ [f.1]

def met (vs : List Visit) : List (List String) := vs.flatMap Visit.paths

/-- A folder lists one name before another one. -/
def listsBefore (e : Entry) (a b : String) : Prop := [a, b] <+ e.entries.map Prod.fst

/-- The order in which a walk through a tree meets files: the files of a folder come before those of the folders in it,
and among files as among folders those that are listed first. -/
def walksBefore (e : Entry) : List String → List String → Prop
  | [], _ | _ :: _, [] => False
  | a :: p, b :: q => (p = [] ∧ (q = [] → e.listsBefore a b)) ∨
      (p ≠ [] ∧ q ≠ [] ∧ (e.listsBefore a b ∨ a = b ∧ ∃ f, e.at? [a] = some f ∧ f.walksBefore p q))

/-- The same order where names are listed in ascending order: it depends on the names only. -/
def namesBefore : List String → List String → Prop
  | [], _ | _ :: _, [] => False
  | a :: p, b :: q => (p = [] ∧ (q = [] → a < b)) ∨ (p ≠ [] ∧ q ≠ [] ∧ (a < b ∨ a = b ∧ namesBefore p q))

theorem IsProper.nodup_names {e : Entry} (h : e.IsProper) : (e.entries.map Prod.fst).Nodup := by
  cases h with
  | file | link => exact nodup_nil
  | folder es hnames hdistinct hinner => exact pairwise_map.mpr hdistinct

theorem IsProper.listsBefore_ne {e : Entry} (h : e.IsProper) {a b : String} (hab : e.listsBefore a b) : a ≠ b := by
  have hpair : [a, b].Nodup := hab.nodup h.nodup_names
  simpa using hpair

theorem IsProper.listsBefore_asymm {e : Entry} (h : e.IsProper) {a b : String} (hab : e.listsBefore a b) :
    ¬ e.listsBefore b a := by
  have hne := h.listsBefore_ne hab
  have hnames := h.nodup_names
  unfold listsBefore at hab ⊢
  generalize e.entries.map Prod.fst = ns at hab hnames ⊢
  induction ns with
  | nil => cases hab
  | cons n ns ih =>
    rw [nodup_cons] at hnames
    intro hba
    cases hab with
    | cons _ hab =>
      cases hba with
      | cons _ hba => exact ih hab hnames.2 hba
      | cons_cons _ hba => exact hnames.1 (hab.subset (by simp))
    | cons_cons _ hab =>
      cases hba with
      | cons _ hba => exact hnames.1 (hba.subset (by simp))
      | cons_cons _ hba => exact hne rfl

theorem IsProper.walksBefore_asymm {e : Entry} (h : e.IsProper) {p q : List String} (hpq : e.walksBefore p q) :
    ¬ e.walksBefore q p := by
  induction p generalizing e q with
  | nil => cases hpq
  | cons a p ih =>
    cases q with
    | nil => cases hpq
    | cons b q =>
      rcases hpq with ⟨rfl, hlists⟩ | ⟨hp, hq, hlists⟩
      · rintro (⟨rfl, hback⟩ | ⟨_, hnil, _⟩)
        · exact h.listsBefore_asymm (hlists rfl) (hback rfl)
        · exact hnil rfl
      · rintro (⟨hnil, _⟩ | ⟨_, _, hback⟩)
        · exact hq hnil
        · rcases hlists with hlists | ⟨rfl, f, hf, hpq⟩
          · rcases hback with hback | ⟨rfl, _⟩
            · exact h.listsBefore_asymm hlists hback
            · exact h.listsBefore_ne hlists rfl
          · rcases hback with hback | ⟨_, g, hg, hqp⟩
            · exact h.listsBefore_ne hback rfl
            · cases hf.symm.trans hg
              exact ih (h.of_at? hf).1 hpq hqp

theorem IsAscending.namesBefore {e : Entry} (h : e.IsAscending) {p q : List String} (hpq : e.walksBefore p q) :
    namesBefore p q := by
  induction p generalizing e q with
  | nil => cases hpq
  | cons a p ih =>
    cases q with
    | nil => cases hpq
    | cons b q =>
      have hlt : ∀ {a b}, e.listsBefore a b → a < b := by
        intro a b hab
        cases h with
        | file | link => cases hab
        | folder es hascending hinner => exact pairwise_iff_forall_sublist.mp (pairwise_map.mpr hascending) hab
      rcases hpq with ⟨hp, hlists⟩ | ⟨hp, hq, hlists | ⟨rfl, f, hf, hpq⟩⟩
      · exact .inl ⟨hp, fun hq => hlt (hlists hq)⟩
      · exact .inr ⟨hp, hq, .inl (hlt hlists)⟩
      · refine .inr ⟨hp, hq, .inr ⟨rfl, ih ?_ hpq⟩⟩
        rw [at?_singleton] at hf
        cases h with
        | file | link => cases hf
        | folder es hascending hinner =>
          have hdistinct : es.Pairwise fun e f => e.1 ≠ f.1 := hascending.imp String.ne_of_lt
          exact hinner _ ((lookup_eq_some_iff hdistinct).mp hf)

section Files

variable (root) (keep : String → Bool) (start : List String) {here p : List String} {es : List (String × Entry)}
  {e : Entry}

theorem mem_paths_visit_iff : p ∈ (visit root keep start here es).paths ↔
      ∃ e ∈ es, root.seenAsFolder (start ++ here) e.2 = false ∧ p = here ++ [e.1] := by
  simp only [Visit.paths, visit, map_map, mem_map, mem_filter, Bool.not_eq_true', and_assoc]
  exact exists_congr fun e => and_congr_right fun _ => and_congr_right fun _ => eq_comm

/-- **The files that a walk meets**: what stands at the end of names of which all but the last are kept, unless it
counts as a folder. -/
theorem mem_met_iff (h : e.IsProper) :
    p ∈ met (visitsFrom root keep start here e) ↔ ∃ rest n f, p = here ++ (rest ++ [n]) ∧
      e.at? (rest ++ [n]) = some f ∧ (∀ m ∈ rest, keep m) ∧
      root.seenAsFolder (start ++ (here ++ rest)) f = false := by
  rw [met, mem_flatMap]
  constructor
  · rintro ⟨v, hv, hp⟩
    obtain ⟨rest, es, hat, hkeep, rfl⟩ := (mem_visitsFrom_iff root keep start h).mp hv
    obtain ⟨f, hf, hseen, rfl⟩ := (mem_paths_visit_iff root keep start).mp hp
    refine ⟨rest, f.1, f.2, append_assoc .., ?_, hkeep, hseen⟩
    obtain ⟨hfolder, _⟩ := h.of_at? hat
    cases hfolder with
    | folder _ hnames hdistinct hinner =>
      have hlookup : es.lookup f.1 = some f.2 := (lookup_eq_some_iff hdistinct).mpr hf
      rw [at?_append, hat, Option.bind_some, at?_singleton, entries, hlookup]
  · rintro ⟨rest, n, f, rfl, hat, hkeep, hseen⟩
    rw [at?_append] at hat
    obtain ⟨g, hg, hn⟩ := Option.bind_eq_some_iff.mp hat
    rw [at?_singleton] at hn
    obtain ⟨hproper, _⟩ := h.of_at? hg
    cases hproper with
    | file | link => cases hn
    | folder es hnames hdistinct hinner =>
      have hmem : (n, f) ∈ es := (lookup_eq_some_iff hdistinct).mp hn
      refine ⟨_, (mem_visitsFrom_iff root keep start h).mpr ⟨rest, es, hg, hkeep, rfl⟩, ?_⟩
      exact (mem_paths_visit_iff root keep start).mpr ⟨(n, f), hmem, hseen, (append_assoc ..).symm⟩

/-- What a walk meets below some of the entries of a folder, given what it meets below each of them. -/
theorem exists_met_visitsIn {part : List (String × Entry)} (h : (folder es).IsProper) (hpart : part <+ es)
    (hinner : ∀ e ∈ es, ∃ ps : List (List String),
      met (visitsFrom root keep start (here ++ [e.1]) e.2) = ps.map ((here ++ [e.1]) ++ ·) ∧
        ps.Pairwise e.2.walksBefore ∧ ∀ p ∈ ps, p ≠ []) :
    ∃ ps : List (List String), met (visitsIn root keep start here part) = ps.map (here ++ ·) ∧
      ps.Pairwise (folder es).walksBefore ∧ ∀ p ∈ ps, ∃ e ∈ part, ∃ rest, rest ≠ [] ∧ p = e.1 :: rest := by
  induction part with
  | nil => exact ⟨[], rfl, .nil, by simp⟩
  | cons e part ih =>
    obtain ⟨ps, hps, hordered, hbelow⟩ := ih ((sublist_cons_self e part).trans hpart)
    rw [met, visitsIn, flatMap_append, ← met, ← met, hps]
    cases hkeep : keep e.1 with
    | false => exact ⟨ps, rfl, hordered, fun p hp => (hbelow p hp).imp fun f hf => ⟨mem_cons_of_mem e hf.1, hf.2⟩⟩
    | true =>
      have he : e ∈ es := hpart.subset mem_cons_self
      obtain ⟨qs, hqs, hfirst, hne⟩ := hinner e he
      have hat : (folder es).at? [e.1] = some e.2 := by
        rw [at?_singleton]
        cases h with
        | folder _ hnames hdistinct _ => exact (lookup_eq_some_iff hdistinct).mpr he
      refine ⟨qs.map (e.1 :: ·) ++ ps, by rw [if_pos rfl, hqs]; simp, pairwise_append.mpr ⟨?_, hordered, ?_⟩, ?_⟩
      · refine pairwise_map.mpr (hfirst.imp_of_mem fun {p q} hp hq hbefore => ?_)
        exact .inr ⟨hne p hp, hne q hq, .inr ⟨rfl, e.2, hat, hbefore⟩⟩
      · intro p hp q hq
        obtain ⟨r, hr, rfl⟩ := mem_map.mp hp
        obtain ⟨f, hf, rest, hrest, rfl⟩ := hbelow q hq
        have hpair : [e, f] <+ es := (cons_sublist_cons.mpr (singleton_sublist.mpr hf)).trans hpart
        exact .inr ⟨hne r hr, hrest, .inl (hpair.map Prod.fst)⟩
      · intro p hp
        rcases mem_append.mp hp with hp | hp
        · obtain ⟨q, hq, rfl⟩ := mem_map.mp hp
          exact ⟨e, mem_cons_self, q, hne q hq, rfl⟩
        · obtain ⟨f, hf, hrest⟩ := hbelow p hp
          exact ⟨f, mem_cons_of_mem e hf, hrest⟩

/-- **A walk meets files in an order that depends on the listings of folders only.** -/
theorem exists_met (h : e.IsProper) (here : List String) : ∃ ps : List (List String),
    met (visitsFrom root keep start here e) = ps.map (here ++ ·) ∧ ps.Pairwise e.walksBefore ∧ ∀ p ∈ ps, p ≠ [] := by
  induction h generalizing here with
  | file content => exact ⟨[], rfl, .nil, by simp⟩
  | link target => exact ⟨[], rfl, .nil, by simp⟩
  | folder es hnames hdistinct hinner ih =>
    obtain ⟨ps, hps, hordered, hbelow⟩ := exists_met_visitsIn root keep start (.folder es hnames hdistinct hinner)
      (.refl es) fun e he => ih e he (here ++ [e.1])
    rw [met, visitsFrom, flatMap_cons, ← met, hps]
    let files := es.filter fun e => !root.seenAsFolder (start ++ here) e.2
    refine ⟨files.map (fun e => [e.1]) ++ ps, ?_, pairwise_append.mpr ⟨?_, hordered, ?_⟩, ?_⟩
    · simp [Visit.paths, visit, files]
    · refine pairwise_map.mpr (pairwise_iff_forall_sublist.mpr fun {e f} hpair => ?_)
      exact .inl ⟨rfl, fun _ => (hpair.trans filter_sublist).map Prod.fst⟩
    · intro p hp q hq
      obtain ⟨e, _, rfl⟩ := mem_map.mp hp
      obtain ⟨f, _, rest, hrest, rfl⟩ := hbelow q hq
      exact .inl ⟨rfl, fun hnil => absurd hnil hrest⟩
    · intro p hp
      rcases mem_append.mp hp with hp | hp
      · obtain ⟨e, _, rfl⟩ := mem_map.mp hp
        exact cons_ne_nil _ _
      · obtain ⟨f, _, rest, _, rfl⟩ := hbelow p hp
        exact cons_ne_nil _ _

theorem met_pairwise (h : root.IsProper) :
    (met (visitsFrom root keep start [] root)).Pairwise root.walksBefore := by
  obtain ⟨ps, hps, hordered, _⟩ := exists_met root keep start h []
  rw [hps]
  simpa using hordered

end Files

/-! ### Walks through two trees -/

/-- No two files are met in one order in one tree and in the other order in the other tree. -/
def WalksAlike (root root' : Entry) : Prop := ∀ p q, root.walksBefore p q → ¬ root'.walksBefore q p

variable {root' : Entry} {ps qs : List (List String)}

theorem perm_of_walksBefore (hroot : root.IsProper) (hroot' : root'.IsProper) (hps : ps.Pairwise root.walksBefore)
    (hqs : qs.Pairwise root'.walksBefore) (h : ∀ p, p ∈ ps ↔ p ∈ qs) : ps.Perm qs := by
  have hnodup : ∀ {e : Entry} {rs : List (List String)}, e.IsProper → rs.Pairwise e.walksBefore → rs.Nodup := by
    intro e rs he hrs
    refine hrs.imp fun {p q} hbefore => ?_
    rintro rfl
    exact he.walksBefore_asymm hbefore hbefore
  exact (perm_ext_iff_of_nodup (hnodup hroot hps) (hnodup hroot' hqs)).mpr h

theorem eq_of_walksAlike (hroot' : root'.IsProper) (halike : WalksAlike root root')
    (hps : ps.Pairwise root.walksBefore) (hqs : qs.Pairwise root'.walksBefore) (h : ps.Perm qs) : ps = qs := by
  refine h.eq_of_pairwise (fun p q hp hq hqp hpq => ?_) (hps.imp fun hbefore => halike _ _ hbefore)
    (hqs.imp fun hbefore => hroot'.walksBefore_asymm hbefore)
  by_contra hne
  have hsymm : Std.Symm fun p q => root'.walksBefore p q ∨ root'.walksBefore q p := ⟨fun _ _ => Or.symm⟩
  have heither : qs.Pairwise fun p q => root'.walksBefore p q ∨ root'.walksBefore q p := hqs.imp .inl
  exact (heither.forall (h.mem_iff.mp hp) hq hne).elim hpq hqp

end Entry

end CodeAtlas
