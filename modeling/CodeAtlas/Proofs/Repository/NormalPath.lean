import CodeAtlas.Proofs.Text.Split
import CodeAtlas.Repository.Path

/-!
# Normal paths

A normal path from the root is a root and proper names with slashes between them: no name is empty, `.` or `..`, and
none has a slash.
-/

namespace CodeAtlas.Path

open List Chars

structure IsProper (name : String) : Prop where
  ne_empty : name ≠ ""
  ne_here : name ≠ "."
  ne_up : name ≠ ".."
  no_slash : '/' ∉ name.toList

/-- A path from the root is written with a root and with proper names. -/
structure IsSpelled (p root : String) (names : List String) : Prop where
  isRoot : root = "/" ∨ root = "//"
  proper : ∀ n ∈ names, IsProper n
  eq : p = root ++ Text.join "/" names

/-- The parts of a path that lead somewhere, `..` included. -/
def steps (p : String) : List String := (Text.splitOn p "/").filter fun s => s != "" && s != "."

/-! ### Pieces between slashes -/

section Pieces

variable {p s : String}

theorem toList_slash : ("/" : String).toList = ['/'] := rfl

theorem splitOn_slash (p : String) : Text.splitOn p "/" = (Chars.splitOn ['/'] p.toList).map String.ofList := rfl

theorem splitOn_append_slash (a b : String) :
    Text.splitOn (a ++ "/" ++ b) "/" = Text.splitOn a "/" ++ Text.splitOn b "/" := by
  have hchars : (a ++ "/" ++ b).toList = a.toList ++ '/' :: b.toList := by
    simp only [String.toList_append, toList_slash, append_assoc, singleton_append]
  rw [splitOn_slash, splitOn_slash, splitOn_slash, hchars, splitOn_append, map_append]

end Pieces

/-! ### Resolving -/

section Resolving

variable {rooted : Bool} {done ps : List String} {p : String}

theorem resolve_skip (h : p = "" ∨ p = ".") : resolve rooted done (p :: ps) = resolve rooted done ps := by
  exact if_pos (by simpa using h)

theorem resolve_step (h₀ : p ≠ "") (h₁ : p ≠ ".") (h₂ : p ≠ "..") :
    resolve rooted done (p :: ps) = resolve rooted (p :: done) ps := by
  exact (if_neg (by simp [h₀, h₁])).trans (if_neg (by simpa using h₂))

theorem resolve_up_nil : resolve rooted [] (".." :: ps) = resolve rooted (if rooted then [] else [".."]) ps := by
  cases rooted <;> rfl

theorem resolve_up_cons (d : String) : resolve rooted (d :: done) (".." :: ps) =
    resolve rooted (if d = ".." then ".." :: d :: done else done) ps := by
  rw [resolve, if_neg (by decide), if_pos (by decide)]
  by_cases h : d = ".."
  · rw [if_pos (by simpa using h), if_pos h]
  · rw [if_neg (by simpa using h), if_neg h]

theorem exists_resolve_cons (rooted : Bool) (done : List String) (p : String) :
    ∃ done', ∀ ps, resolve rooted done (p :: ps) = resolve rooted done' ps := by
  by_cases hskip : p = "" ∨ p = "."
  · exact ⟨done, fun ps => resolve_skip hskip⟩
  by_cases hup : p = ".."
  · subst hup
    cases done with
    | nil => exact ⟨_, fun ps => resolve_up_nil⟩
    | cons d done => exact ⟨_, fun ps => resolve_up_cons d⟩
  · exact ⟨p :: done, fun ps => resolve_step (fun h => hskip (.inl h)) (fun h => hskip (.inr h)) hup⟩

theorem resolve_append (rooted : Bool) (done ps qs : List String) :
    resolve rooted done (ps ++ qs) = resolve rooted (resolve rooted done ps).reverse qs := by
  induction ps generalizing done with
  | nil => rw [nil_append, resolve, reverse_reverse]
  | cons p ps ih =>
    obtain ⟨done', h⟩ := exists_resolve_cons rooted done p
    rw [cons_append, h, h, ih]

theorem resolve_of_no_up (h : ".." ∉ ps) :
    resolve rooted done ps = done.reverse ++ ps.filter fun s => s != "" && s != "." := by
  induction ps generalizing done with
  | nil => rw [resolve, filter_nil, append_nil]
  | cons p ps ih =>
    rw [mem_cons, not_or] at h
    by_cases hskip : p = "" ∨ p = "."
    · rw [resolve_skip hskip, ih h.2, filter_cons_of_neg (by rcases hskip with rfl | rfl <;> decide)]
    · rw [not_or] at hskip
      rw [resolve_step hskip.1 hskip.2 (Ne.symm h.1), ih h.2, filter_cons_of_pos (by simp [hskip]),
        reverse_cons, append_assoc, singleton_append]

theorem forall_mem_resolve {P : String → Prop} (hdone : ∀ n ∈ done, P n)
    (hps : ∀ p ∈ ps, p ≠ "" → p ≠ "." → p ≠ ".." → P p) (hup : rooted = false → P "..") :
    ∀ n ∈ resolve rooted done ps, P n := by
  induction ps generalizing done with
  | nil =>
    intro n hn
    rw [resolve, mem_reverse] at hn
    exact hdone n hn
  | cons p ps ih =>
    have hrest : ∀ q ∈ ps, q ≠ "" → q ≠ "." → q ≠ ".." → P q := fun q hq => hps q (mem_cons_of_mem p hq)
    by_cases hskip : p = "" ∨ p = "."
    · rw [resolve_skip hskip]
      exact ih hdone hrest
    rw [not_or] at hskip
    by_cases hpup : p = ".."
    · subst hpup
      cases done with
      | nil =>
        rw [resolve_up_nil]
        refine ih ?_ hrest
        cases rooted with
        | false => simpa using hup rfl
        | true => exact hdone
      | cons d done =>
        rw [resolve_up_cons]
        refine ih ?_ hrest
        split
        next hd => exact forall_mem_cons.mpr ⟨hd ▸ hdone d mem_cons_self, hdone⟩
        · exact fun n hn => hdone n (mem_cons_of_mem d hn)
    · rw [resolve_step hskip.1 hskip.2 hpup]
      exact ih (forall_mem_cons.mpr ⟨hps p mem_cons_self hskip.1 hskip.2 hpup, hdone⟩) hrest

/-- Resolving parts by themselves first changes nothing below the root: the steps upwards that are kept are taken
there. -/
theorem resolve_resolve (done acc ps : List String) (hacc : ∀ n ∈ acc, n ≠ "" ∧ n ≠ ".") :
    resolve true done (resolve false acc ps) = resolve true done (acc.reverse ++ ps) := by
  induction ps generalizing acc with
  | nil => rw [resolve, append_nil]
  | cons p ps ih =>
    by_cases hskip : p = "" ∨ p = "."
    · rw [resolve_skip hskip, ih acc hacc, resolve_append, resolve_append, resolve_skip hskip]
    rw [not_or] at hskip
    by_cases hup : p = ".."
    · subst hup
      cases acc with
      | nil =>
        exact ih [".."] (by decide)
      | cons a acc =>
        have ha := hacc a mem_cons_self
        have hrest : ∀ n ∈ acc, n ≠ "" ∧ n ≠ "." := fun n hn => hacc n (mem_cons_of_mem a hn)
        rw [resolve_up_cons]
        by_cases haup : a = ".."
        · rw [if_pos haup, ih _ (forall_mem_cons.mpr ⟨hskip, hacc⟩), reverse_cons, append_assoc, singleton_append]
        · rw [if_neg haup, ih acc hrest, reverse_cons, append_assoc, resolve_append, resolve_append,
            singleton_append, resolve_step ha.1 ha.2 haup, resolve_up_cons, if_neg haup]
    · rw [resolve_step hskip.1 hskip.2 hup, ih _ (forall_mem_cons.mpr ⟨hskip, hacc⟩), reverse_cons,
        append_assoc, singleton_append]

theorem resolve_splitOn_join {ns : List String} (h : ∀ n ∈ ns, '/' ∉ n.toList) :
    resolve rooted done (Text.splitOn (Text.join "/" ns) "/") = resolve rooted done ns := by
  by_cases hne : ns = []
  · subst hne
    exact resolve_skip (.inl rfl)
  · rw [Text.splitOn_join rfl hne h]

end Resolving

/-! ### Roots -/

section Roots

variable {p a b : String}

theorem isAbsolute_iff : isAbsolute p ↔ ['/'] <+: p.toList := startsWith_iff

theorem root_eq_empty_iff : root p = "" ↔ isAbsolute p = false := by
  unfold root isAbsolute
  cases hslash : Text.startsWith p "/" with
  | true => split <;> simp
  | false =>
    have htwo : Text.startsWith p "//" = false := by
      rw [← Bool.not_eq_true] at hslash ⊢
      intro h
      have hp : ['/', '/'] <+: p.toList := startsWith_iff.mp h
      exact hslash (startsWith_iff.mpr ((prefix_append ['/'] ['/']).trans hp))
    simp [htwo]

theorem root_of_isAbsolute (h : isAbsolute p) : root p = "/" ∨ root p = "//" := by
  unfold root
  split
  · exact .inr rfl
  · exact .inl (if_pos h)

def slashes (cs : List Char) : List Char := cs.takeWhile (· == '/')

theorem prefix_slashes_iff {w cs : List Char} (hw : ∀ c ∈ w, (c == '/')) : w <+: slashes cs ↔ w <+: cs := by
  refine ⟨fun h => h.trans (List.takeWhile_prefix _), ?_⟩
  rintro ⟨t, rfl⟩
  rw [slashes, takeWhile_append_of_pos hw]
  exact prefix_append w _

theorem root_congr (h : slashes a.toList = slashes b.toList) : root a = root b := by
  have hstarts : ∀ w : String, w.toList.all (· == '/') → Text.startsWith a w = Text.startsWith b w := by
    intro w hw
    rw [all_eq_true] at hw
    rw [Bool.eq_iff_iff]
    exact (startsWith_iff.trans (prefix_slashes_iff hw).symm).trans
      (h ▸ (prefix_slashes_iff hw).trans startsWith_iff.symm)
  unfold root
  rw [hstarts "/" (by decide), hstarts "//" (by decide), hstarts "///" (by decide)]

theorem slashes_eq_nil (h : isAbsolute p = false) : slashes p.toList = [] := by
  rw [← Bool.not_eq_true, isAbsolute_iff] at h
  cases hp : p.toList with
  | nil => rfl
  | cons c cs =>
    have hc : c ≠ '/' := by
      rintro rfl
      exact h (hp ▸ prefix_append ['/'] cs)
    exact takeWhile_cons_of_neg (by simpa using hc)

theorem slashes_append (a : List Char) {b : List Char} (h : slashes b = []) : slashes (a ++ b) = slashes a := by
  unfold slashes at h ⊢
  rw [takeWhile_append, h, append_nil]
  split
  next hall => exact ((List.takeWhile_prefix _).eq_of_length hall).symm
  · rfl

theorem root_append (a : String) (h : isAbsolute b = false) : root (a ++ b) = root a := by
  apply root_congr
  rw [String.toList_append]
  exact slashes_append a.toList (slashes_eq_nil h)

theorem slashes_append_slash {a : List Char} (hne : a ≠ []) (hend : ¬ ['/'] <:+ a) (b : List Char) :
    slashes (a ++ '/' :: b) = slashes a := by
  unfold slashes
  rw [takeWhile_append, if_neg]
  intro hall
  have ha : a.takeWhile (· == '/') = a := (List.takeWhile_prefix _).eq_of_length hall
  have hlast := takeWhile_eq_self_iff.mp ha (a.getLast hne) (getLast_mem hne)
  rw [beq_iff_eq] at hlast
  exact hend ⟨a.dropLast, hlast ▸ dropLast_append_getLast hne⟩

end Roots

/-! ### Paths below each other -/

section Below

variable {a b : String}

theorem join_cases (a : String) (hb : isAbsolute b = false) :
    (a = "" ∧ join a b = b) ∨ (∃ c, a = c ++ "/" ∧ join a b = c ++ "/" ++ b) ∨
      (a ≠ "" ∧ ¬ ['/'] <:+ a.toList ∧ join a b = a ++ "/" ++ b) := by
  unfold join
  rw [if_neg (by simp [hb])]
  by_cases hempty : a = ""
  · subst hempty
    exact .inl ⟨rfl, by simp⟩
  by_cases hend : ['/'] <:+ a.toList
  · have h : Text.endsWith a "/" := endsWith_iff.mpr hend
    rw [if_pos (by simp [h])]
    obtain ⟨cs, hcs⟩ := hend
    have ha : a = String.ofList cs ++ "/" := by
      apply String.toList_inj.mp
      rw [String.toList_append, String.toList_ofList, toList_slash, hcs]
    exact .inr (.inl ⟨String.ofList cs, ha, by rw [← ha]⟩)
  · have h : ¬ Text.endsWith a "/" := fun h => hend (endsWith_iff.mp h)
    rw [if_neg (by simp [hempty, h])]
    exact .inr (.inr ⟨hempty, hend, rfl⟩)

theorem join_of_isAbsolute (a : String) (hb : isAbsolute b) : join a b = b := if_pos hb

theorem root_join (a : String) (hb : isAbsolute b = false) : root (join a b) = root a := by
  rcases join_cases a hb with ⟨rfl, h⟩ | ⟨c, rfl, h⟩ | ⟨hne, hend, h⟩
  · rw [h, root_eq_empty_iff.mpr hb]
    rfl
  · rw [h, root_append _ hb]
  · rw [h]
    apply root_congr
    rw [String.toList_append, String.toList_append, toList_slash, append_assoc, singleton_append]
    exact slashes_append_slash (by simpa using hne) hend b.toList

theorem isAbsolute_join (a : String) (hb : isAbsolute b = false) : isAbsolute (join a b) = isAbsolute a := by
  rw [Bool.eq_iff_iff, ← Bool.not_eq_false, ← Bool.not_eq_false, ← root_eq_empty_iff, ← root_eq_empty_iff,
    root_join a hb]

theorem resolve_join (rooted : Bool) (done : List String) (a : String) (hb : isAbsolute b = false) :
    resolve rooted done (Text.splitOn (join a b) "/") =
      resolve rooted done (Text.splitOn a "/" ++ Text.splitOn b "/") := by
  rcases join_cases a hb with ⟨rfl, h⟩ | ⟨c, rfl, h⟩ | ⟨_, _, h⟩
  · rw [h]
    exact (resolve_skip (.inl rfl)).symm
  · have hc : Text.splitOn (c ++ "/") "/" = Text.splitOn c "/" ++ [""] := by
      have hsplit := splitOn_append_slash c ""
      rwa [String.append_empty] at hsplit
    rw [h, splitOn_append_slash, hc, append_assoc, resolve_append, resolve_append rooted done (Text.splitOn c "/"),
      singleton_append, resolve_skip (.inl rfl)]
  · rw [h, splitOn_append_slash]

end Below

/-! ### Normal forms -/

section NormalForms

variable {directory p : String}

theorem normal_of_isAbsolute (h : isAbsolute p) :
    normal p = root p ++ Text.join "/" (resolve true [] (Text.splitOn p "/")) := by
  have hroot : root p ≠ "" := by
    rw [Ne, root_eq_empty_iff, h]
    exact Bool.noConfusion
  unfold normal
  simp only [bne_iff_ne.mpr hroot]
  exact if_neg (by simp [hroot])

theorem join_names_not_isAbsolute {ns : List String} (h : ∀ n ∈ ns, n ≠ "" ∧ '/' ∉ n.toList) :
    isAbsolute (Text.join "/" ns) = false ∧ (Text.join "/" ns = "" ↔ ns = []) := by
  cases ns with
  | nil => exact ⟨rfl, by simp [Text.join, Chars.join]⟩
  | cons n ns =>
    obtain ⟨hne, hslash⟩ := h n mem_cons_self
    obtain ⟨t, ht⟩ : ∃ t, (Text.join "/" (n :: ns)).toList = n.toList ++ t := by
      rw [Text.toList_join]
      cases ns with
      | nil => exact ⟨[], (append_nil _).symm⟩
      | cons m ms => exact ⟨_, append_assoc _ _ _⟩
    cases hn : n.toList with
    | nil => exact absurd (String.toList_eq_nil_iff.mp hn) hne
    | cons c cs =>
      rw [hn, cons_append] at ht
      rw [hn, mem_cons, not_or] at hslash
      refine ⟨?_, ?_⟩
      · rw [← Bool.not_eq_true, isAbsolute_iff, ht, cons_prefix_cons]
        exact fun hstarts => hslash.1 hstarts.1
      · rw [← String.toList_eq_nil_iff, ht]
        simp

theorem resolve_parts (rooted : Bool) (p : String) :
    ∀ n ∈ resolve rooted [] (Text.splitOn p "/"), n ≠ "" ∧ '/' ∉ n.toList := by
  refine forall_mem_resolve (by simp) ?_ (fun _ => by decide)
  intro s hs hne _ _
  exact ⟨hne, Text.not_mem_of_mem_splitOn rfl hs⟩

theorem resolve_proper (p : String) : ∀ n ∈ resolve true [] (Text.splitOn p "/"), IsProper n := by
  refine forall_mem_resolve (by simp) ?_ (fun h => by cases h)
  intro s hs hempty hhere hup
  exact ⟨hempty, hhere, hup, Text.not_mem_of_mem_splitOn rfl hs⟩

theorem absoluteFrom_eq (directory p : String) : absoluteFrom directory p = normal (join directory p) := by
  unfold absoluteFrom
  split
  next h => rw [join_of_isAbsolute directory h]
  · rfl

theorem isAbsolute_join_directory (hdirectory : isAbsolute directory) (p : String) :
    isAbsolute (join directory p) := by
  cases hp : isAbsolute p with
  | true => rwa [join_of_isAbsolute directory hp]
  | false => rwa [isAbsolute_join directory hp]

theorem isSpelled_absoluteFrom (hdirectory : isAbsolute directory) (p : String) :
    IsSpelled (absoluteFrom directory p) (root (join directory p))
      (resolve true [] (Text.splitOn (join directory p) "/")) where
  isRoot := root_of_isAbsolute (isAbsolute_join_directory hdirectory p)
  proper := resolve_proper _
  eq := by rw [absoluteFrom_eq, normal_of_isAbsolute (isAbsolute_join_directory hdirectory p)]

theorem splitOn_root_append {r : String} (hr : r = "/" ∨ r = "//") (s : String) :
    Text.splitOn (r ++ s) "/" = List.replicate r.length "" ++ Text.splitOn s "/" := by
  rcases hr with rfl | rfl
  · rw [show "/" ++ s = "" ++ "/" ++ s from by rw [String.empty_append], splitOn_append_slash]
    rfl
  · rw [show "//" ++ s = "/" ++ "/" ++ s from rfl, splitOn_append_slash]
    rfl

theorem resolve_root_append {r : String} (hr : r = "/" ∨ r = "//") (rooted : Bool) (done : List String) (s : String) :
    resolve rooted done (Text.splitOn (r ++ s) "/") = resolve rooted done (Text.splitOn s "/") := by
  have hempty : ".." ∉ List.replicate r.length "" := fun h => by simp at h
  rw [splitOn_root_append hr, resolve_append, resolve_of_no_up hempty]
  simp

theorem resolve_of_proper {done ns : List String} (rooted : Bool) (h : ∀ n ∈ ns, IsProper n) :
    resolve rooted done ns = done.reverse ++ ns := by
  rw [resolve_of_no_up fun hup => (h _ hup).ne_up rfl, filter_eq_self.mpr]
  intro n hn
  simp [(h n hn).ne_empty, (h n hn).ne_here]

theorem normal_normal_of_isAbsolute (hp : isAbsolute p) :
    isAbsolute (normal p) ∧ normal (normal p) = normal p := by
  have hroot := root_of_isAbsolute hp
  have hproper := resolve_proper p
  have hnames := fun n hn => And.intro (hproper n hn).ne_empty (hproper n hn).no_slash
  have hsame : root (normal p) = root p := by
    rw [normal_of_isAbsolute hp, root_append _ (join_names_not_isAbsolute hnames).1]
    rcases hroot with h | h <;> rw [h] <;> rfl
  have habsolute : isAbsolute (normal p) := by
    rw [← Bool.not_eq_false, ← root_eq_empty_iff, hsame, root_eq_empty_iff, hp]
    exact Bool.noConfusion
  refine ⟨habsolute, ?_⟩
  rw [normal_of_isAbsolute habsolute, hsame, normal_of_isAbsolute hp, resolve_root_append hroot,
    resolve_splitOn_join fun n hn => (hproper n hn).no_slash, resolve_of_proper true hproper, reverse_nil,
    nil_append]

/-- The normal form of a path that does not start at the root does not start there either, and it leads where the path
leads. -/
theorem normal_of_not_isAbsolute (hp : isAbsolute p = false) : isAbsolute (normal p) = false ∧
    ∀ done, resolve true done (Text.splitOn (normal p) "/") = resolve true done (Text.splitOn p "/") := by
  have hroot : root p = "" := root_eq_empty_iff.mpr hp
  have hparts := resolve_parts false p
  obtain ⟨hstart, hempty⟩ := join_names_not_isAbsolute hparts
  have hresolve : ∀ done, resolve true done (resolve false [] (Text.splitOn p "/")) =
      resolve true done (Text.splitOn p "/") := fun done => resolve_resolve done [] _ (by simp)
  have hnormal : normal p = if resolve false [] (Text.splitOn p "/") = [] then "."
      else Text.join "/" (resolve false [] (Text.splitOn p "/")) := by
    unfold normal
    simp only [hroot, bne_self_eq_false, String.empty_append, beq_iff_eq, hempty]
  rw [hnormal]
  split
  next hnone =>
    rw [hnone] at hresolve
    exact ⟨rfl, fun done => (resolve_skip (.inr rfl)).trans (hresolve done)⟩
  · exact ⟨hstart, fun done => (resolve_splitOn_join fun n hn => (hparts n hn).2).trans (hresolve done)⟩

theorem absoluteFrom_normal (hdirectory : isAbsolute directory) (p : String) :
    absoluteFrom directory (normal p) = absoluteFrom directory p := by
  cases hp : isAbsolute p with
  | true =>
    obtain ⟨habsolute, hnormal⟩ := normal_normal_of_isAbsolute hp
    rw [absoluteFrom_eq, absoluteFrom_eq, join_of_isAbsolute directory habsolute,
      join_of_isAbsolute directory hp, hnormal]
  | false =>
    obtain ⟨hrelative, hleads⟩ := normal_of_not_isAbsolute hp
    rw [(isSpelled_absoluteFrom hdirectory (normal p)).eq, (isSpelled_absoluteFrom hdirectory p).eq,
      root_join directory hrelative, root_join directory hp, resolve_join _ _ directory hrelative,
      resolve_join _ _ directory hp, resolve_append, resolve_append, hleads]

theorem absoluteFrom_join (hdirectory : isAbsolute directory) (base : String) {path : String}
    (hpath : isAbsolute path = false) : absoluteFrom directory (join base path) = root (join directory base) ++
      Text.join "/" (resolve true (resolve true [] (Text.splitOn (join directory base) "/")).reverse
        (Text.splitOn path "/")) := by
  rw [(isSpelled_absoluteFrom hdirectory (join base path)).eq]
  cases hbase : isAbsolute base with
  | true =>
    have hjoin : isAbsolute (join base path) := by rwa [isAbsolute_join base hpath]
    rw [join_of_isAbsolute directory hjoin, join_of_isAbsolute directory hbase, root_join base hpath,
      resolve_join _ _ base hpath, resolve_append]
  | false =>
    have hjoin : isAbsolute (join base path) = false := by rwa [isAbsolute_join base hpath]
    rw [root_join directory hjoin, root_join directory hbase, resolve_join _ _ directory hjoin,
      resolve_join _ _ directory hbase, resolve_append, resolve_join _ _ base hpath, resolve_append, resolve_append]

theorem IsSpelled.names_eq {p root : String} {ns : List String} (h : IsSpelled p root ns) : names p = ns := by
  have hself : ns.filter (· != "") = ns := filter_eq_self.mpr fun n hn => by simpa using (h.proper n hn).ne_empty
  have hpieces : (Text.splitOn (Text.join "/" ns) "/").filter (· != "") = ns := by
    by_cases hne : ns = []
    · subst hne
      rfl
    · rw [Text.splitOn_join rfl hne fun n hn => (h.proper n hn).no_slash, hself]
  rw [names, h.eq, splitOn_root_append h.isRoot, filter_append, hpieces]
  simp

end NormalForms

end CodeAtlas.Path
