import CodeAtlas.Proofs.Text.Occurrence
import CodeAtlas.Repository.Address

/-!
# Both readers of addresses

`Address.parse` accepts a text and gives its two names.  The text that is handed on for cloning is put together from
them, and need not be acceptable itself; `Address.find?` reads some accepted texts in another way.

* `Address.IsName`, **`Address.parse_ok_iff`**: the names of owners and repositories, and the texts that are accepted;
* **`Address.parse_cleanUrl`**: the text that is handed on is accepted, with the same names, unless the name of the
  repository ends with a dot;
* **`Address.find?_eq_parsed_iff`**: the accepted texts in which it finds the same names.
-/

namespace CodeAtlas.Address

open List Chars

variable {url : String} {a : Address} {s o r t u : List Char}

structure IsWritten (s : List Char) : Prop where
  ne_nil : s ≠ []
  allowed : ∀ c ∈ s, isAllowed c = true

structure IsName (s : List Char) : Prop extends IsWritten s where
  no_leading_dot : ¬ ['.'] <+: s
  no_double_dot : ¬ ['.', '.'] <:+: s

/-! ### Texts that are accepted -/

theorem IsWritten.not_mem {c : Char} (h : IsWritten s) (hc : isAllowed c = false) : c ∉ s := fun hmem => by
  rw [h.allowed c hmem] at hc
  cases hc

theorem IsWritten.append {e : List Char} (h : IsWritten s) (he : e.all isAllowed) : IsWritten (s ++ e) where
  ne_nil := append_ne_nil_of_left_ne_nil h.ne_nil e
  allowed := forall_mem_append.mpr ⟨h.allowed, all_eq_true.mp he⟩

theorem span_allowed (h : ∀ c ∈ s, isAllowed c) (ht : t = [] ∨ ∃ t', t = '/' :: t') :
    (s ++ t).takeWhile isAllowed = s ∧ (s ++ t).dropWhile isAllowed = t := by
  rw [takeWhile_append_of_pos h, dropWhile_append_of_pos h]
  rcases ht with rfl | ⟨t', rfl⟩
  · simp
  · rw [takeWhile_cons_of_neg (by decide), dropWhile_cons_of_neg (by decide), append_nil]
    exact ⟨rfl, rfl⟩

theorem names?_eq_some_iff : names? s = some (o, r) ↔ ∃ tail, s = site.toList ++ (o ++ '/' :: (r ++ tail)) ∧
    (tail = [] ∨ tail = ['/']) ∧ IsWritten o ∧ IsWritten r := by
  constructor
  · intro h
    unfold names? at h
    split at h
    · cases h
    next path hpath =>
      have hallowed : ∀ u : List Char, ∀ c ∈ u.takeWhile isAllowed, isAllowed c := fun u c hc =>
        mem_takeWhile_imp hc
      dsimp only at h
      split at h
      next rest hrest =>
        split at h
        · cases h
        next hnames =>
          split at h
          next htail =>
            cases h
            refine ⟨rest.dropWhile isAllowed, ?_, by simpa using htail, ⟨?_, hallowed path⟩, ⟨?_, hallowed rest⟩⟩
            · rw [takeWhile_append_dropWhile, ← hrest, takeWhile_append_dropWhile]
              exact after?_eq_some_iff.mp hpath
            · simp_all
            · simp_all
          · cases h
      · cases h
  · rintro ⟨tail, rfl, htail, ho, hr⟩
    have hslash : tail = [] ∨ ∃ t, tail = '/' :: t := htail.imp_right fun h => ⟨[], h⟩
    obtain ⟨hot, hod⟩ := span_allowed ho.allowed (t := '/' :: (r ++ tail)) (.inr ⟨_, rfl⟩)
    obtain ⟨hrt, hrd⟩ := span_allowed hr.allowed hslash
    unfold names?
    rw [after?_eq_some_iff.mpr rfl]
    simp only [hot, hod, hrt, hrd]
    rw [if_neg (by simp [ho.ne_nil, hr.ne_nil]), if_pos (by simpa using htail)]

theorem IsName.of_suffix_removed {e : List Char} (h : IsName (s ++ e)) (hs : s ≠ []) : IsName s where
  ne_nil := hs
  allowed c hc := h.allowed c (mem_append_left _ hc)
  no_leading_dot hdot := h.no_leading_dot (hdot.trans (prefix_append s e))
  no_double_dot hdots := h.no_double_dot (hdots.trans (prefix_append s e).isInfix)

theorem dropEnding_append (s : List Char) : dropEnding (s ++ ".git".toList) = s := by
  have hends : Chars.endsWith ".git".toList (s ++ ".git".toList) := endsWith_iff.mpr (suffix_append s _)
  rw [dropEnding, if_pos hends]
  simp

theorem dropEnding_cases (s : List Char) : s = dropEnding s ++ ".git".toList ∨ s = dropEnding s := by
  by_cases hends : ".git".toList <:+ s
  · obtain ⟨t, rfl⟩ := hends
    exact .inl (by rw [dropEnding_append])
  · exact .inr (by rw [dropEnding, if_neg (mt endsWith_iff.mp hends)])

theorem length_dropEnding_le (s : List Char) : (dropEnding s).length ≤ s.length := by
  unfold dropEnding
  split
  · exact length_take_le' _ _
  · exact Nat.le_refl _

theorem IsName.dropEnding (h : IsName s) : IsName (dropEnding s) := by
  rcases dropEnding_cases s with hs | hs
  · rw [hs] at h
    refine h.of_suffix_removed fun hnil => h.no_leading_dot ?_
    rw [hnil]
    exact ⟨"git".toList, rfl⟩
  · rwa [← hs]

/-- **The texts that are accepted**: blanks around them apart, they are the site, the names of an owner and a repository
with a slash between them, and one slash after them or none. -/
theorem parse_ok_iff : parse url = .ok a ↔ ∃ r tail,
    Chars.trim url.toList = site.toList ++ (a.owner.toList ++ '/' :: (r ++ tail)) ∧ (tail = [] ∨ tail = ['/']) ∧
      IsName a.owner.toList ∧ IsName r ∧ a.repository.toList = dropEnding r := by
  unfold parse
  constructor
  · intro h
    split at h
    · cases h
    · split at h
      · cases h
      next o r hnames =>
        obtain ⟨tail, htrim, htail, ho, hr⟩ := names?_eq_some_iff.mp hnames
        split at h
        · cases h
        next hdots =>
          split at h
          · cases h
          next hdot =>
            cases h
            simp only [Bool.or_eq_true, Chars.contains_iff, startsWith_iff, not_or] at hdots hdot
            simp only [String.toList_ofList]
            exact ⟨r, tail, htrim, htail, ⟨ho, hdot.1, hdots.1⟩, ⟨hr, hdot.2, hdots.2⟩, rfl⟩
  · rintro ⟨r, tail, htrim, htail, ho, hr, hrepository⟩
    have hurl : ¬ (url == "") := by
      rw [beq_iff_eq]
      rintro rfl
      cases htrim
    rw [if_neg hurl, names?_eq_some_iff.mpr ⟨tail, htrim, htail, ho.1, hr.1⟩]
    dsimp only
    rw [if_neg (by simp [Chars.contains_iff, ho.no_double_dot, hr.no_double_dot]),
      if_neg (by simp [startsWith_iff, ho.no_leading_dot, hr.no_leading_dot]), ← hrepository, String.ofList_toList,
      String.ofList_toList]

/-! ### The text that is handed on -/

theorem isName_of_parse (h : parse url = .ok a) : IsName a.owner.toList ∧ IsName a.repository.toList := by
  obtain ⟨r, tail, _, _, ho, hr, hrepository⟩ := parse_ok_iff.mp h
  rw [hrepository]
  exact ⟨ho, hr.dropEnding⟩

theorem toList_cleanUrl (a : Address) : a.cleanUrl.toList =
    site.toList ++ (a.owner.toList ++ '/' :: (a.repository.toList ++ ".git".toList)) := by
  simp [cleanUrl, displayName, append_assoc]

theorem trim_cleanUrl (a : Address) : Chars.trim a.cleanUrl.toList = a.cleanUrl.toList := by
  have hlast : ".git".toList.getLast? = some 't' := rfl
  rw [toList_cleanUrl]
  refine trim_eq_self (fun c hc => ?_) fun c hc => ?_
  · obtain rfl : 'h' = c := Option.some.inj hc
    rfl
  · rw [← cons_append, ← append_assoc, ← append_assoc, getLast?_append, hlast, Option.some_or] at hc
    obtain rfl : 't' = c := Option.some.inj hc
    rfl

theorem double_dot_append_ending_iff (h : ¬ ['.', '.'] <:+: s) : ['.', '.'] <:+: s ++ ".git".toList ↔ ['.'] <:+ s := by
  have hbefore : ['.', '.'] <:+: s ++ ['.'] ↔ ['.'] <:+ s ∨ ['.', '.'] <:+: s :=
    concat_infix_append_cons_iff (u := ['.']) not_mem_nil s
  have hafter : ¬ ['.', '.'] <:+: "it".toList := by decide
  calc ['.', '.'] <:+: s ++ ".git".toList
      ↔ ['.', '.'] <:+: (s ++ ['.']) ++ 'g' :: "it".toList := by rw [append_assoc]; rfl
    _ ↔ ['.', '.'] <:+: s ++ ['.'] := by rw [infix_append_cons_iff (by decide), or_iff_left hafter]
    _ ↔ ['.'] <:+ s := by rw [hbefore, or_iff_left h]

/-- **The text that is handed on for cloning is accepted, with the same names, unless the name of the repository ends
with a dot**: the usual ending is put after it, and the text then holds two dots in a row. -/
theorem parse_cleanUrl (h : parse url = .ok a) : IsName a.owner.toList ∧ IsName a.repository.toList ∧
    parse a.cleanUrl = if Text.endsWith a.repository "." then .error .doubleDot else .ok a := by
  obtain ⟨ho, hr⟩ := isName_of_parse h
  refine ⟨ho, hr, ?_⟩
  have hnames : names? a.cleanUrl.toList = some (a.owner.toList, a.repository.toList ++ ".git".toList) :=
    names?_eq_some_iff.mpr ⟨[], by rw [toList_cleanUrl, List.append_nil], .inl rfl, ho.1, hr.1.append rfl⟩
  have hdot : ¬ ['.'] <+: a.repository.toList ++ ".git".toList := by
    obtain ⟨c, t, ht⟩ := List.exists_cons_of_ne_nil hr.ne_nil
    have hfirst := hr.no_leading_dot
    rw [ht] at hfirst ⊢
    simpa using hfirst
  have hurl : ¬ (a.cleanUrl == "") = true := by
    rw [beq_iff_eq]
    intro hempty
    have hlist := toList_cleanUrl a
    rw [hempty] at hlist
    cases hlist
  have hends : Text.endsWith a.repository "." = true ↔ ['.'] <:+ a.repository.toList := Chars.endsWith_iff
  unfold parse
  rw [if_neg hurl, trim_cleanUrl, hnames]
  simp only [Bool.or_eq_true, Chars.contains_iff, Chars.startsWith_iff, ho.no_double_dot, ho.no_leading_dot,
    hdot, false_or,
    double_dot_append_ending_iff hr.no_double_dot, hends, if_false, dropEnding_append, String.ofList_toList]

theorem parse_cleanUrl_nested : parse " https://github.com/octo/x.git.git/" = .ok ⟨"octo", "x.git"⟩ ∧
    parse (cleanUrl ⟨"octo", "x.git"⟩) = .ok ⟨"octo", "x.git"⟩ := by
  have haccepted : parse " https://github.com/octo/x.git.git/" = .ok ⟨"octo", "x.git"⟩ := rfl
  exact ⟨haccepted, (parse_cleanUrl haccepted).2.2⟩

/-- A name that ends with a dot is accepted, and the text that is made of it is not. -/
theorem cleanUrl_not_accepted : parse "https://github.com/octo/repo." = .ok ⟨"octo", "repo."⟩ ∧
    parse (cleanUrl ⟨"octo", "repo."⟩) = .error .doubleDot := ⟨rfl, rfl⟩

/-! ### The other reader -/

/-- Whether a name ends with a character that the other reader strips off. -/
def endsLikeEnding (name : String) : Bool := name.toList.getLast?.any isEndingChar

theorem isEndingChar_of_isBlank {c : Char} (h : isBlank c) : isEndingChar c = false := by
  have hall : ".git".toList.all (!isBlank ·) := rfl
  rw [← Bool.not_eq_true, isEndingChar, contains_iff_mem]
  intro hc
  simpa [h] using all_eq_true.mp hall c hc

theorem ofPath?_ofList (s : List Char) : ofPath? (String.ofList s) =
    ofParts? ((Chars.splitOn ['/'] (Chars.dropEndWhile isEndingChar s)).map String.ofList) := by
  rw [ofPath?, Text.dropEndWhile, Text.splitOn]
  simp only [String.toList_ofList]
  rfl

theorem ofPath?_append_slash {p : List Char} {ps : List (List Char)} (ho : '/' ∉ o)
    (hs : Chars.splitOn ['/'] (Chars.dropEndWhile isEndingChar s) = p :: ps) :
    ofPath? (String.ofList (o ++ '/' :: s)) = some ⟨String.ofList o, String.ofList p⟩ := by
  rw [ofPath?_ofList, dropEndWhile_append_cons rfl, splitOn_append, splitOn_of_not_mem ho, hs]
  rfl

theorem slash_not_mem_dropEndWhile (hs : '/' ∉ s) : '/' ∉ Chars.dropEndWhile isEndingChar s := fun h =>
  hs (mem_reverse.mp ((dropWhile_sublist _).subset (mem_reverse.mp h)))

theorem ofPath?_eq_none (hs : '/' ∉ s) : ofPath? (String.ofList s) = none := by
  rw [ofPath?_ofList, splitOn_of_not_mem (slash_not_mem_dropEndWhile hs)]
  rfl

theorem some_eq_iff (a : Address) (s : List Char) :
    some (⟨a.owner, String.ofList s⟩ : Address) = some a ↔ s = a.repository.toList := by
  constructor
  · intro h
    have hrepository : String.ofList s = a.repository := congrArg repository (Option.some.inj h)
    rw [← hrepository, String.toList_ofList]
  · rintro rfl
    rw [String.ofList_toList]

theorem dropEndWhile_dropEnding (s : List Char) :
    Chars.dropEndWhile isEndingChar s = Chars.dropEndWhile isEndingChar (dropEnding s) := by
  rcases dropEnding_cases s with hs | hs
  · conv_lhs => rw [hs]
    exact dropEndWhile_append_of_all rfl _
  · rw [← hs]

/-- Names are read off a path that ends with them, but for the characters that are stripped off the second one. -/
theorem ofPath?_names (ho : '/' ∉ a.owner.toList) (hr : '/' ∉ r)
    (h : Chars.dropEndWhile isEndingChar r = Chars.dropEndWhile isEndingChar a.repository.toList) :
    ofPath? (String.ofList (a.owner.toList ++ '/' :: r)) = some a ↔ endsLikeEnding a.repository = false := by
  rw [ofPath?_append_slash ho (splitOn_of_not_mem (slash_not_mem_dropEndWhile hr)), h, String.ofList_toList,
    some_eq_iff, dropEndWhile_eq_self_iff, endsLikeEnding]
  cases a.repository.toList.getLast? <;> simp

theorem mem_of_mem_getLast? {c : Char} (hne : t ≠ []) (hc : c ∈ (s ++ t).getLast?) : c ∈ t := by
  rw [getLast?_append, getLast?_eq_some_getLast hne, Option.some_or] at hc
  cases hc
  exact getLast_mem hne

theorem IsWritten.last_ne_slash {c : Char} (h : IsWritten r) (hc : c ∈ (s ++ r).getLast?) : (c == '/') = false :=
  beq_eq_false_iff_ne.mpr fun heq => h.not_mem rfl (heq ▸ mem_of_mem_getLast? h.ne_nil hc)

theorem toList_mark : "github.com/".toList = "github.com".toList ++ ['/'] := rfl

theorem after?_eq_none {mark : String} (h : ¬ mark.toList <:+: url.toList) : after? mark url = none := by
  rw [after?, Text.splitOn, splitOn_of_not_infix h]
  rfl

theorem find?_of_site {lead path : List Char} (hlead : lead.all isBlank) (hat : '@' ∉ path)
    (h : Chars.dropEndWhile (· == '/') url.toList = lead ++ (site.toList ++ path)) :
    find? url = some a ↔ ¬ "github.com/".toList <:+: path ∧ ofPath? (String.ofList path) = some a := by
  have hurl :
      (Text.dropEndWhile url (· == '/')).toList = (lead ++ "https://".toList) ++ ("github.com/".toList ++ path) := by
    rw [Text.dropEndWhile, String.toList_ofList, h, append_assoc]
    rfl
  have hfirst : ¬ "github.com/".toList <:+: (lead ++ "https://".toList) ++ "github.com/".toList.dropLast := by
    have hsplit : (lead ++ "https://".toList) ++ "github.com/".toList.dropLast =
        (lead ++ "https".toList) ++ ':' :: "//github.com".toList := by
      rw [append_assoc, append_assoc]
      rfl
    rw [hsplit, infix_append_cons_iff (by decide), not_or]
    refine ⟨fun hbefore => ?_, by decide⟩
    rcases mem_append.mp (hbefore.subset (a := '/') (by decide)) with hslash | hslash
    · exact not_mem_of_blanks hlead rfl hslash
    · exact absurd hslash (by decide)
  have hother : after? "git@github.com:" (Text.dropEndWhile url (· == '/')) = none := by
    refine after?_eq_none fun hinside => ?_
    have hmem := hinside.subset (a := '@') (by decide)
    rw [hurl, mem_append, mem_append, mem_append] at hmem
    rcases hmem with (hmem | hmem) | (hmem | hmem)
    · exact not_mem_of_blanks hlead rfl hmem
    · exact absurd hmem (by decide)
    · exact absurd hmem (by decide)
    · exact hat hmem
  simp only [find?]
  rw [hother, Option.or_none, after?, Text.splitOn, hurl, splitOn_append_separator (by decide) hfirst]
  by_cases hmore : "github.com/".toList <:+: path
  · obtain ⟨p, q, ps, hpieces⟩ := exists_splitOn hmore (by decide)
    rw [hpieces]
    exact iff_of_false (by rintro ⟨⟩) fun honce => honce.1 hmore
  · rw [Chars.splitOn_of_not_infix hmore, and_iff_right hmore]
    rfl

theorem find?_of_login (ho : IsWritten o) (hr : IsWritten r)
    (h : url.toList = "git@github.com:".toList ++ (o ++ '/' :: r)) :
    find? url = ofPath? (String.ofList (o ++ '/' :: r)) := by
  have hslash := hr.not_mem (c := '/') rfl
  have hslash' : '/' ∉ "git@github.com:".toList ++ o := by
    rw [mem_append, not_or]
    exact ⟨by decide, ho.not_mem rfl⟩
  have hurl : Text.dropEndWhile url (· == '/') = url := by
    rw [← String.toList_inj, Text.dropEndWhile, String.toList_ofList, dropEndWhile_eq_self_iff, h]
    intro c hc
    rw [append_cons, ← append_assoc] at hc
    exact hr.last_ne_slash hc
  have hother : after? "github.com/" url = none := by
    by_cases hends : "github.com".toList <:+ o
    · obtain ⟨o', rfl⟩ := hends
      have hsplit : url.toList = ("git@github.com:".toList ++ o') ++ ("github.com/".toList ++ r) := by
        rw [h, toList_mark]
        simp
      have hfirst : ¬ "github.com/".toList <:+: ("git@github.com:".toList ++ o') ++ "github.com/".toList.dropLast :=
        fun hinside => hslash' (by simpa [toList_mark] using hinside.subset (a := '/') (by decide))
      rw [after?, Text.splitOn, hsplit, splitOn_append_separator (by decide) hfirst,
        splitOn_of_not_infix fun hinside => hslash (hinside.subset (by decide))]
      exact ofPath?_eq_none hslash
    · refine after?_eq_none ?_
      rw [h, toList_mark, ← append_assoc, concat_infix_append_cons_iff hslash]
      rintro (hsuffix | hinside)
      · rw [show "git@github.com:".toList = "git@github.com".toList ++ [':'] from rfl, append_assoc,
          singleton_append, suffix_append_cons_iff (by decide)] at hsuffix
        exact hends hsuffix
      · exact hslash' (hinside.subset (by simp))
  simp only [find?]
  rw [hurl, hother, Option.none_or, after?, Text.splitOn, h, splitOn_separator (by decide),
    splitOn_of_not_infix fun hinside => ?_]
  · rfl
  · have hmem := hinside.subset (a := '@') (by decide)
    rw [mem_append, mem_cons] at hmem
    rcases hmem with hmem | hmem | hmem
    · exact ho.not_mem rfl hmem
    · cases hmem
    · exact hr.not_mem rfl hmem

theorem mark_infix_iff (hs : '/' ∉ s) (ht : '/' ∉ t) :
    "github.com/".toList <:+: s ++ '/' :: t ↔ "github.com".toList <:+ s := by
  rw [toList_mark, concat_infix_append_cons_iff ht, or_iff_left fun hinside => hs (hinside.subset (by simp))]

theorem mark_infix_slash_iff (hs : '/' ∉ s) (ht : '/' ∉ t) (hu : '/' ∉ u) :
    "github.com/".toList <:+: s ++ '/' :: (t ++ '/' :: u) ↔ "github.com".toList <:+ t ∨ "github.com".toList <:+ s := by
  rw [← cons_append, ← append_assoc, toList_mark, concat_infix_append_cons_iff hu,
    suffix_append_cons_iff (by decide), ← toList_mark, mark_infix_iff hs ht]

/-! ### Blanks after a path -/

section Blanks

variable {trail : List Char} (htrail : trail.all isBlank = true) (hne : trail ≠ [])

include htrail hne

theorem dropEndWhile_append_blanks (s : List Char) : Chars.dropEndWhile isEndingChar (s ++ trail) = s ++ trail :=
  dropEndWhile_eq_self_iff.mpr fun c hc =>
    isEndingChar_of_isBlank (all_eq_true.mp htrail c (mem_of_mem_getLast? hne hc))

theorem ofPath?_blanks_ne (ho : '/' ∉ a.owner.toList) (hr : '/' ∉ r)
    (hrepository : a.repository.toList = dropEnding r) :
    ofPath? (String.ofList (a.owner.toList ++ '/' :: (r ++ trail))) ≠ some a := by
  have hrest : '/' ∉ r ++ trail := not_mem_append hr (not_mem_of_blanks htrail rfl)
  rw [ofPath?_append_slash ho (by rw [dropEndWhile_append_blanks htrail hne, splitOn_of_not_mem hrest]),
    String.ofList_toList, Ne, some_eq_iff]
  intro hsame
  have hlonger := congrArg List.length (hsame.trans hrepository)
  have hshorter := length_dropEnding_le r
  have hpos := length_pos_iff.mpr hne
  rw [length_append] at hlonger
  omega

theorem ofPath?_slash_blanks_iff (ho : '/' ∉ a.owner.toList) (hr : '/' ∉ r) :
    ofPath? (String.ofList (a.owner.toList ++ '/' :: (r ++ '/' :: trail))) = some a ↔ r = a.repository.toList := by
  have hpieces : Chars.splitOn ['/'] (Chars.dropEndWhile isEndingChar (r ++ '/' :: trail)) = [r, trail] := by
    rw [append_cons, dropEndWhile_append_blanks htrail hne, ← append_cons, splitOn_append,
      splitOn_of_not_mem hr, splitOn_of_not_mem (not_mem_of_blanks htrail rfl)]
    rfl
  rw [ofPath?_append_slash ho hpieces, String.ofList_toList, some_eq_iff]

end Blanks

/-! ### Accepted texts -/

section Accepted

variable {lead tail trail : List Char} (hlead : lead.all isBlank) (htail : tail = [] ∨ tail = ['/'])
  (ho : IsWritten a.owner.toList) (hr : IsWritten r) (hrepository : a.repository.toList = dropEnding r)

include hlead htail ho hr hrepository

theorem find?_of_no_blanks (h : url.toList = lead ++ (site.toList ++ (a.owner.toList ++ '/' :: (r ++ tail)))) :
    find? url = some a ↔ ¬ "github.com".toList <:+ a.owner.toList ∧ endsLikeEnding a.repository = false := by
  have hslash := ho.not_mem (c := '/') rfl
  have hslash' := hr.not_mem (c := '/') rfl
  have hat : '@' ∉ a.owner.toList ++ '/' :: r := by simp [ho.not_mem (c := '@') rfl, hr.not_mem (c := '@') rfl]
  have hurl : Chars.dropEndWhile (· == '/') url.toList = lead ++ (site.toList ++ (a.owner.toList ++ '/' :: r)) := by
    have hassoc : url.toList = (lead ++ (site.toList ++ (a.owner.toList ++ '/' :: r))) ++ tail := by
      rw [h]
      simp
    rw [hassoc, dropEndWhile_append_of_all (by rcases htail with rfl | rfl <;> rfl), dropEndWhile_eq_self_iff]
    intro c hc
    rw [append_cons, ← append_assoc, ← append_assoc] at hc
    exact hr.last_ne_slash hc
  rw [find?_of_site hlead hat hurl, mark_infix_iff hslash hslash',
    ofPath?_names hslash hslash' (hrepository ▸ dropEndWhile_dropEnding r)]

theorem find?_of_blanks (htrail : trail.all isBlank) (hne : trail ≠ [])
    (h : url.toList = lead ++ (site.toList ++ (a.owner.toList ++ '/' :: (r ++ (tail ++ trail))))) :
    find? url = some a ↔ ¬ "github.com".toList <:+ a.owner.toList ∧
      (tail = ['/'] ∧ r = a.repository.toList) ∧ ¬ "github.com".toList <:+ a.repository.toList := by
  have hslash := ho.not_mem (c := '/') rfl
  have hslash' := hr.not_mem (c := '/') rfl
  have hurl : Chars.dropEndWhile (· == '/') url.toList = url.toList := by
    rw [dropEndWhile_eq_self_iff, h]
    intro c hc
    have hassoc : lead ++ (site.toList ++ (a.owner.toList ++ '/' :: (r ++ (tail ++ trail)))) =
        (lead ++ (site.toList ++ (a.owner.toList ++ '/' :: (r ++ tail)))) ++ trail := by simp
    rw [hassoc] at hc
    exact beq_eq_false_iff_ne.mpr fun heq => not_mem_of_blanks htrail rfl (heq ▸ mem_of_mem_getLast? hne hc)
  have hat : '@' ∉ a.owner.toList ++ '/' :: (r ++ (tail ++ trail)) := by
    rcases htail with rfl | rfl <;>
      simp [ho.not_mem (c := '@') rfl, hr.not_mem (c := '@') rfl, not_mem_of_blanks (c := '@') htrail rfl]
  rw [find?_of_site hlead hat (hurl.trans h)]
  rcases htail with rfl | rfl
  · exact iff_of_false (fun hsame => ofPath?_blanks_ne htrail hne hslash hslash' hrepository hsame.2) (by simp)
  · rw [singleton_append, ofPath?_slash_blanks_iff htrail hne hslash hslash',
      mark_infix_slash_iff hslash hslash' (not_mem_of_blanks htrail rfl)]
    grind

end Accepted

/-- **The two readers agree on an accepted text** exactly when the owner's name does not end with the name of the site,
and the repository's name does not end with a letter of the usual ending; where blanks follow, when one slash is between
them and the name itself, which does not end with the name of the site.  The other form of an address is read back
exactly when the repository's name does not end so. -/
theorem find?_eq_parsed_iff (h : parse url = .ok a) :
    (find? url = some a ↔ Text.endsWith a.owner "github.com" = false ∧
      if Text.trimEnd url = url then endsLikeEnding a.repository = false
      else Text.trim url = site ++ a.displayName ++ "/" ∧ Text.endsWith a.repository "github.com" = false) ∧
      ∀ ending ∈ ["", ".git"],
        find? ("git@github.com:" ++ a.displayName ++ ending) = some a ↔ endsLikeEnding a.repository = false := by
  obtain ⟨r, tail, htrim, htail, ho, hr, hrepository⟩ := parse_ok_iff.mp h
  have hends : ∀ s : String, Text.endsWith s "github.com" = false ↔ ¬ "github.com".toList <:+ s.toList := fun s => by
    rw [← Bool.not_eq_true, Text.endsWith, Chars.endsWith_iff]
  obtain ⟨lead, trail, hurl, hlead, htrail⟩ := Chars.exists_trim_append url.toList
  have hend : Text.trimEnd url = url ↔ trail = [] := by
    rw [← String.toList_inj, Text.toList_trimEnd]
    exact Chars.trimEnd_eq_self_iff hurl (by simp [htrim]) htrail
  constructor
  · rw [hends, hends]
    by_cases hnone : trail = []
    · have hblank : Text.trimEnd url = url := hend.mpr hnone
      rw [htrim, hnone, List.append_nil] at hurl
      rw [if_pos hblank, find?_of_no_blanks hlead htail ho.1 hr.1 hrepository hurl]
    · have hblank : Text.trimEnd url ≠ url := mt hend.mp hnone
      have hspelled : Text.trim url = site ++ a.displayName ++ "/" ↔ tail = ['/'] ∧ r = a.repository.toList := by
        rw [← String.toList_inj, Text.toList_trim, htrim]
        have hsame : site.toList ++ (a.owner.toList ++ '/' :: (r ++ tail)) = (site ++ a.displayName ++ "/").toList ↔
            r ++ tail = a.repository.toList ++ ['/'] := by
          simp [displayName]
        rw [hsame]
        rcases htail with rfl | rfl
        · refine iff_of_false (fun heq => hr.1.not_mem (c := '/') rfl ?_) (by simp)
          rw [← List.append_nil r, heq]
          exact List.mem_append_right _ List.mem_cons_self
        · simp
      rw [htrim] at hurl
      rw [if_neg hblank, hspelled, find?_of_blanks hlead htail ho.1 hr.1 hrepository htrail hnone
        (hurl.trans (by simp))]
  · intro ending hending
    have hletters : ending.toList.all isAllowed = true ∧ ending.toList.all isEndingChar = true := by
      rcases List.mem_cons.mp hending with rfl | hending
      · exact ⟨rfl, rfl⟩
      · rw [List.mem_singleton.mp hending]
        exact ⟨rfl, rfl⟩
    have hrest := (isName_of_parse h).2.1.append hletters.1
    have hlogin : ("git@github.com:" ++ a.displayName ++ ending).toList = "git@github.com:".toList ++
        (a.owner.toList ++ '/' :: (a.repository.toList ++ ending.toList)) := by
      simp [displayName, List.append_assoc]
    rw [find?_of_login ho.1 hrest hlogin, ofPath?_names (ho.1.not_mem rfl) (hrest.not_mem rfl)]
    exact Chars.dropEndWhile_append_of_all hletters.2 _

theorem find?_eq_parsed_shop : parse " https://github.com/octo/shop.git/" = .ok ⟨"octo", "shop"⟩ ∧
    find? " https://github.com/octo/shop.git/" = some ⟨"octo", "shop"⟩ ∧
    find? "git@github.com:octo/shop.git" = some ⟨"octo", "shop"⟩ := by
  have haccepted : parse " https://github.com/octo/shop.git/" = .ok ⟨"octo", "shop"⟩ := rfl
  obtain ⟨hsite, hlogin⟩ := find?_eq_parsed_iff haccepted
  have hblank : Text.trimEnd " https://github.com/octo/shop.git/" = " https://github.com/octo/shop.git/" := rfl
  exact ⟨haccepted, hsite.mpr ⟨rfl, by rw [if_pos hblank]; rfl⟩, (hlogin ".git" (by simp)).mpr rfl⟩

/-- The letters of the usual ending are stripped off a name that ends with them. -/
theorem find?_strips_name : parse "https://github.com/octo/digit" = .ok ⟨"octo", "digit"⟩ ∧
    find? "https://github.com/octo/digit" = some ⟨"octo", "d"⟩ ∧
    find? "git@github.com:octo/digit.git" = some ⟨"octo", "d"⟩ := ⟨rfl, rfl, rfl⟩

end CodeAtlas.Address
