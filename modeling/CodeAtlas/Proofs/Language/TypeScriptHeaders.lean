import CodeAtlas.Proofs.Language.KnownClasses
import CodeAtlas.Proofs.Text.Occurrence

/-!
# Headers of TypeScript classes

A header names a class, its base and its interfaces.  Classes that are printed with empty bodies, one on a line, are
read back as they are.
-/

namespace CodeAtlas.TypeScript

open List Chars Pattern

/-! ### Declarations -/

/-- A name other than the keyword that declares interfaces. -/
structure Ident where
  chars : List Char
  isName : IsName chars
  free : chars ≠ "interface".toList

structure Path where
  scopes : List Ident
  last : Ident

structure Decl where
  name : Ident
  base : Option Path
  interfaces : List Path

def Path.text (p : Path) : List Char := join ['.'] (p.scopes.map Ident.chars ++ [p.last.chars])

namespace Decl

variable (d : Decl)

def list : List Char := join [',', ' '] (d.interfaces.map Path.text)

def baseClause : List Char := d.base.elim [] fun b => "extends".toList ++ ([' '] ++ (b.text ++ [' ']))

def interfaceClause : List Char :=
  if d.interfaces.isEmpty then [] else "implements".toList ++ ([' '] ++ (d.list ++ [' ']))

/-- A header up to the brace that opens the body. -/
def front : List Char :=
  "class".toList ++ ([' '] ++ (d.name.chars ++ ([' '] ++ (d.baseClause ++ d.interfaceClause))))

/-- A declaration with nothing in its body, on a line of its own. -/
def text : List Char := d.front ++ "\x7b\x7d\n".toList

end Decl

/-! ### Texts that are put together -/

section

variable {P : List Char → Prop} (hname : ∀ n, IsName n → n ≠ "interface".toList → P n)
  (hdot : ∀ {a b}, P a → P b → P (a ++ (['.'] ++ b)))

include hname hdot

theorem Path.holds (p : Path) : P p.text := by
  refine join_induction hdot (by simp) fun n hn => ?_
  obtain ⟨i, -, rfl⟩ | rfl := by simpa using hn
  · exact hname _ i.isName i.free
  · exact hname _ p.last.isName p.last.free

variable (hcomma : ∀ {a b}, P a → P b → P (a ++ ([',', ' '] ++ b)))

include hcomma

theorem Decl.list_holds {d : Decl} (hd : d.interfaces ≠ []) : P d.list :=
  join_induction hcomma (by simpa using hd) (forall_mem_map.mpr fun p _ => p.holds hname hdot)

/-- **What holds of names and of texts put together holds of a header** with a text after it. -/
theorem Decl.front_holds (d : Decl) (hspace : ∀ {a b}, P a → P b → P (a ++ ([' '] ++ b))) {r : List Char}
    (hrest : P r) : P (d.front ++ r) := by
  have hkey : ∀ s ∈ ["class", "extends", "implements"], P s.toList := by
    have hkeys : ∀ s ∈ ["class", "extends", "implements"], IsName s.toList ∧ s ≠ "interface" := by
      simp only [forall_mem_cons, IsName]
      exact ⟨⟨⟨_, _, rfl, by decide, by decide⟩, by decide⟩, ⟨⟨_, _, rfl, by decide, by decide⟩, by decide⟩,
        ⟨⟨_, _, rfl, by decide, by decide⟩, by decide⟩, by simp⟩
    exact fun s hs => hname _ (hkeys s hs).1 fun h => (hkeys s hs).2 (String.toList_inj.mp h)
  have hinterfaces : P (d.interfaceClause ++ r) := by
    unfold interfaceClause
    split
    · exact hrest
    next hne =>
      have hlist := list_holds hname hdot hcomma (d := d) (by simpa using hne)
      simpa using hspace (hkey "implements" (by simp)) (hspace hlist hrest)
  have hbase : P (d.baseClause ++ (d.interfaceClause ++ r)) := by
    unfold baseClause
    cases d.base with
    | none => exact hinterfaces
    | some b => simpa using hspace (hkey "extends" (by simp)) (hspace (b.holds hname hdot) hinterfaces)
  simpa [front] using hspace (hkey "class" (by simp)) (hspace (hname _ d.name.isName d.name.free) hbase)

end

/-! ### What the pattern of classes takes -/

/-- A text that starts like a name and goes on with characters of a class. -/
def Named (q : Char → Bool) (w : List Char) : Prop := ∃ c cs, w = c :: cs ∧ isNameStart c = true ∧ ∀ d ∈ cs, q d = true

section

variable {q : Char → Bool} {a b w rest : List Char} {before : Option Char}

theorem Named.append (ha : Named q a) (hb : ∀ c ∈ b, q c) : Named q (a ++ b) := by
  obtain ⟨c, cs, rfl, hc, hcs⟩ := ha
  exact ⟨c, cs ++ b, rfl, hc, forall_mem_append.mpr ⟨hcs, hb⟩⟩

theorem Named.divide {sep : List Char} (hq : ∀ c, isNameChar c → q c) (hsep : ∀ c ∈ sep, q c)
    (ha : Named q a) (hb : Named q b) : Named q (a ++ (sep ++ b)) := by
  obtain ⟨c, cs, rfl, hc, hcs⟩ := hb
  have hstart : isNameChar c := by
    simp only [isNameStart, isNameChar, Bool.or_eq_true] at hc ⊢
    exact hc.imp_left .inl
  exact ha.append (forall_mem_append.mpr ⟨hsep, forall_mem_cons.mpr ⟨hq c hstart, hcs⟩⟩)

theorem named_of_isName (hq : ∀ c, isNameChar c → q c) (hw : IsName w) : Named q w := by
  obtain ⟨c, cs, rfl, hc, hcs⟩ := hw
  exact ⟨c, cs, rfl, hc, fun d hd => hq d (hcs d hd)⟩

theorem Named.takes (hw : Named q w) (hrest : ∀ c ∈ rest.head?, q c = false) :
    (name isStart q).Takes before w rest [] := by
  obtain ⟨c, cs, rfl, hc, hcs⟩ := hw
  exact takes_name (by simp [isStart, hc]) hcs hrest

theorem Named.takes_space (hw : Named q w) : blanks1.Takes before [' '] (w ++ rest) [] := by
  obtain ⟨c, cs, rfl, hc, -⟩ := hw
  have hsolid := (IsName.isWord ⟨c, [], rfl, hc, by simp⟩).solid c mem_cons_self
  exact takes_name rfl (by simp) (by simpa using hsolid)

end

theorem isPart_of_isNameChar {c : Char} (h : isNameChar c) : isPart c := by
  simp [isPart, h]

namespace Decl

variable (d : Decl) (rest : List Char) {before : Option Char}

def baseGroups : Groups := d.base.elim [] fun b => [(2, b.text)]

def interfaceGroups : Groups := if d.interfaces.isEmpty then [] else [(3, d.list ++ [' '])]

/-- The texts that are kept of a header, the latest first. -/
def groups : Groups := d.interfaceGroups ++ d.baseGroups ++ [(1, d.name.chars)]

theorem head?_interfaceClause : ∀ c ∈ (d.interfaceClause ++ '\x7b' :: rest).head?, isBlank c = false ∧ c ≠ 'e' := by
  unfold interfaceClause
  split <;> simp <;> decide

theorem head?_baseClause :
    ∀ c ∈ (d.baseClause ++ (d.interfaceClause ++ '\x7b' :: rest)).head?, isBlank c = false := by
  unfold baseClause
  cases d.base with
  | none => exact fun c hc => (d.head?_interfaceClause rest c hc).1
  | some b => simp; decide

theorem takes_interfaces : (Pattern.all [maybe (all [word "implements", blanks1, group 3 wordList]), blanks,
    char '\x7b']).Takes before (d.interfaceClause ++ ['\x7b']) rest d.interfaceGroups := by
  have hbrace : ∀ before, (seq blanks (char '\x7b')).Takes before ['\x7b'] rest [] :=
    fun _ => .next (u := []) (takes_many (by simp) (by simp; decide)) (takes_one rfl)
  unfold interfaceClause interfaceGroups
  split
  · exact .next (u := []) (takes_maybe_nil (c := 'i') (by simp)) (hbrace _)
  next hne =>
    have hq : ∀ c, isNameChar c → (isPart c || c == ',' || isBlank c || c == '.') :=
      fun c hc => by simp [isPart_of_isNameChar hc]
    have hlist := list_holds (fun _ h _ => named_of_isName hq h) (.divide hq (by decide)) (.divide hq (by decide))
      (by simpa using hne)
    have hnamed := hlist.append (b := [' ']) (by decide)
    refine .seq (h := []) (.maybe (.next (takes_chars _ _) (.next hnamed.takes_space (.group 3 ?_)))) (hbrace _)
    exact hnamed.takes (by simp; decide)

theorem takes_clauses : (Pattern.all [maybe (all [word "extends", blanks1,
    group 2 (Pattern.name isStart fun c => isPart c || c == '.')]), blanks,
    maybe (all [word "implements", blanks1, group 3 wordList]), blanks, char '\x7b']).Takes
      before (d.baseClause ++ (d.interfaceClause ++ ['\x7b'])) rest (d.interfaceGroups ++ d.baseGroups) := by
  have hhead := d.head?_interfaceClause rest
  have hskip : ∀ c ∈ (d.interfaceClause ++ ['\x7b'] ++ rest).head?, isBlank c = false := by
    simpa using fun c hc => (hhead c hc).1
  unfold baseClause baseGroups
  cases d.base with
  | none =>
    refine .seq (u := []) (takes_maybe_nil (c := 'e') ?_)
      (.next (u := []) (takes_many (by simp) hskip) (d.takes_interfaces rest))
    simpa using fun c hc => (hhead c hc).2
  | some b =>
    have hq : ∀ c, isNameChar c → (isPart c || c == '.') := fun c hc => by simp [isPart_of_isNameChar hc]
    have hnamed := b.holds (fun _ h _ => named_of_isName hq h) (.divide hq (by decide))
    have htext : "extends".toList ++ ([' '] ++ (b.text ++ [' '])) ++ (d.interfaceClause ++ ['\x7b']) =
        ("extends".toList ++ ([' '] ++ b.text)) ++ ([' '] ++ (d.interfaceClause ++ ['\x7b'])) := by simp
    rw [Option.elim_some, htext]
    refine .seq (.maybe (.next (takes_chars _ _) (.next hnamed.takes_space (.group 2 (hnamed.takes ?_)))))
      (.next (takes_many (by decide) hskip) (d.takes_interfaces rest))
    simp; decide

/-- **A header is taken as it is meant.** -/
theorem takes_front (hbefore : ∀ c ∈ before, isWordChar c = false) :
    classPattern.Takes before (d.front ++ ['\x7b']) rest d.groups := by
  have hname : Named isPart d.name.chars := named_of_isName (fun _ => isPart_of_isNameChar) d.name.isName
  rw [front, append_assoc, append_assoc, append_assoc, append_assoc, append_assoc]
  refine .next (u := []) (takes_boundary (c := 'c') hbefore (by decide)) (.next (takes_chars _ _) (.next ?_ ?_))
  · rw [append_assoc]
    exact hname.takes_space
  · refine .seq (.group 1 (hname.takes (by simp; decide))) (.next (takes_many (by decide) ?_) (d.takes_clauses rest))
    simpa using d.head?_baseClause rest

theorem mem_front {p : Char → Bool} (hname : ∀ c, isNameChar c → p c) (hdot : p '.')
    (hcomma : p ',') (hspace : p ' ') : ∀ c ∈ d.front, p c := by
  have hfront := d.front_holds (P := fun s => ∀ c ∈ s, p c = true) (fun n hn _ c hc => hname c (hn.isNameChar c hc))
    (by simp +contextual [or_imp, hdot]) (by simp +contextual [or_imp, hcomma, hspace])
    (by simp +contextual [or_imp, hspace])
    (r := []) (by simp)
  simpa using hfront

theorem body?_front : Braces.body? (d.front ++ ['\x7b'] ++ '\x7d' :: rest) = some ['\x7b', '\x7d'] := by
  have hfront : ∀ c ∈ d.front, (c != '\x7b') := by
    refine d.mem_front (fun c hc => bne_iff_ne.mpr ?_) rfl rfl rfl
    rintro rfl
    cases hc
  rw [Braces.body?, append_assoc, dropWhile_append_of_pos hfront]
  rfl

end Decl

/-- **Each header is matched, in order, and nothing else is.** -/
theorem matches_text (ds : List Decl) {resume pos : Nat} (hpos : resume ≤ pos) {before : Option Char}
    (hbefore : ∀ c ∈ before, isWordChar c = false) :
    (classPattern.findAllFrom resume before pos (ds.flatMap Decl.text)).map (fun m => (m.groups, bodyOf m)) =
      ds.map fun d => (d.groups, ['\x7b', '\x7d']) := by
  induction ds generalizing resume pos before with
  | nil => rfl
  | cons d ds ih =>
    have hskip : ∀ (c : Char) (cs : List Char) before pos, c ≠ 'c' →
        classPattern.matchAt ⟨before, pos, c :: cs⟩ = none := by
      intro c cs before pos hc
      simp [matchAt, classPattern, Pattern.all, run, word, char, hc]
    have htext : (d :: ds).flatMap Decl.text = d.front ++ ['\x7b'] ++ '\x7d' :: '\n' :: ds.flatMap Decl.text := by
      simp [Decl.text]
    rw [htext, (d.takes_front _ hbefore).findAllFrom (by simp) hpos, map_cons]
    refine congrArg₂ _ ?_ ?_
    · simp only [bodyOf, d.body?_front, Option.getD_some]
    · rw [findAllFrom, if_neg (by omega), hskip _ _ _ _ (by decide)]
      rw [findAllFrom, if_neg (by omega), hskip _ _ _ _ (by decide)]
      refine ih (by omega) fun c hc => ?_
      cases hc
      decide

/-! ### Nothing else is found -/

/-- No name in a text is the keyword that declares interfaces. -/
def Lacks (s : List Char) : Prop := "interface".toList ∉ splitWhere (!isNameChar ·) s

theorem lacks_of_ne {n : List Char} (hn : ∀ c ∈ n, isNameChar c) (hne : n ≠ "interface".toList) : Lacks n := by
  have hsplit : splitWhere (!isNameChar ·) n = [n] := splitWhere_of_all (by simpa using hn)
  rw [Lacks, hsplit, mem_singleton]
  exact hne.symm

theorem Lacks.append {a b : List Char} {c : Char} (hc : isNameChar c = false) (ha : Lacks a) (hb : Lacks b) :
    Lacks (a ++ c :: b) := by
  rw [Lacks, splitWhere_append_cons (by simpa using hc), mem_append, not_or]
  exact ⟨ha, hb⟩

theorem lacks_text (ds : List Decl) : Lacks (ds.flatMap Decl.text) := by
  have hnil : Lacks [] := lacks_of_ne (by simp) (by decide)
  induction ds with
  | nil => exact hnil
  | cons d ds ih =>
    rw [flatMap_cons, Decl.text, append_assoc]
    refine d.front_holds (fun n hn => lacks_of_ne hn.isNameChar) (.append rfl) ?_ (.append rfl) ?_
    · exact fun ha hb => ha.append rfl (hnil.append (c := ' ') rfl hb)
    · exact hnil.append (c := '\x7b') rfl (hnil.append (c := '\x7d') rfl (hnil.append (c := '\n') rfl ih))

theorem interfaces_text (ds : List Decl) : interfacePattern.findAll (ds.flatMap Decl.text) = [] := by
  refine eq_nil_iff_forall_not_mem.mpr fun m hm => ?_
  obtain ⟨u, w, v, hcs, hfirst, -, hw⟩ := exists_spells_of_mem_findAll hm
  obtain ⟨_, _, _, _, ⟨hboundary, rfl, rfl⟩, hw, rfl, -⟩ := hw
  obtain ⟨_, _, _, _, hkey, hw, rfl, -⟩ := hw
  obtain ⟨rfl, rfl⟩ := spells_word_iff.mp hkey
  obtain ⟨_, t, _, _, ⟨_, t', _, _, ⟨⟨c, hc, rfl⟩, -⟩, -, rfl, -⟩, -, rfl, -⟩ := hw
  have hsep : isNameChar c = false := Bool.eq_false_iff.mpr fun h => by simp [not_isBlank_of_isNameChar h] at hc
  have hmem : "interface".toList ∈ splitWhere (!isNameChar ·) ("interface".toList ++ c :: (t' ++ (t ++ v))) := by
    rw [splitWhere_append_cons (by simpa using hsep)]
    exact mem_append_left _ (by decide)
  refine lacks_text ds ?_
  rw [hfirst] at hboundary
  rw [hcs] at hboundary ⊢
  rcases eq_nil_or_concat u with rfl | ⟨u, d, rfl⟩
  · simpa using hmem
  · have hd : isNameChar d = false := by
      refine Bool.eq_false_iff.mpr fun hname => ?_
      have hi : isWordChar 'i' := by decide
      simp [Place.isBoundary, Place.after, Place.start, hi, isWordChar_of_isNameChar hname] at hboundary
    rw [concat_eq_append, append_assoc, singleton_append, splitWhere_append_cons (by simpa using hd)]
    exact mem_append_right _ (by simpa using hmem)

theorem modules_text (ds : List Decl) :
    requirePattern.findAll (ds.flatMap Decl.text) ++ importPattern.findAll (ds.flatMap Decl.text) = [] := by
  have hplain : ∀ c ∈ ds.flatMap Decl.text, (c != '(' && !isQuote c) := by
    refine forall_mem_flatMap.mpr fun d _ => forall_mem_append.mpr ⟨d.mem_front (fun c hc => ?_) rfl rfl rfl, by decide⟩
    by_contra hplain
    have hcases : c = '(' ∨ c = '"' ∨ c = '\x27' := by
      simp [isQuote] at hplain
      tauto
    rcases hcases with rfl | rfl | rfl <;> cases hc
  refine append_eq_nil_iff.mpr
    ⟨eq_nil_iff_forall_not_mem.mpr fun m hm => ?_, eq_nil_iff_forall_not_mem.mpr fun m hm => ?_⟩
  · obtain ⟨u, w, v, hcs, -, -, hw⟩ := exists_spells_of_mem_findAll hm
    obtain ⟨_, _, _, _, hkey, -, rfl, -⟩ := hw
    obtain ⟨rfl, -⟩ := spells_word_iff.mp hkey
    exact absurd (hplain '(' (by simp [hcs])) (by decide)
  · obtain ⟨u, w, v, hcs, -, -, hw⟩ := exists_spells_of_mem_findAll hm
    obtain ⟨_, _, _, _, -,
      ⟨_, _, _, _, -, ⟨_, _, _, _, -, ⟨_, _, _, _, -, ⟨_, _, _, _, -, ⟨_, _, _, _, -, hw, rfl, -⟩, rfl, -⟩,
      rfl, -⟩, rfl, -⟩, rfl, -⟩, rfl, -⟩ := hw
    obtain ⟨_, _, _, _, ⟨⟨c, hc, rfl⟩, -⟩, -, rfl, -⟩ := hw
    have hmem := hplain c (by simp [hcs])
    simp [hc] at hmem

/-! ### What is read -/

def Path.part (p : Path) : String := String.ofList p.last.chars

theorem Path.lastPart_text (p : Path) : TypeName.lastPart (String.ofList p.text) "." = p.part := by
  have hdot : '.' ∉ p.last.chars := fun hmem => by cases p.last.isName.isNameChar '.' hmem
  rw [TypeName.lastPart, Path.text, Text.getLastD_splitOn_join rfl, splitOn_of_not_mem hdot]
  rfl

theorem Path.part_ne (p : Path) : p.part ≠ "" := by
  obtain ⟨c, cs, hchars, -⟩ := p.last.isName
  simp [part, hchars]

theorem Path.isTight (p : Path) : IsTight p.text :=
  p.holds (fun _ hn _ => hn.isWord.isTight) fun ha hb => append_assoc .. ▸ ha.append ['.'] hb

theorem isTight_join {ps : List Path} (hne : ps ≠ []) : IsTight (join [',', ' '] (ps.map Path.text)) :=
  .join (by simpa using hne) (forall_mem_map.mpr fun p _ => p.isTight)

/-- **A list of names is cut at its commas.** -/
theorem cuts_join (p : Path) (ps : List Path) :
    commaPattern.Cuts (join [',', ' '] ((p :: ps).map Path.text)) p.text (ps.map Path.text) := by
  have hchars : ∀ p : Path, ∀ c ∈ p.text, ∀ t before pos, commaPattern.matchAt ⟨before, pos, c :: t⟩ = none := by
    intro p c hc t before pos
    have hsolid : ∀ c ∈ p.text, isBlank c = false ∧ c ≠ ',' := by
      refine p.holds (P := fun s => ∀ c ∈ s, isBlank c = false ∧ c ≠ ',') (fun n hn _ c hc => ?_) ?_
      · refine ⟨not_isBlank_of_isNameChar (hn.isNameChar c hc), ?_⟩
        rintro rfl
        cases hn.isNameChar _ hc
      · exact fun ha hb => forall_mem_append.mpr ⟨ha, forall_mem_append.mpr ⟨by decide, hb⟩⟩
    obtain ⟨hblank, hcomma⟩ := hsolid c hc
    simp [matchAt, commaPattern, Pattern.all, run, runMany, blanks, char, hblank, hcomma]
  induction ps generalizing p with
  | nil => simpa [join] using (Cuts.nil commaPattern).append (hchars p)
  | cons p' ps ih =>
    have htakes : ∀ before, commaPattern.Takes before [',', ' '] (join [',', ' '] ((p' :: ps).map Path.text)) [] := by
      intro before
      obtain ⟨⟨c, t, htext, hc⟩, -⟩ := isTight_join (cons_ne_nil p' ps)
      rw [htext]
      exact .next (u := []) (takes_many (by simp) (by simp; decide))
        (.next (u := [',']) (takes_one rfl) (takes_many (by decide) (by simpa using hc)))
    rw [map_cons, join_cons _ _ (by simp), append_assoc]
    simpa using ((ih p').taken htakes (by simp)).append (hchars p)

def addRelations (f : Findings) (rs : List Relation) : Findings := { f with relations := f.relations ++ rs }

namespace Decl

def entry (package : String) (d : Decl) : ClassEntry :=
  { name := String.ofList d.name.chars, package := packageOr package }

/-- The relation of a class to a class or an interface of its header. -/
def relation (d : Decl) (kind : String) (p : Path) : Relation :=
  ⟨p.part, String.ofList d.name.chars, kind, some "heuristic"⟩

def relations (d : Decl) : List Relation :=
  d.base.toList.map (d.relation "extends") ++ d.interfaces.map (d.relation "implements")

def note (f : Findings) (d : Decl) : Findings := addRelations (f.addClass (String.ofList d.name.chars)) d.relations

theorem addAll_list {d : Decl} (hne : d.interfaces ≠ []) (f : Findings) (kind : String) :
    addAll f (String.ofList (d.list ++ [' '])) (String.ofList d.name.chars) kind =
      addRelations f (d.interfaces.map (d.relation kind)) := by
  have hsplit :
      commaPattern.split (Chars.trim (String.ofList (d.list ++ [' '])).toList) = d.interfaces.map Path.text := by
    rw [String.toList_ofList, trim_append_of_blank rfl, list, (isTight_join hne).trim_eq]
    obtain ⟨p, ps, hps⟩ := exists_cons_of_ne_nil hne
    rw [hps]
    exact (cuts_join p ps).split_eq
  rw [addAll, hsplit]
  generalize d.interfaces = ps
  induction ps generalizing f with
  | nil => simp [addRelations]
  | cons p ps ih =>
    rw [map_cons, foldl_cons, p.lastPart_text]
    rw [if_neg (by simpa using p.part_ne), ih]
    simp [Findings.addRelation, addRelations, relation]

end Decl

theorem classEntry_eq (package : String) {m : Match} {d : Decl} (hgroups : m.groups = d.groups)
    (hbody : bodyOf m = ['\x7b', '\x7d']) (f : Findings) : classEntry package m f = (d.entry package, d.note f) := by
  obtain ⟨hname, hbase, hinterfaces⟩ : m.text 1 = String.ofList d.name.chars ∧
      m.group? 2 = d.base.map (fun b => String.ofList b.text) ∧
      m.group? 3 = if d.interfaces.isEmpty then none else some (String.ofList (d.list ++ [' '])) := by
    simp only [Match.text, Match.group?, hgroups, Decl.groups, Decl.interfaceGroups, Decl.baseGroups]
    cases d.base <;> split <;> simp
  have hcode : ∀ cls f, codeFindings ['\x7b', '\x7d'] cls (declaredFields ['\x7b', '\x7d']) f = ([], f) :=
    fun _ _ => rfl
  have hextends : ∀ g : Findings, (m.group? 2).elim g (fun base => g.addRelation (TypeName.lastPart base ".")
      (String.ofList d.name.chars) "extends") = addRelations g (d.base.toList.map (d.relation "extends")) := by
    intro g
    rw [hbase]
    cases d.base <;> simp [Findings.addRelation, Path.lastPart_text, addRelations, Decl.relation]
  have himplements : ∀ g : Findings, (m.group? 3).elim g (fun names => addAll g names (String.ofList d.name.chars)
      "implements") = addRelations g (d.interfaces.map (d.relation "implements")) := by
    intro g
    rw [hinterfaces]
    by_cases hnone : d.interfaces = []
    · simp [hnone, addRelations]
    · rw [if_neg (by simpa using hnone), Option.elim_some, Decl.addAll_list hnone]
  have hset : Text.ascendingSet [] = [] := by simp [Text.ascendingSet, Text.ascending, Text.dropRepeats]
  have hmethods : methods ['\x7b', '\x7d'] = [] := hset
  simp only [classEntry, hbody, hname, hcode, hmethods, hset, hextends, himplements]
  simp only [Decl.note, Decl.relations, addRelations, append_assoc]
  rfl

theorem readEach_text {ds : List Decl} {ms : List Match} (package : String) (f : Findings)
    (h : ms.map (fun m => (m.groups, bodyOf m)) = ds.map fun d => (d.groups, ['\x7b', '\x7d'])) :
    Findings.readEach (some <| classEntry package ·) ms f = (ds.map (Decl.entry package), ds.foldl Decl.note f) := by
  induction ds generalizing ms f with
  | nil =>
    rw [map_eq_nil_iff.mp h]
    rfl
  | cons d ds ih =>
    obtain ⟨m, ms, rfl, hm, hms⟩ := map_eq_cons_iff.mp h
    obtain ⟨hgroups, hbody⟩ := Prod.mk.injEq .. ▸ hm
    simp only [Findings.readEach, classEntry_eq package hgroups hbody, ih _ hms]
    rfl

theorem foldl_note (ds : List Decl) (f : Findings) : ds.foldl Decl.note f =
    { f with classNames := ds.foldl (fun ns d => Text.insertAscending (String.ofList d.name.chars) ns) f.classNames
             relations := f.relations ++ ds.flatMap Decl.relations } := by
  induction ds generalizing f with
  | nil => simp
  | cons d ds ih => simp [ih, Decl.note, addRelations, Findings.addClass]

/-- **Declarations are read back**: each class is listed, in order and without members, and all that is found are these
classes and, in order, their bases and interfaces. -/
theorem classes_text (ds : List Decl) (package : String) :
    classes (String.ofList (ds.flatMap Decl.text)) package {} = (ds.map (Decl.entry package),
      { classNames := ds.foldl (fun ns d => Text.insertAscending (String.ofList d.name.chars) ns) []
        relations := ds.flatMap Decl.relations }) := by
  have hmatches := @matches_text ds 0 0 (Nat.le_refl 0) none (by simp)
  simp only [classes, String.toList_ofList, modules_text, interfaces_text, Findings.readEach, foldl_nil, map_nil,
    nil_append]
  rw [findAll, readEach_text package {} hmatches, foldl_note]
  rfl

end CodeAtlas.TypeScript
