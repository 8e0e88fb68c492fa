import CodeAtlas.Proofs.Diagram.Blocks
import CodeAtlas.Proofs.Diagram.DeclaredBeforeUse

/-!
# The blocks of class diagrams

A class diagram declares every class in a block of its own.  Where what a schema holds has no line breaks and braces,
the blocks of its diagram are in turns; and they are so in the text that is written, unless the diagram is too large and
is cut in a block.

* **`drawSchema_inTurns`**: the text of a class diagram.
-/

namespace CodeAtlas

open List Text Value SizeLimit

open Loose (of_bind of_pure)

/-! ### Tidy texts -/

namespace Text

def isTidy (s : String) : Bool := s.toList.all fun c => !isLineBreak c && c != '\x7b' && c != '\x7d'

variable {a b s : String}

@[simp] theorem isTidy_append (a b : String) : isTidy (a ++ b) = (isTidy a && isTidy b) := by
  rw [isTidy, String.toList_append, all_append]
  rfl

theorem isTidy_of_subset (hb : isTidy b) (h : a.toList ⊆ b.toList) : isTidy a :=
  all_eq_true.mpr fun c hc => all_eq_true.mp hb c (h hc)

theorem isOneLine_of_isTidy (h : isTidy s) : isOneLine s := by
  refine Chars.isOneLine_iff.mpr fun c hc => ?_
  have hchar := all_eq_true.mp h c hc
  simp only [Bool.and_eq_true, Bool.not_eq_true'] at hchar
  exact hchar.1.1

theorem not_mem_of_isTidy (h : isTidy s) : '\x7b' ∉ s.toList ∧ '\x7d' ∉ s.toList := by
  refine ⟨fun hmem => ?_, fun hmem => ?_⟩
  · exact absurd (all_eq_true.mp h _ hmem) (by decide)
  · exact absurd (all_eq_true.mp h _ hmem) (by decide)

theorem isBracket_of_isTidy (h : isTidy s) : Block.isBracket s = false := by
  obtain ⟨hopen, hclose⟩ := not_mem_of_isTidy h
  refine Block.isBracket_eq_false_iff.mpr ⟨?_, ?_⟩
  · rw [← Bool.not_eq_true]
    intro hopens
    exact hopen ((Chars.endsWith_iff.mp hopens).subset (by decide))
  · rw [← Bool.not_eq_true]
    intro hcloses
    rw [beq_iff_eq.mp hcloses] at hclose
    exact hclose (by decide)

end Text

/-! ### Tidy values -/

namespace Value

/-- Whether a value is written without line breaks and braces. -/
def isTidy (v : Value) : Bool := Text.isTidy v.display

/-- Whether what a record holds under some keys is written without line breaks and braces. -/
def isTidyAt (keys : List String) (v : Value) : Bool := keys.all fun k => (v.part k).isTidy

/-- Whether all parts that iteration goes through have a property. -/
def allItems (p : Value → Bool) (v : Value) : Bool := (v.items.toOption.getD []).all p

variable {v w d x : Value} {key : String} {p : Value → Bool} {xs : List Value}

theorem allItems_of_mem (hv : v.allItems p) (hitems : v.items = .ok xs) (hx : x ∈ xs) : p x := by
  rw [allItems, hitems] at hv
  exact all_eq_true.mp hv x hx

theorem eq_part_of_getD (h : v.getD key d = .ok w) : w = d ∨ w = v.part key := by
  rw [getD_eq_field? (isRecord_of_getD h)] at h
  cases h
  cases hfield : v.field? key with
  | none => exact .inl rfl
  | some u => exact .inr (part_of_field? hfield).symm

theorem eq_part_of_firstOf (h : v.firstOf [key] d = .ok w) : w = d ∨ w = v.part key := by
  obtain ⟨u, hu, h⟩ := of_bind h
  split at h
  · cases h
    exact .inr (part_of_get hu).symm
  · exact .inl (Except.ok.inj h).symm

theorem isTidy_of_getD {keys : List String} (hv : v.isTidyAt keys) (hkey : key ∈ keys) (hd : d.isTidy)
    (h : v.getD key d = .ok w) : w.isTidy := by
  rcases eq_part_of_getD h with rfl | rfl
  · exact hd
  · exact all_eq_true.mp hv key hkey

theorem isRecord_of_isTidy (h : v.isTidy) : v.isRecord = false := by
  cases v with
  | atom a => rfl
  | list xs => rfl
  | record fs =>
    have hmem : '\x7b' ∈ (Value.record fs).display.toList := by
      rw [display, nested, String.toList_append, String.toList_append]
      · exact mem_append_left _ (mem_append_left _ (by decide))
      · intro s hs
        cases hs
    exact absurd hmem (not_mem_of_isTidy h).1

theorem isTidy_numeral {s : String} (h : s.toList ⊆ numeralChars) : Text.isTidy s := by
  have hchars : Text.isTidy (String.ofList numeralChars) := by decide
  refine isTidy_of_subset hchars ?_
  rwa [String.toList_ofList]

theorem isTidy_atom {a : Atom} (h : ∀ s, a = .text s → Text.isTidy s) : (atom a).isTidy := by
  cases a with
  | null => decide
  | bool b => cases b <;> decide
  | int n => exact isTidy_numeral (int_subset n)
  | float y => exact isTidy_numeral y.text_subset
  | text s => exact h s rfl

end Value

namespace ClassDiagram

/-- A class whose names and members have no line breaks and braces. -/
def isTidyClass (cls : Value) : Bool :=
  cls.isTidyAt ["class", "package", "namespace"] &&
    ["fields", "methods", "values"].all fun k => (cls.part k).allItems Value.isTidy

/-- A relation whose label and multiplicities have no line breaks and braces. -/
def isTidyRelation (relation : Value) : Bool :=
  relation.isTidyAt ["label", "multiplicity_from", "multiplicity_to"] &&
    (relation.part "multiplicity").isTidyAt ["from", "to"]

/-- A schema whose classes and relations have no line breaks and braces. -/
def isTidySchema (schema : Value) : Bool :=
  Schema.languages.all (fun l => (schema.part l).allItems isTidyClass) &&
    (schema.part "relations").allItems isTidyRelation

end ClassDiagram

/-! ### Lines with blocks in turns -/

structure Line.InTurns (ls : List Line) : Prop where
  oneLine : ∀ l ∈ ls, Text.isOneLine l.text = true
  read : Block.after? false (ls.map Line.text) = some false

namespace Line.InTurns

variable {a b : List Line}

theorem append (ha : InTurns a) (hb : InTurns b) : InTurns (a ++ b) := by
  refine ⟨forall_mem_append.mpr ⟨ha.oneLine, hb.oneLine⟩, ?_⟩
  rw [map_append]
  exact Block.after?_append_eq_some.mpr ⟨false, ha.read, hb.read⟩

theorem of_isTidy (h : ∀ l ∈ a, Text.isTidy l.text) : InTurns a := by
  refine ⟨fun l hl => isOneLine_of_isTidy (h l hl), Block.after?_of_quiet fun s hs => ?_⟩
  obtain ⟨l, hl, rfl⟩ := mem_map.mp hs
  exact isBracket_of_isTidy (h l hl)

theorem flatten {parts : List (List Line)} (h : ∀ p ∈ parts, InTurns p) : InTurns parts.flatten := by
  induction parts with
  | nil => exact of_isTidy (by simp)
  | cons p parts ih =>
    rw [forall_mem_cons] at h
    exact h.1.append (ih h.2)

/-- A line that is set in does not close the diagram, whatever stands on it. -/
theorem isInner_inner {t : String} (ht : Text.isTidy t) : Block.isInner (inner (plain t)).text := by
  have htidy : Text.isTidy (inner (plain t)).text := by
    rw [text, text, isTidy_append, ht]
    rfl
  refine Block.isInner_iff.mpr ⟨isBracket_of_isTidy htidy, fun heq => ?_⟩
  have hchars := congrArg String.toList heq
  rw [text, text, String.toList_append] at hchars
  cases hchars

theorem block {l : Line} (hl : Text.isOneLine l.text) (hopens : Block.opens l.text)
    (h : ∀ m ∈ a, ∃ t, m = inner (plain t) ∧ Text.isTidy t) : InTurns (l :: a ++ [plain "\x7d"]) := by
  have hinner : ∀ m ∈ a, Block.isInner m.text ∧ Text.isOneLine m.text := by
    intro m hm
    obtain ⟨t, rfl, ht⟩ := h m hm
    refine ⟨isInner_inner ht, ?_⟩
    rw [text, text, Text.isOneLine_append, isOneLine_of_isTidy ht]
    rfl
  refine ⟨?_, ?_⟩
  · simp only [forall_mem_append, forall_mem_cons]
    exact ⟨⟨hl, fun m hm => (hinner m hm).2⟩, by decide, by simp⟩
  · rw [map_append, map_cons]
    refine Block.after?_block hopens fun s hs => ?_
    obtain ⟨m, hm, rfl⟩ := mem_map.mp hs
    exact (hinner m hm).1

end Line.InTurns

namespace ClassDiagram

variable {style : Style} {schema cls lang relation : Value} {l : Line} {ls : List Line} {t : String}

/-! ### Members -/

theorem isTidy_textLine {member : String} (h : textLine? style member = some t) (hmember : Text.isTidy member) :
    Text.isTidy t := by
  obtain ⟨v, rest, rfl, hrest⟩ := exists_of_textLine? h
  rw [isTidy_append, isTidy_append, isTidy_of_subset hmember hrest]
  cases v <;> decide

theorem isTidy_of_textFor {m : Value} {name s : String} (hm : m.isTidy) (h : m.textFor name = .ok s) :
    Text.isTidy s := by
  unfold textFor at h
  split at h
  · cases h
    exact hm
  · cases h

theorem MemberText.isTidy (hcls : isTidyClass cls) (h : MemberText style cls t) : Text.isTidy t := by
  obtain ⟨_, hlists⟩ := (Bool.and_eq_true _ _).mp hcls
  have hitem : ∀ {key : String} {v m : Value} {items : List Value}, key ∈ ["fields", "methods", "values"] →
      v = .list [] ∨ v = cls.part key → v.items = .ok items → m ∈ items → m.isTidy = true := by
    intro key v m items hkey hv hitems hm
    rcases hv with rfl | rfl
    · cases hitems
      cases hm
    · exact allItems_of_mem (all_eq_true.mp hlists key hkey) hitems hm
  cases h with
  | field hfields hitems hm ht =>
    have hm := hitem (by decide) (eq_part_of_getD hfields) hitems hm
    rw [memberLine?, isRecord_of_isTidy hm] at ht
    obtain ⟨s, hs, ht⟩ := of_bind ht
    exact isTidy_textLine (of_pure ht) (isTidy_of_textFor hm hs)
  | method hmethods hitems hm ht =>
    have hm := hitem (by decide) (eq_part_of_getD hmethods) hitems hm
    rw [methodLine?, isRecord_of_isTidy hm] at ht
    obtain ⟨s, hs, ht⟩ := of_bind ht
    exact isTidy_textLine (of_pure ht) (isTidy_of_textFor hm hs)
  | value hvalues hitems hv => exact hitem (by decide) (eq_part_of_firstOf hvalues) hitems hv
  | divider => decide

/-! ### Classes -/

theorem isTidy_packageLines {name package : Value} (hname : name.isTidy) (hpackage : package.isTidy)
    (hl : l ∈ packageLines name package) : Text.isTidy l.text := by
  unfold packageLines at hl
  split at hl
  · simp only [mem_cons, not_mem_nil, or_false] at hl
    rcases hl with rfl | rfl | rfl
    · rw [Line.text, isTidy_append, show Text.isTidy name.display = true from hname]
      decide
    · rw [Line.text, Line.text, isTidy_append, isTidy_append,
        show Text.isTidy package.display = true from hpackage]
      decide
    · decide
  · cases hl

theorem opens_head (shape : Shape) (name : String) :
    Block.opens (Line.declares shape.declarator name (shape.mark ++ " \x7b")).text := by
  refine Chars.endsWith_iff.mpr ?_
  rw [Line.text, ← String.append_assoc, String.toList_append]
  exact List.IsSuffix.trans (by decide) (suffix_append _ _)

/-- **A tidy class is declared in a block.** -/
theorem inTurns_classLines (hcls : isTidyClass cls) (h : classLines style cls = .ok ls) : Line.InTurns ls := by
  obtain ⟨hnames, _⟩ := (Bool.and_eq_true _ _).mp hcls
  obtain ⟨name, outer, package, shape, members, hname, houter, hpackage, hmembers, rfl⟩ := classLines_parts h
  have hname : name.isTidy := isTidy_of_getD hnames (by decide) (by decide) hname
  have houter : outer.isTidy := isTidy_of_getD hnames (by decide) (by decide) houter
  have hpackage : package.isTidy := by
    rcases eq_part_of_firstOf hpackage with rfl | rfl
    · exact houter
    · exact all_eq_true.mp hnames "package" (by decide)
  refine (Line.InTurns.block ?_ (opens_head shape name.display) fun l hl => ?_).append (.of_isTidy fun l hl => ?_)
  · rw [Line.text, Text.isOneLine_append, Text.isOneLine_append, isOneLine_of_isTidy hname]
    cases shape <;> decide
  · obtain ⟨t, rfl, ht⟩ := hmembers l hl
    exact ⟨t, rfl, ht.isTidy hcls⟩
  · rcases mem_append.mp hl with hl | hl
    · exact isTidy_packageLines hname hpackage hl
    · cases mem_singleton.mp hl
      decide

theorem inTurns_languageLines {l : String} {names : List Atom} (hschema : isTidySchema schema)
    (hl : l ∈ Schema.languages) (h : languageLines style schema (.text l) = .ok (ls, names)) :
    Line.InTurns ls ∧ ∀ a ∈ names, (atom a).isTidy := by
  rcases languageLines_parts h with ⟨rfl, rfl⟩ |
    ⟨classes, word, items, declared, hclasses, _, hword, hitems, rfl, rfl, hdeclared⟩
  · exact ⟨.of_isTidy (by simp), by simp⟩
  have hitem : ∀ cls ∈ items, isTidyClass cls := by
    intro cls hcls
    rcases eq_part_of_getD hclasses with rfl | rfl
    · cases hitems
      cases hcls
    · have hlisted := all_eq_true.mp ((Bool.and_eq_true _ _).mp hschema).1 l hl
      exact allItems_of_mem hlisted hitems hcls
  have hheading : Text.isTidy ("' " ++ word ++ " Classes") := by
    have hupper : ∀ l ∈ Schema.languages, Text.isTidy (Text.upper l) := by decide +kernel
    obtain rfl : Text.upper l = word := Except.ok.inj hword
    rw [isTidy_append, isTidy_append, hupper l hl]
    decide
  refine ⟨?_, fun a ha => ?_⟩
  · have hblocks : Line.InTurns (declared.map (·.1)).flatten := by
      refine .flatten fun own hown => ?_
      obtain ⟨d, hd, rfl⟩ := mem_map.mp hown
      obtain ⟨cls, hcls, hlines, _⟩ := hdeclared d hd
      exact inTurns_classLines (hitem cls hcls) hlines
    have hhead : Line.InTurns [.plain ("' " ++ word ++ " Classes")] := .of_isTidy (by simpa [Line.text] using hheading)
    exact (hhead.append hblocks).append (.of_isTidy (by decide))
  · obtain ⟨d, hd, rfl⟩ := mem_map.mp ha
    obtain ⟨cls, hcls, _, hname⟩ := hdeclared d hd
    have hnames := ((Bool.and_eq_true _ _).mp (hitem cls hcls)).1
    exact isTidy_of_getD hnames (by decide) (by decide) hname

/-! ### Relations -/

theorem isTidy_multiplicities {m n : Value} (hrelation : isTidyRelation relation)
    (h : multiplicities relation = .ok (m, n)) : m.isTidy ∧ n.isTidy := by
  obtain ⟨hown, hinner⟩ := (Bool.and_eq_true _ _).mp hrelation
  rcases multiplicities_ok h with ⟨both, hboth, hm, hn⟩ | ⟨hm, hn⟩
  · have hparts : both.isTidyAt ["from", "to"] := by
      rcases eq_part_of_getD hboth with rfl | rfl
      · decide
      · exact hinner
    exact ⟨isTidy_of_getD hparts (by decide) (by decide) hm, isTidy_of_getD hparts (by decide) (by decide) hn⟩
  · exact ⟨isTidy_of_getD hown (by decide) (by decide) hm, isTidy_of_getD hown (by decide) (by decide) hn⟩

theorem isTidy_relationLine {source target : Value} {kind : Atom} (hrelation : isTidyRelation relation)
    (hsource : source.isTidy) (htarget : target.isTidy)
    (h : relationLine relation source target kind = .ok l) : Text.isTidy l.text := by
  obtain ⟨m, n, label, hmn, hlabel, rfl⟩ := relationLine_ok h
  obtain ⟨hm, hn⟩ := isTidy_multiplicities hrelation hmn
  have hlabel : label.isTidy :=
    isTidy_of_getD ((Bool.and_eq_true _ _).mp hrelation).1 (by decide) (by decide) hlabel
  have harrow : Text.isTidy (arrowText m n kind) := all_arrowText (by decide) hm hn kind
  rw [Line.text, isTidy_append, isTidy_append, isTidy_append, harrow, show Text.isTidy _ = true from
    all_suffix hlabel (by decide),
    show Text.isTidy source.display = true from hsource, show Text.isTidy target.display = true from htarget]
  rfl

theorem isTidy_relationLines {declared : List Atom} {items : List Value} {arrows : List Line}
    (hdeclared : ∀ a ∈ declared, (atom a).isTidy) (hitems : ∀ r ∈ items, isTidyRelation r)
    (h : relationLines declared items = .ok arrows) (hl : l ∈ arrows) : Text.isTidy l.text := by
  obtain ⟨r, hr, a, b, k, kind, hdrawn, hline⟩ := mem_relationLinesFrom h hl
  obtain ⟨_, _, ha, hb, _⟩ := drawn?_ok hdrawn
  have hends : ∀ {c : Atom}, c.isIn declared → (atom c).isTidy := by
    intro c hc
    refine isTidy_atom fun s hs => ?_
    rw [hs] at hc
    exact hdeclared _ (Atom.isIn_text_iff.mp hc)
  exact isTidy_relationLine (hitems r hr) (hends ha) (hends hb) hline

/-! ### The diagram -/

theorem inTurns_opening (htheme : Text.isTidy style.theme) : Line.InTurns (opening style) := by
  have hstyle : Line.InTurns style.opening := by
    refine .of_isTidy fun l hl => ?_
    simp only [Style.opening, mem_cons, not_mem_nil, or_false] at hl
    rcases hl with rfl | rfl
    · decide
    · rw [Line.text, isTidy_append, htheme]
      decide
  exact hstyle.append ⟨by decide +kernel, by decide +kernel⟩

/-- **The blocks of a class diagram are in turns.** -/
theorem inTurns_lines (htheme : Text.isTidy style.theme) (hschema : isTidySchema schema)
    (h : lines style schema .null = .ok ls) : Line.InTurns ls := by
  obtain ⟨langs, parts, relations, drawn, hlangs, hparts, hrelations, rfl, hdrawn⟩ := lines_ok h
  obtain rfl : Schema.languages.map Value.text = langs := Except.ok.inj hlangs
  have hpart : ∀ part ∈ parts, Line.InTurns part.1 ∧ ∀ a ∈ part.2, (atom a).isTidy := by
    intro part hpart
    obtain ⟨lang, hlang, hlines⟩ := Loose.mem_of_mapM hparts hpart
    obtain ⟨l, hl, rfl⟩ := mem_map.mp hlang
    exact inTurns_languageLines hschema hl hlines
  have hclasses : Line.InTurns (parts.map (·.1)).flatten := by
    refine .flatten fun own hown => ?_
    obtain ⟨part, hmem, rfl⟩ := mem_map.mp hown
    exact (hpart part hmem).1
  have harrows : Line.InTurns drawn := by
    rcases hdrawn with rfl | ⟨items, arrows, hitems, harrows, rfl⟩
    · exact .of_isTidy (by simp)
    · refine .of_isTidy fun l hl => ?_
      rcases mem_append.mp hl with hl | hl
      · rcases mem_cons.mp hl with rfl | hl
        · decide
        · refine isTidy_relationLines (fun a ha => ?_) (fun r hr => ?_) harrows hl
          · obtain ⟨names, hnames, ha⟩ := mem_flatten.mp ha
            obtain ⟨part, hmem, rfl⟩ := mem_map.mp hnames
            exact (hpart part hmem).2 a ha
          · rcases eq_part_of_getD hrelations with rfl | rfl
            · cases hitems
              cases hr
            · exact allItems_of_mem ((Bool.and_eq_true _ _).mp hschema).2 hitems hr
      · cases mem_singleton.mp hl
        decide
  exact (((inTurns_opening htheme).append hclasses).append harrows).append (.of_isTidy (by decide))

end ClassDiagram

theorem ofWord?_class : DiagramKind.ofWord? (Text.lower "class") = some .class := by decide +kernel

/-- The blocks of a class diagram are in turns before it is cut.  They are so in its text, if and only if the cut keeps
them; one that is small enough is not cut. -/
theorem drawSchema_inTurns {config schema : Value} {setOrder : Reordering Atom} {style : Style} {text : String}
    (hstyle : Style.ofValue config setOrder = .ok style) (htheme : Text.isTidy style.theme = true)
    (hschema : ClassDiagram.isTidySchema schema = true)
    (h : drawSchema config schema (.text "class") .null setOrder = .ok text) :
    ∃ lines, ClassDiagram.lines style schema .null = .ok lines ∧ IsBracketed (lines.map Line.text) ∧
      (IsBracketed (Text.lines text) ↔ SizeLimit.KeepsBlocks (lines.map Line.text)) ∧
      (lines.length ≤ 2000 → SizeLimit.octets (lines.map Line.text) ≤ 8000 →
        Text.lines text = lines.map Line.text) := by
  obtain ⟨own, hown, hrender⟩ := drawSchema_ok ofWord?_class h
  obtain rfl : style = own := Except.ok.inj (hstyle.symm.trans hown)
  obtain ⟨lines, hlines, _⟩ := of_bind hrender
  obtain ⟨_, hdrawn, htext⟩ := DiagramKind.exists_render (by rfl : DiagramKind.class.isLimited) hlines
  cases hdrawn.symm.trans hrender
  have hturns := ClassDiagram.inTurns_lines htheme hschema hlines
  have hbracketed := isBracketed_iff.mpr hturns.read
  have hone : ∀ m ∈ lines.map Line.text, Text.isOneLine m = true := List.forall_mem_map.mpr hturns.oneLine
  have hlast : (lines.map Line.text).getLast? = some "@enduml" := by
    obtain ⟨_, _, _, _, _, _, _, rfl, _⟩ := ClassDiagram.lines_ok hlines
    rw [List.getLast?_map, List.getLast?_concat]
    rfl
  have hbracket : Block.isBracket ("!theme " ++ style.theme) = false := by
    refine Text.isBracket_of_isTidy ?_
    rw [Text.isTidy_append, htheme]
    decide
  rw [htext, Line.render, lines_limitSize (Text.isOneLine_of_isTidy htheme) hone hlast SizeLimit.closes_close]
  refine ⟨lines, hlines, hbracketed, SizeLimit.isBracketed_limited hbracket hbracketed hlast SizeLimit.closes_close, ?_⟩
  intro hlength hoctets
  rw [← List.length_map Line.text] at hlength
  exact SizeLimit.limited?_of_fits (Int.ofNat_le.mpr hlength) (Int.ofNat_le.mpr hoctets) hlast SizeLimit.closes_close

theorem exists_drawSchema {schema : Value} {lines : List Line} (hschema : schema.isRecord)
    (h : ClassDiagram.lines {} schema .null = .ok lines) :
    ∃ text, drawSchema .null schema (.text "class") .null = .ok text ∧
      text = limitSize "plain" (Text.join "\n" (lines.map Line.text)) 2000 8000 := by
  rw [drawSchema_eq (s := {}) rfl hschema ofWord?_class]
  exact DiagramKind.exists_render (by rfl : DiagramKind.class.isLimited) h

/-- A class with a member that is written like the closing line, an enumeration, and a relation between them. -/
def shopSchema : Value :=
  .ofFields [("python", .list [.ofFields [("class", .text "Cart"), ("package", .text "shop"),
      ("fields", .texts ["-items", "@enduml"])],
    .ofFields [("class", .text "Size"), ("stereotype", .text "enum"), ("values", .texts ["@enduml"])]]),
    ("relations", .list [.ofFields [("from", .text "Cart"), ("to", .text "Size"), ("label", .text "of")]])]

theorem drawSchema_inTurns_shop : ∃ text,
    drawSchema .null shopSchema (.text "class") .null = .ok text ∧ ClassDiagram.isTidySchema shopSchema = true ∧
      "class Cart \x7b" ∈ Text.lines text ∧ "  @enduml" ∈ Text.lines text ∧ IsBracketed (Text.lines text) := by
  have hschema : ClassDiagram.isTidySchema shopSchema = true := by decide +kernel
  have hdrawn : ∃ lines, ClassDiagram.lines {} shopSchema .null = .ok lines ∧ lines.length ≤ 2000 ∧
      (lines.map Line.text).foldr (fun l n => l.utf8ByteSize + 1 + n) 0 ≤ 8000 ∧
      "class Cart \x7b" ∈ lines.map Line.text ∧ "  @enduml" ∈ lines.map Line.text := ⟨_, rfl, by decide +kernel⟩
  obtain ⟨drawn, hdrawn, hlength, hsum, hclass, hvalue⟩ := hdrawn
  have hoctets : SizeLimit.octets (drawn.map Line.text) ≤ 8000 := by
    have hadd := SizeLimit.octets_add_one (List.ne_nil_of_mem hclass)
    omega
  obtain ⟨text, htext, _⟩ := exists_drawSchema rfl hdrawn
  obtain ⟨lines, hlines, hturns, _, hfits⟩ := drawSchema_inTurns (rfl : Style.ofValue .null = .ok {}) (by decide)
    hschema htext
  obtain rfl : drawn = lines := Except.ok.inj (hdrawn.symm.trans hlines)
  refine ⟨text, htext, hschema, ?_⟩
  rw [hfits hlength hoctets]
  exact ⟨hclass, hvalue, hturns⟩

/-! ### A block that is left open -/

def bareSchema (name : String) : Value := .ofFields [("python", .list [.ofFields [("class", .text name)]])]

def bareHeading : Line := .plain ("' " ++ Text.upper "python" ++ " Classes")

def bareOpening : List String := (ClassDiagram.opening {} ++ [bareHeading]).map Line.text

def bareHead (name : String) : Line := .declares .class name (ClassDiagram.Shape.plain.mark ++ " \x7b")

def bareLines (name : String) (below : List String) : List String :=
  bareOpening ++ ((bareHead name).text :: below)

/-- What the lines above the class come to, evaluated once. -/
theorem bareOpening_spec : (∀ l ∈ bareOpening, startsNote l = false ∧ Text.isOneLine l) ∧
    bareOpening.foldr (fun l n => l.utf8ByteSize + 1 + n) 0 = 283 ∧ Block.after? false bareOpening = some false := by
  decide +kernel

theorem lines_bareSchema (name : String) : ClassDiagram.lines {} (bareSchema name) .null =
    .ok (ClassDiagram.opening {} ++ bareHeading :: bareHead name :: [.plain "\x7d", .empty, .empty, .close]) := rfl

theorem octets_bareLines (name : String) {below : List String} (h : below ≠ []) :
    octets (bareLines name below) = 292 + name.utf8ByteSize + octets below := by
  have hopening : octets bareOpening = 282 := by
    have hsum := octets_add_one (by decide : bareOpening ≠ [])
    rw [bareOpening_spec.2.1] at hsum
    omega
  have hhead : (bareHead name).text.utf8ByteSize = 8 + name.utf8ByteSize := by
    simp only [bareHead, Line.text, String.utf8ByteSize_append]
    rw [show (Declarator.mark .class).utf8ByteSize = 6 from rfl,
      show ClassDiagram.Shape.plain.mark.utf8ByteSize = 0 from rfl, show " \x7b".utf8ByteSize = 2 from rfl]
    omega
  rw [bareLines, octets_append (by decide) (by simp), ← singleton_append,
    octets_append (by simp) h, octets_singleton, hopening, hhead]
  omega

/-- The empty line after the class is dropped, and then the line that closes its block. -/
theorem shrink_bareLines {name : String} (hsize : name.utf8ByteSize = 7699) :
    shrink id 8000 (bareLines name ["\x7d", "", "", "@enduml"]) = bareLines name ["", "@enduml"] := by
  have hnote : ∀ l ∈ bareLines name ["\x7d", "", "", "@enduml"], startsNote l = false := by
    have hbelow : ∀ l ∈ ["\x7d", "", "", "@enduml"], startsNote l = false := by decide
    rw [bareLines, forall_mem_append, forall_mem_cons]
    refine ⟨fun l hl => (bareOpening_spec.1 l hl).1, startsNote_eq_false ?_, hbelow⟩
    rw [bareHead, Line.text, String.append_assoc]
    exact opensNote_append (by decide) _
  have hlength : headLength id (bareLines name ["\x7d", "", "", "@enduml"]) = 20 := by
    have hnone : ((bareLines name ["\x7d", "", "", "@enduml"]).findIdx? fun l => startsNote (id l)) = none :=
      findIdx?_eq_none_iff.mpr hnote
    rw [headLength, hnone]
    rfl
  have hoctets : octets (bareLines name ["\x7d", "", "", "@enduml"]) = 8002 := by
    have hbelow : octets ["\x7d", "", "", "@enduml"] = 11 := rfl
    rw [octets_bareLines name (by simp), hsize, hbelow]
  rw [shrink_eq, headLeft, hlength, map_id, hoctets]
  rfl

theorem drawSchema_bare {name : String} (hname : Text.isOneLine name) (hsize : name.utf8ByteSize = 7699) :
    ∃ text, drawSchema .null (bareSchema name) (.text "class") .null = .ok text ∧
      Text.lines text = bareLines name ["", "@enduml"] := by
  obtain ⟨text, hdraw, htext⟩ := exists_drawSchema rfl (lines_bareSchema name)
  have htexts : (ClassDiagram.opening {} ++ bareHeading :: bareHead name ::
      [.plain "\x7d", .empty, .empty, .close]).map Line.text = bareLines name ["\x7d", "", "", "@enduml"] := by
    rw [bareLines, bareOpening, map_append, map_append, append_assoc]
    rfl
  have hlast : (bareLines name ["\x7d", "", "", "@enduml"]).getLast? = some "@enduml" := rfl
  have hone : ∀ l ∈ bareLines name ["\x7d", "", "", "@enduml"], Text.isOneLine l := by
    rw [bareLines, forall_mem_append, forall_mem_cons]
    refine ⟨fun l hl => (bareOpening_spec.1 l hl).2, ?_, by decide⟩
    rw [bareHead, Line.text, Text.isOneLine_append, Text.isOneLine_append, hname]
    decide
  have hlength : (bareLines name ["\x7d", "", "", "@enduml"]).length = 22 := rfl
  have hfirst := @SizeLimit.firstLines_of_le String id id 2000 _ _ (by omega) hlast closes_close
  have hsmall : octets (bareLines name ["", "@enduml"]) = 7999 := by
    have hbelow : octets ["", "@enduml"] = 8 := rfl
    rw [octets_bareLines name (by simp), hsize, hbelow]
  refine ⟨text, hdraw, ?_⟩
  rw [htext, htexts, lines_limitSize (by decide) hone hlast closes_close,
    limited?_getD 2000 8000 hlast closes_close, hfirst, shrink_bareLines hsize, hsmall,
    if_neg (by omega)]

/-- A class with a long name: its diagram has two octets too many, so that two lines are dropped, and the second one
closes the block of the class. -/
theorem drawSchema_leftOpen : ∃ schema text, ClassDiagram.isTidySchema schema = true ∧
    drawSchema .null schema (.text "class") .null = .ok text ∧ ¬ IsBracketed (Text.lines text) := by
  have htidy : Text.isTidy (pathOf 7699) = true := by
    rw [pathOf, Text.isTidy, String.toList_ofList, List.all_eq_true]
    intro c hc
    rw [List.eq_of_mem_replicate hc]
    decide
  have hclass : ClassDiagram.isTidyClass (.ofFields [("class", .text (pathOf 7699))]) = true := by
    show ((Text.isTidy (pathOf 7699) && true) && true) = true
    rw [htidy]
    rfl
  have hopens : Block.opens (bareHead (pathOf 7699)).text = true := ClassDiagram.opens_head .plain _
  obtain ⟨text, htext, hlines⟩ := drawSchema_bare (Text.isOneLine_of_isTidy htidy) (utf8ByteSize_pathOf 7699)
  refine ⟨bareSchema (pathOf 7699), text, ?_, htext, ?_⟩
  · show (((ClassDiagram.isTidyClass _ && true) && true) && true) = true
    rw [hclass]
    rfl
  · rw [hlines, isBracketed_iff, bareLines, Block.after?_append, bareOpening_spec.2.2, Option.bind_some,
      Block.after?_cons, Block.step?_of_opens hopens, Option.bind_some]
    decide

end CodeAtlas
