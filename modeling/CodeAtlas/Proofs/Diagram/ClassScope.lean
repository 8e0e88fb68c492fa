import CodeAtlas.Proofs.Diagram.ClassLines
import CodeAtlas.Proofs.Diagram.PlainSchema

/-!
# Class diagrams declare classes before their relations

Relations are drawn between declared classes only, after all classes.  Where the names of classes are texts, an arrow is
thus drawn with names that stand above it; and the lines of a plain schema are cut like any other.

* `isPlain_memberLine`, `isPlain_methodLine`: the lines for members of plain classes;
* `ClassLine.isSafe`, `LanguageLine.isSafe`, `isSafe_relationLine`: the lines of a diagram are cut like any other.
-/

namespace CodeAtlas.ClassDiagram

open List Value Text

open Loose (of_bind of_pure mem_of_mapM)

variable {style : Style} {schema cls lang relation : Value} {l : Line} {ls : List Line} {t : String}

/-! ### Members -/

theorem eq_of_shown? {v : Visibility} {rest : String} (h : shown? style v rest = some t) :
    t = String.singleton v.sign ++ " " ++ rest := by
  unfold shown? at h
  split at h
  · cases h
  · exact (Option.some.inj h).symm

/-- The line for a member that is a text has a sign and then characters of that text. -/
theorem exists_of_textLine? {member : String} (h : textLine? style member = some t) :
    ∃ (v : Visibility) (rest : String), t = String.singleton v.sign ++ " " ++ rest ∧ rest.toList ⊆ member.toList := by
  have htrim : (Text.trim member).toList ⊆ member.toList := by
    rw [toList_trim]
    exact Chars.trim_subset _
  unfold textLine? at h
  split at h
  · cases h
  next c cs heq =>
    rw [heq] at htrim
    split at h
    next v _ =>
      refine ⟨v, _, eq_of_shown? h, ?_⟩
      rw [String.toList_ofList]
      exact List.Subset.trans (Chars.trim_subset cs) (List.Subset.trans (subset_cons_self c cs) htrim)
    next =>
      cases h
      exact ⟨.everyone, _, rfl, by rwa [String.toList_ofList]⟩

theorem isPlain_signed (v : Visibility) {rest : String} (hrest : Text.isOneLine rest) :
    Text.isPlain (String.singleton v.sign ++ " " ++ rest) := by
  rw [String.append_assoc]
  have htail : Text.isOneLine (" " ++ rest) := by
    rw [isOneLine_append, hrest]
    rfl
  cases v <;> exact isPlain_append (by decide) htail

theorem isPlain_textLine {member : String} (h : textLine? style member = some t)
    (hmember : Text.isOneLine member) : Text.isPlain t := by
  obtain ⟨v, rest, rfl, hrest⟩ := exists_of_textLine? h
  exact isPlain_signed v (Chars.isOneLine_of_subset hmember hrest)

/-- What is written only of values that count has a property that its characters have. -/
theorem all_suffix {p : Char → Bool} {v : Value} {mark : String} (hv : v.display.toList.all p)
    (hmark : mark.toList.all p) : (if v.truthy then mark ++ v.display else "").toList.all p := by
  split
  · rw [String.toList_append, all_append, hmark, hv]
    rfl
  · rfl

theorem isOneLine_suffix {v : Value} {mark : String} (hv : v.isPlain) (hmark : Text.isOneLine mark) :
    Text.isOneLine (if v.truthy then mark ++ v.display else "") := all_suffix (isOneLine_display hv) hmark

theorem isPlain_memberLine {field : Value} (hfield : field.isPlain)
    (h : memberLine? style field = .ok (some t)) : Text.isPlain t := by
  unfold memberLine? at h
  split at h
  · obtain ⟨name, hname, h⟩ := of_bind h
    obtain ⟨type, htype, h⟩ := of_bind h
    obtain ⟨sign, _, h⟩ := of_bind h
    obtain ⟨v, _, h⟩ := of_bind h
    rw [eq_of_shown? (of_pure h)]
    refine isPlain_signed v ?_
    rw [isOneLine_append, isOneLine_display (isPlain_of_getD hfield rfl hname),
      isOneLine_suffix (isPlain_of_getD hfield rfl htype) rfl]
    rfl
  · obtain ⟨s, hs, h⟩ := of_bind h
    exact isPlain_textLine (of_pure h) (isOneLine_of_textFor hfield hs)

theorem isOneLine_parameters {params : Value} (hparams : params.isPlain) (h : parameters params = .ok t) :
    Text.isOneLine t := by
  obtain ⟨items, hitems, h⟩ := of_bind h
  obtain ⟨texts, htexts, h⟩ := of_bind h
  cases h
  refine isOneLine_join rfl fun s hs => ?_
  obtain ⟨p, hp, hps⟩ := mem_of_mapM htexts hs
  have hplain := isPlain_of_mem_items hparams hitems (mem_of_mem_filter hp)
  unfold asText at hps
  split at hps
  · cases hps
    exact (isPlain_iff.mp hplain).1
  · cases hps

theorem isPlain_methodLine {method : Value} (hmethod : method.isPlain)
    (h : methodLine? style method = .ok (some t)) : Text.isPlain t := by
  unfold methodLine? at h
  split at h
  · obtain ⟨name, hname, h⟩ := of_bind h
    obtain ⟨sign, _, h⟩ := of_bind h
    obtain ⟨v, _, h⟩ := of_bind h
    obtain ⟨result, hresult, h⟩ := of_bind h
    obtain ⟨params, hparams, h⟩ := of_bind h
    split at h
    · cases of_pure h
    · obtain ⟨inner, hinner, h⟩ := of_bind h
      rw [eq_of_shown? (of_pure h)]
      refine isPlain_signed v ?_
      rw [isOneLine_append, isOneLine_append, isOneLine_append, isOneLine_append,
        isOneLine_display (isPlain_of_getD hmethod rfl hname),
        isOneLine_parameters (isPlain_of_getD hmethod rfl hparams) hinner,
        isOneLine_suffix (isPlain_of_getD hmethod rfl hresult) rfl]
      rfl
  · obtain ⟨s, hs, h⟩ := of_bind h
    exact isPlain_textLine (of_pure h) (isOneLine_of_textFor hmethod hs)

/-! ### Classes -/

theorem MemberText.isPlain (hcls : cls.isPlain) (h : MemberText style cls t) : Text.isPlain t := by
  cases h with
  | field hfields hitems hm ht =>
    exact isPlain_memberLine (isPlain_of_mem_items (isPlain_of_getD hcls rfl hfields) hitems hm) ht
  | method hmethods hitems hm ht =>
    exact isPlain_methodLine (isPlain_of_mem_items (isPlain_of_getD hcls rfl hmethods) hitems hm) ht
  | value hvalues hitems hv =>
    exact isPlain_display (isPlain_of_mem_items (isPlain_of_firstOf hcls rfl hvalues) hitems hv)
  | divider => decide

theorem ClassLine.isSafe (hcls : cls.isPlain) (h : ClassLine style cls l) : l.IsSafe := by
  cases h with
  | head shape hname =>
    refine Line.isSafe_declares (isOneLine_display (isPlain_of_getD hcls (by decide) hname)) ?_
    cases shape <;> rfl
  | member ht => exact Line.isSafe_inner (ht.isPlain hcls)
  | foot => exact Line.isSafe_plain (by decide)
  | noteOn hname =>
    have hplain := isPlain_of_getD hcls (by decide) hname
    exact Line.isSafe_plain (isPlain_append (by decide) (isOneLine_display hplain))
  | package houter hpackage =>
    have hplain := isPlain_of_firstOf hcls (isPlain_of_get hcls houter) hpackage
    exact Line.isSafe_inner (isPlain_append (by decide) (isOneLine_display hplain))
  | _ => exact Line.isSafe_plain (by decide)

theorem classesUnder_ok {classes : Value} (h : classesUnder schema lang = .ok classes) :
    classes = .list [] ∨ ∃ fs a k, schema = .record fs ∧ lang = .atom a ∧ (k, classes) ∈ fs ∧ k.same a := by
  obtain ⟨fs, hfs, h⟩ := of_bind h
  obtain ⟨a, ha, h⟩ := of_bind h
  cases h
  have hschema : schema = .record fs := by
    cases schema <;> cases hfs
    rfl
  cases hget : Record.get? a fs with
  | none => exact .inl rfl
  | some w =>
    obtain ⟨k, hk, hsame⟩ := Record.exists_of_get? hget
    exact .inr ⟨fs, a, k, hschema, eq_atom_of_key ha, hk, hsame⟩

theorem hasField_of_classesUnder {classes : Value} (h : classesUnder schema lang = .ok classes) :
    classes = .list [] ∨ schema.HasField classes := by
  rcases classesUnder_ok h with hnone | ⟨fs, _, k, hschema, _, hk, _⟩
  · exact .inl hnone
  · exact .inr ⟨fs, k, hschema, hk⟩

theorem LanguageLine.isSafe (hschema : schema.isPlain) (h : LanguageLine style schema lang l) : l.IsSafe := by
  cases h with
  | heading hclasses htruthy hword =>
    rename_i word classes
    -- a language under which there are classes is a key of the schema
    have hlang : Text.isOneLine word := by
      rcases classesUnder_ok hclasses with rfl | ⟨fs, a, k, rfl, rfl, hk, hsame⟩
      · cases htruthy
      · obtain ⟨s, hs, hword⟩ := of_bind hword
        cases hword
        obtain rfl : a = .text s := by
          cases a <;> cases hs
          rfl
        obtain rfl := Atom.same_text_iff.mp hsame
        have hkey := (isPlain_record_iff.mp hschema _ hk).1
        exact isOneLine_upper (isPlain_iff.mp hkey).1
    rw [String.append_assoc]
    refine Line.isSafe_plain (isPlain_append (by decide) ?_)
    rw [isOneLine_append, hlang]
    rfl
  | entry hclasses hitems hcls hl =>
    refine hl.isSafe (isPlain_of_mem_items ?_ hitems hcls)
    rcases hasField_of_classesUnder hclasses with rfl | hfield
    · rfl
    · exact isPlain_of_hasField hschema hfield
  | gap => exact Line.isSafe_plain (by decide)

/-! ### Relations -/

theorem multiplicities_ok {m n : Value} (h : multiplicities relation = .ok (m, n)) :
    (∃ both, relation.getD "multiplicity" (.record []) = .ok both ∧ both.getD "from" (.text "") = .ok m ∧
      both.getD "to" (.text "") = .ok n) ∨
    (relation.getD "multiplicity_from" (.text "") = .ok m ∧ relation.getD "multiplicity_to" (.text "") = .ok n) := by
  obtain ⟨both, hboth, h⟩ := of_bind h
  split at h
  all_goals
    obtain ⟨u, hu, h⟩ := of_bind h
    obtain ⟨w, hw, h⟩ := of_bind h
    cases of_pure h
  · exact .inl ⟨both, hboth, hu, hw⟩
  · exact .inr ⟨hu, hw⟩

theorem isPlain_multiplicities {m n : Value} (hrelation : relation.isPlain)
    (h : multiplicities relation = .ok (m, n)) : m.isPlain ∧ n.isPlain := by
  rcases multiplicities_ok h with ⟨both, hboth, hm, hn⟩ | ⟨hm, hn⟩
  · have hplain := isPlain_of_getD hrelation rfl hboth
    exact ⟨isPlain_of_getD hplain (by decide) hm, isPlain_of_getD hplain (by decide) hn⟩
  · exact ⟨isPlain_of_getD hrelation (by decide) hm, isPlain_of_getD hrelation (by decide) hn⟩

theorem exists_arrowFor (kind : Atom) : ∃ k : RelationKind, arrowFor kind = k.arrow := by
  unfold arrowFor
  split
  · exact ⟨_, rfl⟩
  · exact ⟨_, rfl⟩

/-- What stands between the ends of an arrow does not go on like the note of a cut. -/
theorem arrowText_head (m n : Value) (kind : Atom) : ∃ c cs, (arrowText m n kind).toList = ' ' :: c :: cs ∧
    isBlank c = false ∧ c ≠ 'n' ∧ c ≠ 'a' ∧ c ≠ 'W' := by
  obtain ⟨k, hk⟩ := exists_arrowFor kind
  unfold arrowText
  rw [hk]
  split
  · exact ⟨'"', _, by simp only [String.toList_append]; rfl, by decide, by decide, by decide, by decide⟩
  · simp only [String.toList_append]
    cases k <;> exact ⟨_, _, rfl, by decide, by decide, by decide, by decide⟩

theorem arrowText_drawn (m n : Value) (kind : Atom) :
    ∃ c, (c = '-' ∨ c = '.') ∧ c ∈ (arrowText m n kind).toList := by
  obtain ⟨k, hk⟩ := exists_arrowFor kind
  have hdrawn : ∃ c, (c = '-' ∨ c = '.') ∧ c ∈ k.arrow.toList := by
    cases k with
    | implements => exact ⟨'.', .inr rfl, by decide⟩
    | dependency => exact ⟨'.', .inr rfl, by decide⟩
    | _ => exact ⟨'-', .inl rfl, by decide⟩
  obtain ⟨c, hc, hmem⟩ := hdrawn
  refine ⟨c, hc, ?_⟩
  unfold arrowText
  rw [hk]
  simp only [String.toList_append, mem_append]
  exact .inl (.inl (.inr hmem))

/-- What stands between the ends of an arrow is made of its multiplicities and a few characters. -/
theorem all_arrowText {p : Char → Bool} {m n : Value} (hp : "\" -|>.*o".toList.all p) (hm : m.display.toList.all p)
    (hn : n.display.toList.all p) (kind : Atom) : (arrowText m n kind).toList.all p := by
  obtain ⟨k, hk⟩ := exists_arrowFor kind
  have harrow : k.arrow.toList.all p := all_eq_true.mpr fun c hc =>
    all_eq_true.mp hp c (by revert c; cases k <;> decide)
  have hmarks : p '"' ∧ p ' ' := by simp_all
  simp only [arrowText, hk, String.toList_append, all_append, harrow]
  split <;> split <;> simp [String.toList_append, hmarks, hm, hn]

theorem isOneLine_arrowText {m n : Value} (hm : m.isPlain) (hn : n.isPlain) (kind : Atom) :
    Text.isOneLine (arrowText m n kind) := all_arrowText (by decide) (isOneLine_display hm) (isOneLine_display hn) kind

theorem isSafe_relationLine {source target : Value} {kind : Atom} (hrelation : relation.isPlain)
    (hsource : source.isPlain) (htarget : target.isPlain)
    (h : relationLine relation source target kind = .ok l) : l.IsSafe := by
  obtain ⟨m, n, label, hmn, hlabel, rfl⟩ := relationLine_ok h
  obtain ⟨hm, hn⟩ := isPlain_multiplicities hrelation hmn
  obtain ⟨c, hc, hmem⟩ := arrowText_drawn m n kind
  refine Line.isSafe_joins hc hmem (isPlain_iff.mpr ⟨?_, ?_⟩)
  · rw [isOneLine_append, isOneLine_append, isOneLine_append, isOneLine_display hsource,
      isOneLine_display htarget, isOneLine_arrowText hm hn,
      isOneLine_suffix (isPlain_of_getD hrelation (by decide) hlabel) rfl]
    rfl
  · obtain ⟨d, ds, hds, hblank, hd⟩ := arrowText_head m n kind
    rw [String.append_assoc, String.append_assoc]
    have hgoes : ∀ rest : String, (arrowText m n kind ++ rest).toList = ' ' :: d :: (ds ++ rest.toList) := by
      intro rest
      rw [String.toList_append, hds]
      rfl
    exact SizeLimit.opensNote_append_word (opensNote_display hsource) (hgoes _) hblank hd.1 hd.2.1 hd.2.2

theorem isSafe_of_mem_relationLines {declared : List Atom} {items : List Value} {arrows : List Line}
    (hitems : ∀ r ∈ items, r.isPlain) (h : relationLines declared items = .ok arrows) (hl : l ∈ arrows) :
    l.IsSafe := by
  obtain ⟨r, hr, a, b, k, kind, hdrawn, hline⟩ := mem_relationLinesFrom h hl
  obtain ⟨hfrom, hto, _⟩ := drawn?_ok hdrawn
  have hplain := hitems r hr
  exact isSafe_relationLine hplain (isPlain_of_get hplain hfrom) (isPlain_of_get hplain hto) hline

/-! ### Scope -/

variable {langs : List Value} {parts : List (List Line × List Atom)} {relations : Value} {items : List Value}

theorem mem_declaredNames_parts {name : String} (hparts : langs.mapM (languageLines style schema) = .ok parts)
    (h : .text name ∈ (parts.map (·.2)).flatten) : name ∈ declaredNames (parts.map (·.1)).flatten := by
  obtain ⟨names, hnames, hname⟩ := mem_flatten.mp h
  obtain ⟨part, hpart, rfl⟩ := mem_map.mp hnames
  obtain ⟨lang, _, hlang⟩ := mem_of_mapM hparts hpart
  obtain ⟨_, _, _, _, _, _, _, hdeclared⟩ := (languageLines_ok hlang).2 _ hname
  refine declaredNames_subset (fun l hl => ?_) (hdeclared name rfl)
  exact mem_flatten_of_mem (mem_map_of_mem hpart) hl

theorem exists_text_of_hasTextNames {r : Value} {a : Atom} {key : String} (hr : r.hasTextNames)
    (hkey : key ∈ nameKeys) (hget : r.get key = .ok (.atom a)) (htruthy : (atom a).truthy) :
    ∃ s, a = .text s := by
  have htext := isTextOrNull_of_get hr hkey hget
  cases a with
  | text s => exact ⟨s, rfl⟩
  | null => cases htruthy
  | _ => cases htext

theorem ends_relationLines {declared : List Atom} {scope : List String} {arrows : List Line}
    (hscope : ∀ s, .text s ∈ declared → s ∈ scope) (hnames : ∀ r ∈ items, r.hasTextNames)
    (h : relationLines declared items = .ok arrows) (hl : l ∈ arrows) : l.ends ⊆ scope := by
  obtain ⟨r, hr, a, b, k, kind, hdrawn, hline⟩ := mem_relationLinesFrom h hl
  obtain ⟨hfrom, hto, ha, hb, hatruthy, hbtruthy⟩ := drawn?_ok hdrawn
  obtain ⟨s, rfl⟩ := exists_text_of_hasTextNames (hnames r hr) (by decide) hfrom hatruthy
  obtain ⟨t, rfl⟩ := exists_text_of_hasTextNames (hnames r hr) (by decide) hto hbtruthy
  obtain ⟨m, n, label, _, _, rfl⟩ := relationLine_ok hline
  intro name hname
  simp only [Line.ends_joins, mem_cons, not_mem_nil, or_false] at hname
  rcases hname with rfl | rfl
  · exact hscope _ (Atom.isIn_text_iff.mp ha)
  · exact hscope _ (Atom.isIn_text_iff.mp hb)

theorem endsEmpty_languageLines {names : List Atom} (h : languageLines style schema lang = .ok (ls, names)) :
    Line.EndsEmpty ls := by
  rcases languageLines_parts h with ⟨rfl, _⟩ | ⟨_, _, _, _, _, _, _, _, _, rfl, _⟩
  · exact .inl rfl
  · exact .inr ⟨_, rfl⟩

/-- The lines before the classes, without the empty one at their end. -/
def openingLines (style : Style) : List Line := (opening style).dropLast

theorem opening_eq (style : Style) : opening style = openingLines style ++ [.empty] := rfl

theorem eq_plain_of_mem_openingLines (hl : l ∈ openingLines style) : ∃ s, l = .plain s := by
  have hmem := dropLast_subset _ hl
  rcases mem_append.mp hmem with hl | hl
  · simp only [Style.opening, mem_cons, not_mem_nil, or_false] at hl
    rcases hl with rfl | rfl
    · exact ⟨_, rfl⟩
    · exact ⟨_, rfl⟩
  · obtain ⟨s, _, rfl⟩ := mem_map.mp hl
    exact ⟨s, rfl⟩

/-- **The class diagram of a plain schema declares classes before their relations, also when it is cut.** -/
theorem isCuttable_lines {filter : Value} (hschema : schema.isPlain)
    (hnames : Schema.hasTextNames schema) (h : lines style schema filter = .ok ls) :
    ∃ body, IsCuttable (openingLines style) body ∧ ls = openingLines style ++ [.empty] ++ body ++ [.close] := by
  obtain ⟨langs, parts, relations, drawn, _, hparts, hrelations, rfl, hdrawn⟩ := lines_ok h
  have hlines : ∀ l ∈ (parts.map (·.1)).flatten, ∃ lang, LanguageLine style schema lang l := by
    intro l hl
    obtain ⟨own, hown, hl⟩ := mem_flatten.mp hl
    obtain ⟨part, hpart, rfl⟩ := mem_map.mp hown
    obtain ⟨lang, _, hlang⟩ := mem_of_mapM hparts hpart
    exact ⟨lang, (languageLines_ok hlang).1 l hl⟩
  have hparts_empty : Line.EndsEmpty (parts.map (·.1)).flatten := by
    refine Line.EndsEmpty.flatten fun own hown => ?_
    obtain ⟨part, hpart, rfl⟩ := mem_map.mp hown
    obtain ⟨lang, _, hlang⟩ := mem_of_mapM hparts hpart
    exact endsEmpty_languageLines hlang
  have hentries : ∀ {items}, relations.items = .ok items → ∀ r ∈ items, r.isPlain ∧ r.hasTextNames := by
    intro items hitems r hr
    refine ⟨isPlain_of_mem_items (isPlain_of_getD hschema rfl hrelations) hitems hr, ?_⟩
    rcases hasField_of_getD hrelations with rfl | hfield
    · cases hitems
      cases hr
    · exact Schema.hasTextNames_of_mem hnames hfield hitems hr
  have hrelated : ∀ l ∈ drawn, l.IsSafe ∧ l.ends ⊆ declaredNames (parts.map (·.1)).flatten := by
    intro l hl
    rcases hdrawn with rfl | ⟨items, arrows, hitems, harrows, rfl⟩
    · cases hl
    · rcases mem_append.mp hl with hl | hl
      · rcases mem_cons.mp hl with rfl | hl
        · exact ⟨Line.isSafe_plain (by decide), nil_subset _⟩
        · exact ⟨isSafe_of_mem_relationLines (fun r hr => (hentries hitems r hr).1) harrows hl,
            ends_relationLines (fun s hs => mem_declaredNames_parts hparts hs) (fun r hr => (hentries hitems r hr).2)
              harrows hl⟩
      · cases mem_singleton.mp hl
        exact ⟨Line.isSafe_plain (by decide), nil_subset _⟩
  refine ⟨(parts.map (·.1)).flatten ++ drawn, .of_declarations (fun l hl => eq_plain_of_mem_openingLines hl)
    (fun l hl => ?_) hrelated hparts_empty ?_, ?_⟩
  · obtain ⟨lang, hlang⟩ := hlines l hl
    exact ⟨hlang.isSafe hschema, hlang.ends_eq⟩
  · rcases hdrawn with rfl | ⟨items, arrows, _, _, rfl⟩
    · exact .inl rfl
    · exact .inr ⟨_, rfl⟩
  · simp only [opening_eq, append_assoc]

end CodeAtlas.ClassDiagram
