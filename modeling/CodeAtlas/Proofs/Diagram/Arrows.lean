import CodeAtlas.Proofs.Diagram.ClassLines
import CodeAtlas.Proofs.Value.Fields
import CodeAtlas.Proofs.Value.Firsts

/-!
# The arrows of class diagrams

A class diagram draws an arrow for a relation between two of its classes, and only one for relations with the same ends
and kind.  Its classes are those of the languages that are selected: a relation that touches a class of another language
has no arrow.

* `isOk_lines`, `filter_isArrow_lines`: for which schemas there is a diagram, and its arrows;
* **`arrows_of_lines`**: the arrows of every class diagram, and for which schemas there is one.
-/

namespace CodeAtlas

open List Value Loose

namespace Value

/-- Whether iteration goes through a value, and all that it meets has a property. -/
def holdsOnly (p : Value → Bool) (v : Value) : Bool :=
  match v.items with
  | .ok xs => xs.all p
  | .error _ => false

theorem isOk_key (v : Value) : v.key.isOk = v.isAtom := by
  cases v <;> rfl

theorem isOk_textFor (name : String) (v : Value) : (v.textFor name).isOk = v.text?.isSome := by
  cases v with
  | atom a => cases a <;> rfl
  | _ => rfl

theorem isOk_asText (v : Value) : v.asText.isOk = v.text?.isSome := by
  cases v with
  | atom a => cases a <;> rfl
  | _ => rfl

end Value

namespace ClassDiagram

/-! ### Classes that can be declared -/

variable {style : Style} {schema : Value}

def visibilityOf (member : Value) : Value := (member.field? "visibility").getD (.text "public")

def isField (v : Value) : Bool := if v.isRecord then (visibilityOf v).isAtom else v.text?.isSome

def isMethod (style : Style) (v : Value) : Bool :=
  if v.isRecord then
    (visibilityOf v).isAtom &&
      ((!style.showPrivate && (visibilityOf v).isText "private") ||
        ((v.field? "params").getD (.list [])).holdsOnly (·.text?.isSome))
  else v.text?.isSome

def stereotypeOf (e : Value) : Value := (e.part "stereotype").orElse ((e.field? "type").getD (.text "class"))

/-- Whether the declaration of a class can be drawn: what is shown of its members has a text. -/
def isDeclarable (style : Style) (e : Value) : Bool :=
  (!style.showFields || !(e.part "fields").truthy || (e.part "fields").holdsOnly isField) &&
  (!style.showMethods || !(e.part "methods").truthy || (e.part "methods").holdsOnly (isMethod style)) &&
  (!(stereotypeOf e).isText "enum" || !(e.part "values").truthy || (e.part "values").holdsOnly fun _ => true)

variable {e : Value} (v : Value)

theorem isOk_ofValue : (Visibility.ofValue v).isOk = v.isAtom := by
  unfold Visibility.ofValue
  rw [isOk_bind_ok fun _ => rfl, isOk_key]

theorem isNone_shown? {v : Value} {x : Visibility} (h : Visibility.ofValue v = .ok x) :
    (shown? style x "").isNone = (!style.showPrivate && v.isText "private") := by
  have howner : (x == .owner) = v.isText "private" := by
    obtain ⟨k, hk, h⟩ := of_bind h
    cases h
    obtain rfl := eq_atom_of_key hk
    cases hfind : Visibility.all.find? fun x => k.same (.text x.word) with
    | some y =>
      have hsame := find?_some hfind
      obtain rfl := Atom.same_text_iff.mp hsame
      cases y <;> decide
    | none =>
      have hother : ¬ k.same (.text "private") := find?_eq_none.mp hfind .owner (by decide)
      have htext : (atom k).isText "private" = false := by
        rw [Bool.eq_false_iff]
        intro htext
        exact hother (Atom.same_text_iff.mpr (atom.inj (eq_text_of_isText htext)))
      rw [htext]
      rfl
  rw [shown?, howner]
  cases !style.showPrivate && v.isText "private" <;> rfl

theorem isOk_memberLine? : (memberLine? style v).isOk = isField v := by
  unfold memberLine? isField
  split
  next h =>
    simp only [getD_eq_field? h, ok_bind]
    rw [isOk_bind_ok fun _ => rfl, isOk_ofValue]
    rfl
  · rw [isOk_bind_ok fun _ => rfl, isOk_textFor]

theorem isOk_parameters (params : Value) : (parameters params).isOk = params.holdsOnly (·.text?.isSome) := by
  unfold parameters holdsOnly
  cases hitems : params.items with
  | error e => rfl
  | ok xs =>
    rw [ok_bind, isOk_bind_ok fun _ => rfl, isOk_mapM, all_filter]
    refine all_congr rfl fun p => ?_
    rw [isOk_asText]
    cases hself : p.isText "self" with
    | false => rfl
    | true =>
      rw [eq_text_of_isText hself]
      rfl

theorem isOk_methodLine? : (methodLine? style v).isOk = isMethod style v := by
  unfold methodLine? isMethod
  split
  next h =>
    simp only [getD_eq_field? h, ok_bind]
    have hrest : ∀ x, Visibility.ofValue (visibilityOf v) = .ok x →
        (if (shown? style x "").isNone = true then pure none
          else do
            let signature := ((v.field? "name").getD (.text "")).display ++ "(" ++
              (← parameters ((v.field? "params").getD (.list []))) ++ ")"
            pure (shown? style x (signature ++ if ((v.field? "return_type").getD (.text "")).truthy then
              ": " ++ ((v.field? "return_type").getD (.text "")).display else "")) : Loose (Option String)).isOk =
        ((!style.showPrivate && (visibilityOf v).isText "private") ||
          ((v.field? "params").getD (.list [])).holdsOnly (·.text?.isSome)) := by
      intro x hx
      rw [isNone_shown? hx]
      cases !style.showPrivate && (visibilityOf v).isText "private" with
      | true => rfl
      | false =>
        rw [Bool.false_or, ← isOk_parameters, if_neg (by simp)]
        rw [isOk_bind_ok fun _ => rfl]
    rw [← isOk_ofValue, ← isOk_bind hrest]
    rfl
  · rw [isOk_bind_ok fun _ => rfl, isOk_textFor]

theorem isOk_memberLines (line? : Value → Loose (Option String)) (members : Value) :
    (memberLines line? members).isOk = members.holdsOnly fun v => (line? v).isOk := by
  unfold memberLines holdsOnly
  cases hitems : members.items with
  | error e => rfl
  | ok xs => rw [ok_bind, isOk_bind_ok fun _ => rfl, isOk_mapM]

theorem isOk_fieldLines (h : e.isRecord) : (fieldLines style e).isOk =
    (!style.showFields || !(e.part "fields").truthy || (e.part "fields").holdsOnly isField) := by
  unfold fieldLines
  cases style.showFields with
  | false => rfl
  | true =>
    rw [getD_eq_field? h, ok_bind, truthy_getD_nil]
    cases hfields : (e.part "fields").truthy with
    | false => rfl
    | true =>
      have hmembers : (memberLines (memberLine? style) (e.part "fields")).isOk =
          (e.part "fields").holdsOnly isField := by
        simp only [isOk_memberLines, isOk_memberLine?]
      have hrest : ∀ ls : List Line, (do
          return ls ++ if (← e.get "methods").truthy then [.inner (.plain "..")] else [] :
            Loose (List Line)).isOk = true := by
        intro ls
        rw [get_eq_part h]
        rfl
      rw [getD_eq_part_of_truthy hfields]
      exact (isOk_bind_ok hrest).trans hmembers

theorem isOk_methodLines (h : e.isRecord) : (methodLines style e).isOk =
    (!style.showMethods || !(e.part "methods").truthy || (e.part "methods").holdsOnly (isMethod style)) := by
  unfold methodLines
  cases style.showMethods with
  | false => rfl
  | true =>
    rw [getD_eq_field? h, ok_bind, truthy_getD_nil]
    cases hmethods : (e.part "methods").truthy with
    | false => rfl
    | true =>
      rw [getD_eq_part_of_truthy hmethods]
      show (memberLines (methodLine? style) (e.part "methods")).isOk = _
      simp only [isOk_memberLines, isOk_methodLine?]
      rfl

theorem isOk_valueLines (h : e.isRecord) (stereotype : Value) : (valueLines stereotype e).isOk =
      (!stereotype.isText "enum" || !(e.part "values").truthy || (e.part "values").holdsOnly fun _ => true) := by
  unfold valueLines
  cases stereotype.isText "enum" with
  | false => rfl
  | true =>
    rw [firstOf_eq_orElse h, ok_bind, orElse]
    cases hvalues : (e.part "values").truthy with
    | false => rfl
    | true =>
      rw [if_pos rfl, holdsOnly]
      cases (e.part "values").items with
      | ok xs => simp [Except.isOk, Except.toBool, bind, Except.bind, pure, Except.pure]
      | error f => rfl

theorem isOk_classLines (h : e.isRecord) : (classLines style e).isOk = isDeclarable style e := by
  unfold classLines isDeclarable
  simp only [getD_eq_field? h, get_eq_part h, firstOf_eq_orElse h, ok_bind]
  rw [← isOk_fieldLines h, ← isOk_methodLines h, ← isOk_valueLines h (stereotypeOf e), Bool.and_assoc]
  refine isOk_bind fun fields _ => isOk_bind fun methods _ => ?_
  rw [← Bool.and_true (valueLines (stereotypeOf e) e).isOk]
  exact isOk_bind fun values _ => rfl

/-! ### Schemas -/

/-- An entry for a class whose name is a text, or absent. -/
def isTypedClass (e : Value) : Bool := e.isRecord && (e.part "class").isTextOrNull

def kindOf (r : Value) : Value := (r.field? "type").getD (.text "association")

/-- A relation whose ends are texts, or absent, and whose kind is a text. -/
def isTypedRelation (r : Value) : Bool :=
  r.isRecord && (r.part "from").isTextOrNull && (r.part "to").isTextOrNull && (kindOf r).text?.isSome

/-- A schema that lists such classes under some languages, and such relations. -/
def isTypedSchema (schema : Value) (langs : List String) : Bool :=
  schema.isRecord &&
  (langs.all fun l => ((schema.part l).isNull || (schema.part l).isList) && (schema.listAt l).all isTypedClass) &&
  ((schema.field? "relations").getD (.list [])).isList && (schema.listAt "relations").all isTypedRelation

def declaredIn (schema : Value) (langs : List String) : List String :=
  langs.flatMap fun l => (schema.listAt l).map (·.textAt "class")

/-- Whether both ends of a relation are names, and declared. -/
def joinsDeclared (names : List String) (r : Value) : Bool :=
  (r.textAt "from" != "" && names.contains (r.textAt "from")) && (r.textAt "to" != "" && names.contains (r.textAt "to"))

def kindWord (r : Value) : String := (kindOf r).text?.getD ""

/-- What tells the relations of a diagram apart: their ends and their kind. -/
def relationKey (r : Value) : String × String × String := (r.textAt "from", r.textAt "to", kindWord r)

/-- How many objects stand at the ends of a relation. -/
def countsOf (r : Value) : Value × Value :=
  let m := (r.field? "multiplicity").getD (.record [])
  if m.isRecord then ((m.field? "from").getD (.text ""), (m.field? "to").getD (.text ""))
  else ((r.field? "multiplicity_from").getD (.text ""), (r.field? "multiplicity_to").getD (.text ""))

def labelOf (r : Value) : Value := (r.field? "label").getD (.text "")

def arrowLine (r : Value) : Line :=
  .joins (r.textAt "from") (arrowText (countsOf r).1 (countsOf r).2 (.text (kindWord r))) (r.textAt "to")
    (if (labelOf r).truthy then " : " ++ (labelOf r).display else "")

/-! ### Relations -/

variable {declared : List Atom} {names : List String}

theorem drawn?_eq (hdeclared : ∀ s, s ≠ "" → (.text s ∈ declared ↔ s ∈ names)) {r : Value}
    (hr : isTypedRelation r) : drawn? declared r = .ok (if joinsDeclared names r then
      some (.text (r.textAt "from"), .text (r.textAt "to"), .text (kindWord r)) else none) := by
  simp only [isTypedRelation, Bool.and_eq_true] at hr
  obtain ⟨⟨⟨hrecord, hfrom⟩, hto⟩, hkind⟩ := hr
  have hin : ∀ s, s ≠ "" → (Atom.text s).isIn declared = names.contains s := by
    intro s hs
    rw [Bool.eq_iff_iff, Atom.isIn_text_iff, hdeclared s hs, contains_iff_mem]
  obtain ⟨k, hk⟩ := Option.isSome_iff_exists.mp hkind
  have hword : kindOf r = .text (kindWord r) := by
    rw [kindWord, hk]
    exact text?_eq_some_iff.mp hk
  unfold drawn?
  rw [get_eq_part hrecord, get_eq_part hrecord, getD_eq_field? hrecord]
  simp only [ok_bind]
  rw [truthy_part hfrom, truthy_part hto]
  unfold joinsDeclared
  cases hguard : !(r.textAt "from" != "") || !(r.textAt "to" != "") with
  | true =>
    have hempty : r.textAt "from" = "" ∨ r.textAt "to" = "" := by simpa using hguard
    have hnone : ((r.textAt "from" != "" && names.contains (r.textAt "from")) &&
        (r.textAt "to" != "" && names.contains (r.textAt "to"))) = false := by
      rcases hempty with hempty | hempty
      · simp [hempty]
      · simp [hempty]
    rw [hnone]
    rfl
  | false =>
    have hends : r.textAt "from" ≠ "" ∧ r.textAt "to" ≠ "" := by simpa using hguard
    obtain ⟨hsource, htarget⟩ := hends
    have hkey : ∀ s, (Value.text s).key = .ok (.text s) := fun _ => rfl
    rw [part_eq_text hfrom hsource, part_eq_text hto htarget, bne_iff_ne.mpr hsource, bne_iff_ne.mpr htarget, ← hword]
    simp only [hkey, ok_bind, hin _ hsource, hin _ htarget]
    cases names.contains (r.textAt "from") with
    | false => rfl
    | true => cases names.contains (r.textAt "to") <;> rfl

theorem multiplicities_eq {r : Value} (hrecord : r.isRecord) : multiplicities r = .ok (countsOf r) := by
  unfold multiplicities countsOf
  rw [getD_eq_field? hrecord, ok_bind]
  dsimp only
  split
  next hm => rw [getD_eq_field? hm, getD_eq_field? hm]; rfl
  · rw [getD_eq_field? hrecord, getD_eq_field? hrecord]
    rfl

theorem relationLine_eq {r : Value} (hrecord : r.isRecord) :
    relationLine r (.text (r.textAt "from")) (.text (r.textAt "to")) (.text (kindWord r)) = .ok (arrowLine r) := by
  unfold relationLine
  rw [multiplicities_eq hrecord, ok_bind, getD_eq_field? hrecord]
  rfl

def keyAtoms (k : String × String × String) : Atom × Atom × Atom := (.text k.1, .text k.2.1, .text k.2.2)

theorem any_keyAtoms (seen : List (String × String × String)) (source target kind : String) :
    ((seen.map keyAtoms).any fun s => s.1.same (.text source) && s.2.1.same (.text target) && s.2.2.same (.text kind)) =
      seen.any (· == (source, target, kind)) := by
  rw [any_map]
  refine any_congr rfl fun s => ?_
  rw [Bool.eq_iff_iff]
  simp only [Function.comp, keyAtoms, Bool.and_eq_true, Atom.same_text_iff, Atom.text.injEq, beq_iff_eq, Prod.ext_iff,
    and_assoc]

theorem relationLinesFrom_eq (hdeclared : ∀ s, s ≠ "" → (.text s ∈ declared ↔ s ∈ names))
    (seen : List (String × String × String)) {rs : List Value} (hrs : ∀ r ∈ rs, isTypedRelation r) :
    relationLinesFrom declared (seen.map keyAtoms) rs =
      .ok ((firstsFrom relationKey (· == ·) seen (rs.filter (joinsDeclared names))).map arrowLine) := by
  induction rs generalizing seen with
  | nil => rfl
  | cons r rs ih =>
    obtain ⟨hr, hrest⟩ := forall_mem_cons.mp hrs
    have hrecord : r.isRecord := by
      simp only [isTypedRelation, Bool.and_eq_true] at hr
      exact hr.1.1.1
    rw [relationLinesFrom, drawn?_eq hdeclared hr, ok_bind]
    cases hjoins : joinsDeclared names r with
    | false =>
      rw [filter_cons_of_neg (by simp [hjoins])]
      exact ih seen hrest
    | true =>
      have hkey : (Value.text (kindWord r)).key = .ok (.text (kindWord r)) := rfl
      have hany : ((seen.map keyAtoms).any fun s => s.1.same (.text (r.textAt "from")) &&
          s.2.1.same (.text (r.textAt "to")) && s.2.2.same (.text (kindWord r))) = seen.any (· == relationKey r) :=
        any_keyAtoms ..
      rw [filter_cons_of_pos hjoins, if_pos rfl]
      dsimp only
      rw [hkey, ok_bind, hany]
      cases hseen : seen.any (· == relationKey r) with
      | true =>
        rw [firstsFrom_cons_met hseen, if_pos rfl]
        exact ih seen hrest
      | false =>
        rw [firstsFrom_cons_new hseen, if_neg Bool.false_ne_true]
        have hline := relationLine_eq hrecord
        have hmore := ih (relationKey r :: seen) hrest
        show relationLine r (.text (r.textAt "from")) (.text (r.textAt "to")) (.text (kindWord r)) >>= _ = _
        rw [hline, ok_bind]
        show relationLinesFrom declared ((relationKey r :: seen).map keyAtoms) rs >>= _ = _
        rw [hmore]
        rfl

/-! ### Languages -/

theorem isOk_entry {e : Value} (he : isTypedClass e) : (do
    let ls ← classLines style e
    return (ls, ← (← e.get "class").key) : Loose (List Line × Atom)).isOk = isDeclarable style e := by
  obtain ⟨hrecord, hname⟩ := Bool.and_eq_true_iff.mp he
  have hatom : (e.part "class").isAtom := by
    rcases part_cases hname with ⟨hpart, _⟩ | hpart
    · rw [hpart]
      rfl
    · rw [hpart]
      rfl
  rw [← isOk_classLines hrecord, ← Bool.and_true (classLines style e).isOk]
  refine isOk_bind fun ls _ => ?_
  rw [get_eq_part hrecord, ok_bind, isOk_bind_ok fun _ => rfl, isOk_key, hatom]

theorem part_of_entry {e : Value} {d : List Line × Atom} (h : (do
    let ls ← classLines style e
    return (ls, ← (← e.get "class").key) : Loose (List Line × Atom)) = .ok d) : e.part "class" = .atom d.2 := by
  obtain ⟨ls, _, h⟩ := of_bind h
  obtain ⟨name, hname, h⟩ := of_bind h
  obtain ⟨a, ha, h⟩ := of_bind h
  cases h
  rw [part_of_get hname, eq_atom_of_key ha]

section

variable {lang : String} (hrecord : schema.isRecord) (hlist : ((schema.part lang).isNull || (schema.part lang).isList))

include hrecord hlist

theorem classesUnder_eq : ∃ classes, classesUnder schema (.text lang) = .ok classes ∧
    (classes = .list (schema.listAt lang) ∨ classes.truthy = false ∧ schema.listAt lang = []) := by
  have hclasses : classesUnder schema (.text lang) = .ok ((schema.field? lang).getD (.list [])) := by
    cases schema with
    | record fs => rfl
    | _ => cases hrecord
  refine ⟨_, hclasses, ?_⟩
  cases hfield : schema.field? lang with
  | none => exact .inl (congrArg Value.list (listAt_of_none hfield).symm)
  | some v =>
    rw [part_of_field? hfield, Bool.or_eq_true] at hlist
    rcases hlist with hnull | hlist
    · obtain rfl := eq_null_of_isNull hnull
      refine .inr ⟨rfl, ?_⟩
      rw [listAt, part_of_field? hfield]
      rfl
    · cases v with
      | list xs => exact .inl (congrArg Value.list (listAt_of_field? hfield).symm)
      | _ => cases hlist

theorem isOk_languageLines (hclasses : ∀ e ∈ schema.listAt lang, isTypedClass e) :
    (languageLines style schema (.text lang)).isOk = (schema.listAt lang).all (isDeclarable style) := by
  obtain ⟨classes, hunder, hcases⟩ := classesUnder_eq hrecord hlist
  unfold languageLines
  rw [hunder, ok_bind]
  rcases hcases with rfl | ⟨hfalsy, hnil⟩
  · cases hentries : schema.listAt lang with
    | nil => rfl
    | cons e es =>
      rw [hentries] at hclasses
      show (List.mapM _ (e :: es) >>= _ : Loose _).isOk = _
      rw [isOk_bind_ok fun _ => rfl, isOk_mapM, Bool.eq_iff_iff, all_eq_true, all_eq_true]
      exact forall₂_congr fun x hx => by rw [isOk_entry (hclasses x hx)]
  · rw [hfalsy, hnil]
    rfl

theorem mem_languageLines (hclasses : ∀ e ∈ schema.listAt lang, isTypedClass e) {part : List Line × List Atom}
    (h : languageLines style schema (.text lang) = .ok part) {s : String} (hs : s ≠ "") :
    .text s ∈ part.2 ↔ s ∈ (schema.listAt lang).map (·.textAt "class") := by
  obtain ⟨classes, hunder, hcases⟩ := classesUnder_eq hrecord hlist
  unfold languageLines at h
  rw [hunder, ok_bind] at h
  rcases hcases with rfl | ⟨hfalsy, hnil⟩
  · cases hentries : schema.listAt lang with
    | nil =>
      rw [hentries] at h
      cases of_pure h
      simp
    | cons e es =>
      rw [hentries] at hclasses h
      obtain ⟨word, _, h⟩ := of_bind h
      obtain ⟨items, hitems, h⟩ := of_bind h
      obtain rfl : e :: es = items := Except.ok.inj hitems
      obtain ⟨declared, hdeclared, h⟩ := of_bind h
      cases of_pure h
      constructor
      · intro hmem
        obtain ⟨d, hd, hds⟩ := mem_map.mp hmem
        obtain ⟨x, hx, hxd⟩ := mem_of_mapM hdeclared hd
        refine mem_map.mpr ⟨x, hx, ?_⟩
        rw [textAt, part_of_entry hxd, hds]
        rfl
      · intro hmem
        obtain ⟨x, hx, rfl⟩ := mem_map.mp hmem
        obtain ⟨d, hd, hxd⟩ := exists_of_mapM hdeclared hx
        have hname := (Bool.and_eq_true_iff.mp (hclasses x hx)).2
        have hatom := (part_of_entry hxd).symm.trans (part_eq_text hname hs)
        exact mem_map.mpr ⟨d, hd, atom.inj hatom⟩
  · rw [hfalsy] at h
    cases of_pure h
    simp [hnil]

end

/-! ### The diagram -/

/-- The languages that are selected: those of a filter, or all where there is no filter or an empty one. -/
def selected (filter : Option (List String)) : List String := (filter.filter (!·.isEmpty)).getD Schema.languages

def filterValue (filter : Option (List String)) : Value := (filter.map Value.texts).getD .null

theorem items_languagesOf (filter : Option (List String)) :
    (languagesOf (filterValue filter)).items = .ok ((selected filter).map .text) := by
  cases filter with
  | none => rfl
  | some ls => cases ls <;> rfl

end ClassDiagram

def Line.isArrow (l : Line) : Bool := !l.ends.isEmpty

namespace ClassDiagram

def drawnLines (names : List String) (rs : List Value) : List Line :=
  if rs.isEmpty then []
  else .plain "' Relationships" ::
    (firsts relationKey (· == ·) (rs.filter (joinsDeclared names))).map arrowLine ++ [.empty]

theorem parts_of_isTypedSchema {langs : List String} (h : isTypedSchema schema langs) :
    schema.isRecord ∧
    (∀ l ∈ langs, ((schema.part l).isNull || (schema.part l).isList) ∧
      ∀ e ∈ schema.listAt l, isTypedClass e) ∧
    schema.getD "relations" (.list []) = .ok (.list (schema.listAt "relations")) ∧
    ∀ r ∈ schema.listAt "relations", isTypedRelation r := by
  simp only [isTypedSchema, Bool.and_eq_true, all_eq_true] at h
  obtain ⟨⟨⟨hrecord, hclasses⟩, hlist⟩, hrelations⟩ := h
  refine ⟨hrecord, hclasses, ?_, hrelations⟩
  rw [getD_eq_field? hrecord]
  cases hfield : schema.field? "relations" with
  | none => rw [listAt_of_none hfield]; rfl
  | some v =>
    rw [hfield] at hlist
    cases v with
    | list xs => rw [listAt_of_field? hfield]; rfl
    | _ => cases hlist

variable {filter : Option (List String)}

theorem lines_of_parts (h : isTypedSchema schema (selected filter)) {parts : List (List Line × List Atom)}
    (hparts : ((selected filter).map Value.text).mapM (languageLines style schema) = .ok parts) :
    lines style schema (filterValue filter) = .ok (opening style ++ (parts.map (·.1)).flatten ++
      drawnLines (declaredIn schema (selected filter)) (schema.listAt "relations") ++ [.close]) := by
  obtain ⟨hrecord, hclasses, hrelations, htyped⟩ := parts_of_isTypedSchema h
  have hdeclared : ∀ s, s ≠ "" →
      (.text s ∈ (parts.map (·.2)).flatten ↔ s ∈ declaredIn schema (selected filter)) := by
    intro s hs
    rw [declaredIn, mem_flatMap, mem_flatten]
    constructor
    · rintro ⟨names, hnames, hmem⟩
      obtain ⟨part, hp, rfl⟩ := mem_map.mp hnames
      obtain ⟨v, hv, hvp⟩ := mem_of_mapM hparts hp
      obtain ⟨l, hl, rfl⟩ := mem_map.mp hv
      exact ⟨l, hl, (mem_languageLines hrecord (hclasses l hl).1 (hclasses l hl).2 hvp hs).mp hmem⟩
    · rintro ⟨l, hl, hmem⟩
      obtain ⟨part, hp, hvp⟩ := exists_of_mapM hparts (mem_map_of_mem hl)
      exact ⟨part.2, mem_map_of_mem hp,
        (mem_languageLines hrecord (hclasses l hl).1 (hclasses l hl).2 hvp hs).mpr hmem⟩
  have hlines := relationLinesFrom_eq hdeclared [] htyped
  unfold lines
  rw [items_languagesOf, ok_bind, hparts, ok_bind, hrelations, ok_bind]
  cases hrs : schema.listAt "relations" with
  | nil => rfl
  | cons r rs =>
    rw [hrs] at hlines
    show (relationLinesFrom _ [] (r :: rs) >>= _ : Loose _) = _
    rw [map_nil] at hlines
    rw [hlines]
    rfl

theorem isOk_lines (h : isTypedSchema schema (selected filter)) :
    (lines style schema (filterValue filter)).isOk =
      (selected filter).all fun l => (schema.listAt l).all (isDeclarable style) := by
  obtain ⟨hrecord, hclasses, _, _⟩ := parts_of_isTypedSchema h
  have hall : (((selected filter).map Value.text).mapM (languageLines style schema)).isOk =
      (selected filter).all fun l => (schema.listAt l).all (isDeclarable style) := by
    rw [isOk_mapM, all_map, Bool.eq_iff_iff, all_eq_true, all_eq_true]
    exact forall₂_congr fun l hl => by
      rw [Function.comp, isOk_languageLines hrecord (hclasses l hl).1 (hclasses l hl).2]
  rw [← hall, Bool.eq_iff_iff, isOk_iff, isOk_iff]
  constructor
  · rintro ⟨ls, hls⟩
    obtain ⟨langs, parts, _, _, hlangs, hparts, _⟩ := lines_ok hls
    rw [items_languagesOf] at hlangs
    cases hlangs
    exact ⟨parts, hparts⟩
  · rintro ⟨parts, hparts⟩
    exact ⟨_, lines_of_parts h hparts⟩

theorem filter_isArrow_drawnLines (names : List String) (rs : List Value) :
    (drawnLines names rs).filter (·.isArrow) =
      (firsts relationKey (· == ·) (rs.filter (joinsDeclared names))).map arrowLine := by
  unfold drawnLines
  split
  next hnil =>
    rw [isEmpty_iff.mp hnil]
    rfl
  · have hself : ((firsts relationKey (· == ·) (rs.filter (joinsDeclared names))).map arrowLine).filter (·.isArrow) =
        (firsts relationKey (· == ·) (rs.filter (joinsDeclared names))).map arrowLine := by
      rw [filter_eq_self]
      intro l hl
      obtain ⟨r, _, rfl⟩ := mem_map.mp hl
      rfl
    rw [filter_append, filter_cons_of_neg (by simp [Line.isArrow]), hself]
    exact append_nil _

theorem filter_isArrow_lines (h : isTypedSchema schema (selected filter))
    {ls : List Line} (hls : lines style schema (filterValue filter) = .ok ls) :
    ls.filter (·.isArrow) = (firsts relationKey (· == ·) ((schema.listAt "relations").filter
      (joinsDeclared (declaredIn schema (selected filter))))).map arrowLine := by
  obtain ⟨langs, parts, _, _, hlangs, hparts, _⟩ := lines_ok hls
  rw [items_languagesOf] at hlangs
  cases hlangs
  obtain rfl := Except.ok.inj ((lines_of_parts h hparts).symm.trans hls)
  have hopening : (opening style).filter (·.isArrow) = [] := by
    simp [opening, Style.opening, Line.isArrow]
  have hparts_nil : (parts.map (·.1)).flatten.filter (·.isArrow) = [] := by
    rw [filter_eq_nil_iff]
    intro l hl
    obtain ⟨own, hown, hl⟩ := mem_flatten.mp hl
    obtain ⟨part, hp, rfl⟩ := mem_map.mp hown
    obtain ⟨v, _, hvp⟩ := mem_of_mapM hparts hp
    simp [Line.isArrow, ((languageLines_ok hvp).1 l hl).ends_eq]
  have hclose : [Line.close].filter (·.isArrow) = [] := rfl
  rw [filter_append, filter_append, filter_append, hopening, hparts_nil, hclose, filter_isArrow_drawnLines, append_nil]
  rfl

/-- **The arrows of a class diagram.**  Let a schema list classes with names under the languages that are selected, and
relations with ends and kinds.  Its diagram can be drawn if and only if all these classes can be declared.  Its arrows
are then, in order, one for the first relation of each key among the relations both of whose ends are names of these
classes; no other relation has one. -/
theorem arrows_of_lines (style : Style) (schema : Value) (filter : Option (List String))
    (h : isTypedSchema schema (selected filter) = true) :
    (lines style schema (filterValue filter)).isOk =
      ((selected filter).all fun l => (schema.listAt l).all (isDeclarable style)) ∧
    ∀ ls, lines style schema (filterValue filter) = .ok ls →
      ls.filter (·.isArrow) = (firsts relationKey (· == ·) ((schema.listAt "relations").filter
        (joinsDeclared (declaredIn schema (selected filter))))).map arrowLine :=
  ⟨isOk_lines h, fun _ hls => filter_isArrow_lines h hls⟩

/-- Animals in one language and their owner in another one, with relations between them. -/
def zoo : Value := .ofFields [
  ("python", .list [.ofFields [("class", .text "Cat"), ("fields", .texts ["- name: str"])],
    .ofFields [("class", .text "Animal")]]),
  ("java", .list [.ofFields [("class", .text "Owner")]]),
  ("relations", .list [
    .ofFields [("from", .text "Cat"), ("to", .text "Animal"), ("type", .text "extends")],
    .ofFields [("from", .text "Owner"), ("to", .text "Cat")],
    .ofFields [("from", .text "Cat"), ("to", .text "Animal"), ("type", .text "extends"), ("label", .text "again")],
    .ofFields [("from", .text "Cat"), ("to", .text "Cat"), ("label", .text "likes")]])]

/-- With one language selected, the owner has no arrow; with both, it has one. -/
theorem arrows_of_lines_zoo :
    isTypedSchema zoo (selected (some ["python"])) = true ∧ isTypedSchema zoo (selected (some [])) = true ∧
    (∃ ls, lines {} zoo (filterValue (some ["python"])) = .ok ls ∧
      ls.filter (·.isArrow) = [.joins "Cat" " --|> " "Animal" "", .joins "Cat" " -- " "Cat" " : likes"]) ∧
    ∃ ls, lines {} zoo (filterValue (some [])) = .ok ls ∧
      ls.filter (·.isArrow) =
        [.joins "Cat" " --|> " "Animal" "", .joins "Owner" " -- " "Cat" "", .joins "Cat" " -- " "Cat" " : likes"] := by
  have hone : isTypedSchema zoo (selected (some ["python"])) = true := by decide
  have hall : isTypedSchema zoo (selected (some [])) = true := by decide
  obtain ⟨hone_ok, hone_arrows⟩ := arrows_of_lines {} zoo (some ["python"]) hone
  obtain ⟨hall_ok, hall_arrows⟩ := arrows_of_lines {} zoo (some []) hall
  obtain ⟨ls, hls⟩ := Loose.isOk_iff.mp (hone_ok.trans (by decide))
  obtain ⟨ms, hms⟩ := Loose.isOk_iff.mp (hall_ok.trans (by decide))
  exact ⟨hone, hall, ⟨ls, hls, (hone_arrows ls hls).trans rfl⟩, ms, hms, (hall_arrows ms hms).trans rfl⟩

end ClassDiagram

end CodeAtlas
