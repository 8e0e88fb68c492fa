import CodeAtlas.Diagram.ClassDiagram
import CodeAtlas.Proofs.Diagram.Scope
import CodeAtlas.Proofs.Value.Loose

/-!
# The lines of class diagrams

What the lines of a class diagram can be, and where the texts in them come from.

* `mem_classLines`, `mem_declaredNames_classLines`: the declaration of a class has such lines only, and declares its
  name.
-/

namespace CodeAtlas.ClassDiagram

open List

open Loose (of_bind of_pure)

/-! ### Classes -/

inductive MemberText (style : Style) (cls : Value) : String → Prop
  | field {fields m : Value} {items : List Value} {t : String} (hfields : cls.getD "fields" (.list []) = .ok fields)
    (hitems : fields.items = .ok items) (hm : m ∈ items) (ht : memberLine? style m = .ok (some t)) :
    MemberText style cls t
  | method {methods m : Value} {items : List Value} {t : String}
    (hmethods : cls.getD "methods" (.list []) = .ok methods) (hitems : methods.items = .ok items) (hm : m ∈ items)
    (ht : methodLine? style m = .ok (some t)) : MemberText style cls t
  | value {values v : Value} {items : List Value} (hvalues : cls.firstOf ["values"] (.list []) = .ok values)
    (hitems : values.items = .ok items) (hv : v ∈ items) : MemberText style cls v.display
  | divider : MemberText style cls ".."

inductive ClassLine (style : Style) (cls : Value) : Line → Prop
  | head {name : Value} (shape : Shape) (hname : cls.getD "class" (.text "UnnamedClass") = .ok name) :
    ClassLine style cls (.declares shape.declarator name.display (shape.mark ++ " \x7b"))
  | member {t : String} (ht : MemberText style cls t) : ClassLine style cls (.inner (.plain t))
  | foot : ClassLine style cls (.plain "\x7d")
  | noteOn {name : Value} (hname : cls.getD "class" (.text "UnnamedClass") = .ok name) :
    ClassLine style cls (.plain ("note right of " ++ name.display))
  | package {package outer : Value} (houter : cls.get "namespace" = .ok outer)
    (hpackage : cls.firstOf ["package"] outer = .ok package) :
    ClassLine style cls (.inner (.plain ("Package: " ++ package.display)))
  | noteEnd : ClassLine style cls (.plain "end note")
  | gap : ClassLine style cls .empty

variable {style : Style} {cls schema : Value} {l : Line} {ls : List Line} {t : String}

theorem ClassLine.ends_eq (h : ClassLine style cls l) : l.ends = [] := by cases h <;> rfl

theorem mem_memberLines {line? : Value → Loose (Option String)} {members : Value}
    (h : memberLines line? members = .ok ls) (hl : l ∈ ls) :
    ∃ items, members.items = .ok items ∧ ∃ m ∈ items, ∃ t, line? m = .ok (some t) ∧ l = .inner (.plain t) := by
  obtain ⟨items, hitems, h⟩ := of_bind h
  obtain ⟨found, hfound, h⟩ := of_bind h
  cases h
  obtain ⟨t, ht, rfl⟩ := mem_map.mp hl
  obtain ⟨o, ho, hot⟩ := mem_filterMap.mp ht
  obtain ⟨m, hm, hmo⟩ := Loose.mem_of_mapM hfound ho
  obtain rfl : o = some t := hot
  exact ⟨items, hitems, m, hm, t, hmo, rfl⟩

theorem mem_fieldLines (h : fieldLines style cls = .ok ls) (hl : l ∈ ls) :
    ∃ t, l = .inner (.plain t) ∧ MemberText style cls t := by
  unfold fieldLines at h
  split at h
  · cases h
    cases hl
  · obtain ⟨fields, hfields, h⟩ := of_bind h
    split at h
    · cases h
      cases hl
    · obtain ⟨members, hmembers, h⟩ := of_bind h
      obtain ⟨methods, _, h⟩ := of_bind h
      cases h
      rcases mem_append.mp hl with hl | hl
      · obtain ⟨items, hitems, m, hm, t, ht, rfl⟩ := mem_memberLines hmembers hl
        exact ⟨t, rfl, .field hfields hitems hm ht⟩
      · split at hl
        · exact ⟨"..", mem_singleton.mp hl, .divider⟩
        · cases hl

theorem mem_methodLines (h : methodLines style cls = .ok ls) (hl : l ∈ ls) :
    ∃ t, l = .inner (.plain t) ∧ MemberText style cls t := by
  unfold methodLines at h
  split at h
  · cases h
    cases hl
  · obtain ⟨methods, hmethods, h⟩ := of_bind h
    split at h
    · cases h
      cases hl
    · obtain ⟨items, hitems, m, hm, t, ht, rfl⟩ := mem_memberLines h hl
      exact ⟨t, rfl, .method hmethods hitems hm ht⟩

theorem mem_valueLines {stereotype : Value} (h : valueLines stereotype cls = .ok ls) (hl : l ∈ ls) :
    ∃ t, l = .inner (.plain t) ∧ MemberText style cls t := by
  unfold valueLines at h
  split at h
  · cases h
    cases hl
  · obtain ⟨values, hvalues, h⟩ := of_bind h
    obtain ⟨items, hitems, h⟩ := of_bind h
    cases h
    obtain ⟨v, hv, rfl⟩ := mem_map.mp hl
    exact ⟨v.display, rfl, .value hvalues hitems hv⟩

theorem mem_packageLines {name package outer : Value} (hname : cls.getD "class" (.text "UnnamedClass") = .ok name)
    (houter : cls.get "namespace" = .ok outer) (hpackage : cls.firstOf ["package"] outer = .ok package)
    (hl : l ∈ packageLines name package) : ClassLine style cls l := by
  unfold packageLines at hl
  split at hl
  · simp only [mem_cons, not_mem_nil, or_false] at hl
    rcases hl with rfl | rfl | rfl
    · exact .noteOn hname
    · exact .package houter hpackage
    · exact .noteEnd
  · cases hl

/-- The declaration of a class, taken apart: its head, its members, the line that closes it, and a note on its
package. -/
theorem classLines_parts (h : classLines style cls = .ok ls) :
    ∃ (name outer package : Value) (shape : Shape) (members : List Line),
      cls.getD "class" (.text "UnnamedClass") = .ok name ∧ cls.get "namespace" = .ok outer ∧
      cls.firstOf ["package"] outer = .ok package ∧
      (∀ l ∈ members, ∃ t, l = .inner (.plain t) ∧ MemberText style cls t) ∧
      ls = .declares shape.declarator name.display (shape.mark ++ " \x7b") :: members ++ [.plain "\x7d"] ++
        (packageLines name package ++ [.empty]) := by
  obtain ⟨name, hname, h⟩ := of_bind h
  obtain ⟨kind, _, h⟩ := of_bind h
  obtain ⟨stereotype, _, h⟩ := of_bind h
  obtain ⟨isAbstract, _, h⟩ := of_bind h
  obtain ⟨outer, houter, h⟩ := of_bind h
  obtain ⟨package, hpackage, h⟩ := of_bind h
  obtain ⟨fields, hfields, h⟩ := of_bind h
  obtain ⟨methods, hmethods, h⟩ := of_bind h
  obtain ⟨values, hvalues, h⟩ := of_bind h
  cases h
  refine ⟨name, outer, package, .of stereotype isAbstract.truthy, fields ++ methods ++ values, hname, houter, hpackage,
    fun l hl => ?_, by simp⟩
  rcases mem_append.mp hl with hl | hl
  · rcases mem_append.mp hl with hl | hl
    · exact mem_fieldLines hfields hl
    · exact mem_methodLines hmethods hl
  · exact mem_valueLines hvalues hl

theorem classLines_ok (h : classLines style cls = .ok ls) : ∃ (name : Value) (shape : Shape) (rest : List Line),
    cls.getD "class" (.text "UnnamedClass") = .ok name ∧
      ls = .declares shape.declarator name.display (shape.mark ++ " \x7b") :: rest ∧
      ∀ l ∈ rest, ClassLine style cls l := by
  obtain ⟨name, outer, package, shape, members, hname, houter, hpackage, hmembers, rfl⟩ := classLines_parts h
  refine ⟨name, shape, members ++ [.plain "\x7d"] ++ (packageLines name package ++ [.empty]), hname, by simp,
    fun l hl => ?_⟩
  simp only [mem_append, mem_singleton] at hl
  rcases hl with (hl | rfl) | hl | rfl
  · obtain ⟨t, rfl, ht⟩ := hmembers l hl
    exact .member ht
  · exact .foot
  · exact mem_packageLines hname houter hpackage hl
  · exact .gap

theorem mem_classLines (h : classLines style cls = .ok ls) (hl : l ∈ ls) : ClassLine style cls l := by
  obtain ⟨name, shape, rest, hname, rfl, hrest⟩ := classLines_ok h
  rcases mem_cons.mp hl with rfl | hl
  · exact .head shape hname
  · exact hrest l hl

theorem mem_declaredNames_classLines {name : String} (h : classLines style cls = .ok ls)
    (hname : cls.get "class" = .ok (.text name)) : name ∈ declaredNames ls := by
  obtain ⟨v, shape, rest, hv, rfl, _⟩ := classLines_ok h
  have heq : v = .text name := by
    cases cls with
    | record fs =>
      have hget : (Record.get? (.text "class") fs).getD .null = .text name := Except.ok.inj hname
      have hgetD : (Record.get? (.text "class") fs).getD (.text "UnnamedClass") = v := Except.ok.inj hv
      cases hfound : Record.get? (.text "class") fs with
      | none =>
        rw [hfound] at hget
        cases hget
      | some w =>
        rw [hfound, Option.getD_some] at hget hgetD
        exact hgetD.symm.trans hget
    | _ => cases hname
  rw [heq]
  exact mem_declaredNames mem_cons_self rfl

/-! ### Languages -/

inductive LanguageLine (style : Style) (schema lang : Value) : Line → Prop
  | heading {word : String} {classes : Value} (hclasses : classesUnder schema lang = .ok classes)
    (htruthy : classes.truthy = true) (hword : lang.upper = .ok word) :
    LanguageLine style schema lang (.plain ("' " ++ word ++ " Classes"))
  | entry {classes cls : Value} {items : List Value} {l : Line} (hclasses : classesUnder schema lang = .ok classes)
    (hitems : classes.items = .ok items) (hcls : cls ∈ items) (hl : ClassLine style cls l) :
    LanguageLine style schema lang l
  | gap : LanguageLine style schema lang .empty

variable {lang : Value} {names : List Atom}

theorem LanguageLine.ends_eq (h : LanguageLine style schema lang l) : l.ends = [] := by
  cases h with
  | heading => rfl
  | entry _ _ _ hl => exact hl.ends_eq
  | gap => rfl

theorem languageLines_parts (h : languageLines style schema lang = .ok (ls, names)) :
    ls = [] ∧ names = [] ∨
      ∃ (classes : Value) (word : String) (items : List Value) (declared : List (List Line × Atom)),
      classesUnder schema lang = .ok classes ∧ classes.truthy ∧ lang.upper = .ok word ∧
      classes.items = .ok items ∧ names = declared.map (·.2) ∧
      ls = .plain ("' " ++ word ++ " Classes") :: (declared.map (·.1)).flatten ++ [.empty] ∧
      ∀ d ∈ declared, ∃ cls ∈ items, classLines style cls = .ok d.1 ∧ cls.get "class" = .ok (.atom d.2) := by
  obtain ⟨classes, hclasses, h⟩ := of_bind h
  split at h
  · cases of_pure h
    exact .inl ⟨rfl, rfl⟩
  next htruthy =>
    obtain ⟨word, hword, h⟩ := of_bind h
    obtain ⟨items, hitems, h⟩ := of_bind h
    obtain ⟨declared, hdeclared, h⟩ := of_bind h
    cases of_pure h
    refine .inr ⟨classes, word, items, declared, hclasses, by simpa using htruthy, hword, hitems, rfl, rfl,
      fun d hd => ?_⟩
    obtain ⟨cls, hcls, hd⟩ := Loose.mem_of_mapM hdeclared hd
    obtain ⟨own, hown, hd⟩ := of_bind hd
    obtain ⟨name, hname, hd⟩ := of_bind hd
    obtain ⟨a, ha, hd⟩ := of_bind hd
    cases hd
    exact ⟨cls, hcls, hown, hname.trans (congrArg _ (Value.eq_atom_of_key ha))⟩

theorem languageLines_ok (h : languageLines style schema lang = .ok (ls, names)) :
    (∀ l ∈ ls, LanguageLine style schema lang l) ∧ ∀ a ∈ names, ∃ classes items cls,
      classesUnder schema lang = .ok classes ∧ classes.items = .ok items ∧ cls ∈ items ∧
      cls.get "class" = .ok (.atom a) ∧ ∀ name, a = .text name → name ∈ declaredNames ls := by
  rcases languageLines_parts h with ⟨rfl, rfl⟩ |
    ⟨classes, word, items, declared, hclasses, htruthy, hword, hitems, rfl, rfl, hentry⟩
  · exact ⟨fun l hl => absurd hl not_mem_nil, fun a ha => absurd ha not_mem_nil⟩
  refine ⟨fun l hl => ?_, fun a ha => ?_⟩
  · rcases mem_append.mp hl with hl | hl
    · rcases mem_cons.mp hl with rfl | hl
      · exact .heading hclasses htruthy hword
      · obtain ⟨own, hown, hl⟩ := mem_flatten.mp hl
        obtain ⟨d, hd, rfl⟩ := mem_map.mp hown
        obtain ⟨cls, hcls, hlines, _⟩ := hentry d hd
        exact .entry hclasses hitems hcls (mem_classLines hlines hl)
    · cases mem_singleton.mp hl
      exact .gap
  · obtain ⟨d, hd, rfl⟩ := mem_map.mp ha
    obtain ⟨cls, hcls, hlines, hname⟩ := hentry d hd
    refine ⟨classes, items, cls, hclasses, hitems, hcls, hname, fun name htext => ?_⟩
    rw [htext] at hname
    refine declaredNames_subset (fun l hl => ?_) (mem_declaredNames_classLines hlines hname)
    have hflat := mem_flatten_of_mem (mem_map_of_mem hd) hl
    exact mem_append_left _ (mem_cons_of_mem _ hflat)

/-! ### Relations -/

variable {declared : List Atom} {relation : Value} {a b : Atom}

theorem drawn?_ok {kind : Value} (h : drawn? declared relation = .ok (some (a, b, kind))) :
    relation.get "from" = .ok (.atom a) ∧ relation.get "to" = .ok (.atom b) ∧ a.isIn declared ∧
      b.isIn declared ∧ (Value.atom a).truthy ∧ (Value.atom b).truthy := by
  obtain ⟨source, hsource, h⟩ := of_bind h
  obtain ⟨target, htarget, h⟩ := of_bind h
  obtain ⟨k, _, h⟩ := of_bind h
  split at h
  · cases of_pure h
  next htruthy =>
    obtain ⟨c, hc, h⟩ := of_bind h
    split at h
    · cases of_pure h
    next hfrom =>
      obtain ⟨d, hd, h⟩ := of_bind h
      split at h
      · cases of_pure h
      next hto =>
        cases of_pure h
        obtain rfl := Value.eq_atom_of_key hc
        obtain rfl := Value.eq_atom_of_key hd
        rw [Bool.or_eq_true, not_or] at htruthy
        refine ⟨hsource, htarget, by simpa using hfrom, by simpa using hto, ?_, ?_⟩
        · simpa using htruthy.1
        · simpa using htruthy.2

theorem mem_relationLinesFrom {seen : List (Atom × Atom × Atom)} {relations : List Value}
    (h : relationLinesFrom declared seen relations = .ok ls) (hl : l ∈ ls) :
    ∃ r ∈ relations, ∃ a b k kind, drawn? declared r = .ok (some (a, b, k)) ∧
      relationLine r (.atom a) (.atom b) kind = .ok l := by
  induction relations generalizing seen ls with
  | nil =>
    cases h
    cases hl
  | cons r rs ih =>
    have hrest : ∀ {seen ls}, relationLinesFrom declared seen rs = .ok ls → l ∈ ls → ∃ q ∈ r :: rs, ∃ a b k kind,
        drawn? declared q = .ok (some (a, b, k)) ∧ relationLine q (.atom a) (.atom b) kind = .ok l := by
      intro seen ls h hl
      obtain ⟨q, hq, hdrawn⟩ := ih h hl
      exact ⟨q, mem_cons_of_mem r hq, hdrawn⟩
    obtain ⟨drawn, hdrawn, h⟩ := of_bind h
    cases drawn with
    | none => exact hrest h hl
    | some d =>
      obtain ⟨a, b, k⟩ := d
      obtain ⟨kind, hkind, h⟩ := of_bind h
      split at h
      · exact hrest h hl
      · obtain ⟨line, hline, h⟩ := of_bind h
        obtain ⟨rest, hlines, h⟩ := of_bind h
        cases h
        rcases mem_cons.mp hl with rfl | hl
        · exact ⟨r, mem_cons_self, a, b, k, kind, hdrawn, hline⟩
        · exact hrest hlines hl

/-- What stands between the ends of an arrow: the arrow itself, and how many objects stand at either end. -/
def arrowText (m n : Value) (kind : Atom) : String :=
  " " ++ (if m.truthy then "\"" ++ m.display ++ "\" " else "") ++ arrowFor kind ++
    (if n.truthy then " \"" ++ n.display ++ "\"" else "") ++ " "

theorem relationLine_ok {source target : Value} {kind : Atom} (h : relationLine relation source target kind = .ok l) :
    ∃ m n label, multiplicities relation = .ok (m, n) ∧ relation.getD "label" (.text "") = .ok label ∧
      l = .joins source.display (arrowText m n kind) target.display
        (if label.truthy then " : " ++ label.display else "") := by
  obtain ⟨mn, hmn, h⟩ := of_bind h
  obtain ⟨m, n⟩ := mn
  obtain ⟨label, hlabel, h⟩ := of_bind h
  cases h
  exact ⟨m, n, label, hmn, hlabel, rfl⟩

/-! ### The diagram -/

theorem lines_ok {filter : Value} (h : lines style schema filter = .ok ls) :
    ∃ langs parts relations drawn, (languagesOf filter).items = .ok langs ∧
      langs.mapM (languageLines style schema) = .ok parts ∧ schema.getD "relations" (.list []) = .ok relations ∧
      ls = opening style ++ (parts.map (·.1)).flatten ++ drawn ++ [.close] ∧
      (drawn = [] ∨ ∃ items arrows, relations.items = .ok items ∧
        relationLines (parts.map (·.2)).flatten items = .ok arrows ∧
        drawn = .plain "' Relationships" :: arrows ++ [.empty]) := by
  obtain ⟨langs, hlangs, h⟩ := of_bind h
  obtain ⟨parts, hparts, h⟩ := of_bind h
  obtain ⟨relations, hrelations, h⟩ := of_bind h
  split at h
  · obtain ⟨items, hitems, h⟩ := of_bind h
    obtain ⟨arrows, harrows, h⟩ := of_bind h
    obtain ⟨drawn, hdrawn, h⟩ := of_bind h
    obtain ⟨_, _, h⟩ := of_bind h
    cases h
    exact ⟨langs, parts, relations, drawn, hlangs, hparts, hrelations, rfl,
      .inr ⟨items, arrows, hitems, harrows, (of_pure hdrawn).symm⟩⟩
  · obtain ⟨drawn, hdrawn, h⟩ := of_bind h
    obtain ⟨_, _, h⟩ := of_bind h
    cases h
    exact ⟨langs, parts, relations, drawn, hlangs, hparts, hrelations, rfl, .inl (of_pure hdrawn).symm⟩

end CodeAtlas.ClassDiagram
