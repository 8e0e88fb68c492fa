import CodeAtlas.Proofs.Language.Growth

/-!
# Readers that do not look back

The findings of a language grow text by text.  In Java, C#, TypeScript and C++, what a text adds does not depend on what
was found before it, and neither do the classes it lists.

* `Java.isClassReader_classes`, `CSharp.exists_isClassReader_classes`, `TypeScript.isClassReader_classes`,
  `Cpp.isClassReader_classes`: the four readers;
* `Java.not_has_of_no_classes`, `TypeScript.not_has_of_no_classes`, `Cpp.not_has_of_no_classes`: a text without classes
  relates nothing.
-/

namespace CodeAtlas

open List

inductive Finding where
  | cls (name : String)
  | declared (r : Relation)
  | observed (r : Relation)
  | imported (name : String)

/-- Declared relations are about bases, and observed ones about parts and what is used. -/
def Finding.IsRegular : Finding → Prop
  | .declared r => r.kind = "extends" ∨ r.kind = "implements"
  | .observed r => r.kind = "composition" ∨ r.kind = "uses"
  | _ => True

def Finding.IsRelation : Finding → Prop
  | .declared _ => True
  | .observed _ => True
  | _ => False

namespace Findings

def Has (f : Findings) : Finding → Prop
  | .cls n => n ∈ f.classNames
  | .declared r => r ∈ f.relations
  | .observed r => r ∈ f.compositions ∨ r ∈ f.usages
  | .imported n => n ∈ f.imports

theorem not_has_empty (x : Finding) : ¬ Has {} x := by
  cases x <;> simp [Has]

/-! ### Single steps -/

section

variable {x : Finding} {f : Findings} {n a b : String} {α : Type} {step : Findings → α → Findings}

theorem has_addClass : (f.addClass n).Has x ↔ f.Has x ∨ x = .cls n := by
  cases x <;> simp [Has, addClass, Text.mem_insertAscending, or_comm]

theorem has_addRelation {k : String} :
    (f.addRelation a b k).Has x ↔ f.Has x ∨ x = .declared ⟨a, b, k, some "heuristic"⟩ := by
  cases x <;> simp [Has, addRelation]

theorem has_addComposition :
    (f.addComposition a b).Has x ↔ f.Has x ∨ x = .observed ⟨a, b, "composition", some "heuristic"⟩ := by
  cases x <;> simp [Has, addComposition, or_right_comm]

theorem has_addUsage : (f.addUsage a b).Has x ↔ f.Has x ∨ x = .observed ⟨a, b, "uses", some "heuristic"⟩ := by
  cases x <;> simp [Has, addUsage, or_assoc]

theorem has_addImport : (f.addImport n).Has x ↔ f.Has x ∨ x = .imported n := by
  cases x <;> simp [Has, addImport, Text.mem_insertAscending, or_comm]

theorem has_addScope : (f.addScope n).Has x ↔ f.Has x := by
  cases x <;> rfl

theorem has_foldl {g : α → Finding}
    (h : ∀ f a x, (step f a).Has x ↔ f.Has x ∨ x = g a) (as : List α) (f : Findings) (x : Finding) :
    (as.foldl step f).Has x ↔ f.Has x ∨ ∃ a ∈ as, x = g a := by
  induction as generalizing f with
  | nil => simp
  | cons a as ih => rw [foldl_cons, ih, h, or_assoc, exists_mem_cons_iff]

theorem not_has_of_imports {g : α → String}
    (h : ∀ f a x, (step f a).Has x ↔ f.Has x ∨ x = .imported (g a)) (as : List α) (hx : x.IsRelation)
    (hf : ¬ f.Has x) : ¬ (as.foldl step f).Has x := by
  rw [has_foldl h]
  rintro (hhas | ⟨a, _, rfl⟩)
  · exact hf hhas
  · exact hx

end

/-! ### Steps that add the same to all findings -/

/-- A step only adds: it declares some base clauses, in order, and adds the same whatever was found before. -/
structure IsLocal (cs : List BaseClause) (step : Findings → Findings) : Prop where
  grows : ∀ f : Findings, f.Grows (step f)
  has_iff : ∀ f x, (step f).Has x ↔ f.Has x ∨ (step {}).Has x
  regular : ∀ x, (step {}).Has x → x.IsRegular
  relations : ∀ f, (step f).relations = f.relations ++ cs.map BaseClause.toRelation

namespace IsLocal

variable {cs ds : List BaseClause} {step next : Findings → Findings}

theorem of_adds {D : Finding → Prop} (hgrows : ∀ f : Findings, f.Grows (step f))
    (h : ∀ f x, (step f).Has x ↔ f.Has x ∨ D x) (hD : ∀ x, D x → x.IsRegular)
    (hrelations : ∀ f, (step f).relations = f.relations ++ cs.map BaseClause.toRelation) : IsLocal cs step := by
  have hempty : ∀ x, (step {}).Has x ↔ D x := fun x => by rw [h, or_iff_right (not_has_empty x)]
  exact ⟨hgrows, fun f x => by rw [h, hempty], fun x hx => hD x ((hempty x).mp hx), hrelations⟩

theorem id : IsLocal [] fun f => f :=
  of_adds (D := fun _ => False) .refl (fun _ _ => (iff_of_eq (or_false _)).symm) (fun _ h => h.elim)
    fun _ => (append_nil _).symm

theorem comp (h : IsLocal cs step) (hnext : IsLocal ds next) : IsLocal (cs ++ ds) fun f => next (step f) := by
  refine of_adds (D := fun x => (step {}).Has x ∨ (next {}).Has x) (fun f => ?_) (fun f x => ?_) (fun x hx => ?_)
    fun f => ?_
  · exact (h.grows f).trans (hnext.grows (step f))
  · rw [hnext.has_iff, h.has_iff, or_assoc]
  · exact hx.elim (h.regular x) (hnext.regular x)
  · rw [hnext.relations, h.relations, append_assoc, map_append]

theorem relations_of_quiet (h : IsLocal [] step) (f : Findings) : (step f).relations = f.relations :=
  (h.relations f).trans (append_nil _)

theorem quietly (h : IsLocal cs step) (hnext : IsLocal [] next) : IsLocal cs fun f => next (step f) :=
  append_nil cs ▸ h.comp hnext

theorem ite {c : Prop} [Decidable c] (h : IsLocal cs step) (hnext : IsLocal cs next) :
    IsLocal cs fun f => if c then step f else next f := by
  by_cases hc : c
  · simpa only [if_pos hc] using h
  · simpa only [if_neg hc] using hnext

section

variable {α : Type} {step : Findings → α → Findings} {g : α → List BaseClause} (n a b : String)

theorem flatMap
    (h : ∀ a, IsLocal (g a) fun f => step f a) (as : List α) : IsLocal (as.flatMap g) fun f => as.foldl step f := by
  induction as with
  | nil => exact id
  | cons a as ih => exact (h a).comp ih

theorem foldl {as : List α} (h : ∀ a, IsLocal [] fun f => step f a) : IsLocal [] fun f => as.foldl step f := by
  induction as with
  | nil => exact id
  | cons a as ih => exact (h a).comp ih

theorem elim
    (h : ∀ a, IsLocal (g a) fun f => step f a) (o : Option α) : IsLocal (o.elim [] g) fun f => o.elim f (step f) := by
  cases o with
  | none => exact id
  | some a => exact h a

theorem addClass : IsLocal [] fun f => f.addClass n :=
  of_adds (.addClass · n) (fun _ _ => has_addClass) (fun _ h => h ▸ trivial) fun _ => (append_nil _).symm

theorem addRelation {k : RelationKind} (hk : k = .extends ∨ k = .implements) :
    IsLocal [⟨b, a, k⟩] fun f => f.addRelation a b k.name :=
  of_adds (.addRelation · a b k.name) (fun _ _ => has_addRelation)
    (fun _ h => h ▸ hk.imp (congrArg RelationKind.name) (congrArg RelationKind.name)) fun _ => rfl

theorem addComposition : IsLocal [] fun f => f.addComposition a b :=
  of_adds (.addComposition · a b) (fun _ _ => has_addComposition) (fun _ h => h ▸ .inl rfl)
    fun _ => (append_nil _).symm

theorem addUsage : IsLocal [] fun f => f.addUsage a b :=
  of_adds (.addUsage · a b) (fun _ _ => has_addUsage) (fun _ h => h ▸ .inr rfl) fun _ => (append_nil _).symm

theorem addImport : IsLocal [] fun f => f.addImport n :=
  of_adds (.addImport · n) (fun _ _ => has_addImport) (fun _ h => h ▸ trivial) fun _ => (append_nil _).symm

theorem addScope : IsLocal [] fun f => f.addScope n :=
  of_adds (D := fun _ => False) (.addScope · n) (fun _ _ => by rw [has_addScope, or_false]) (fun _ h => h.elim)
    fun _ => (append_nil _).symm

theorem addScope? (scope : Option String) : IsLocal [] fun f => scope.elim f f.addScope := by
  cases scope with
  | none => exact id
  | some n => exact addScope n

end

variable (cls : String) {kind : RelationKind}

theorem addBases (hkind : kind = .extends ∨ kind = .implements) (bases : List String) :
    IsLocal (baseClausesFor cls kind bases) fun f => bases.foldl (fun f b => f.addRelation b cls kind.name) f := by
  rw [baseClausesFor, map_eq_flatMap]
  exact flatMap (fun b => addRelation b cls hkind) bases

theorem addNamed {α : Type} (hkind : kind = .extends ∨ kind = .implements) (name : α → String) (parts : List α) :
    IsLocal (baseClausesFor cls kind ((parts.map name).filter (· != ""))) fun f =>
      parts.foldl (fun f part => if name part == "" then f else f.addRelation (name part) cls kind.name) f := by
  have hclauses : baseClausesFor cls kind ((parts.map name).filter (· != "")) =
      parts.flatMap fun part => if name part == "" then [] else [⟨cls, name part, kind⟩] := by
    induction parts with
    | nil => rfl
    | cons part parts ih =>
      rw [flatMap_cons, ← ih, map_cons, filter_cons]
      by_cases hname : name part = "" <;> simp [baseClausesFor, hname]
  rw [hclauses]
  refine flatMap (fun part => ?_) parts
  split
  · exact id
  · exact addRelation (name part) cls hkind

end IsLocal

/-- A reader gives the same result and adds the same whatever was found before. -/
structure IsLocalReader {α : Type} (cs : List BaseClause) (read : Findings → α × Findings) : Prop where
  result : ∀ f, (read f).1 = (read {}).1
  step : IsLocal cs fun f => (read f).2

namespace IsLocalReader

variable {α : Type} {cs ds : List BaseClause} {read : Findings → α × Findings}

theorem exists_eq (h : IsLocalReader cs read) : ∃ a step, IsLocal cs step ∧ ∀ f, read f = (a, step f) :=
  ⟨(read {}).1, fun f => (read f).2, h.step, fun f => Prod.ext (h.result f) rfl⟩

theorem after {step : Findings → Findings} (h : IsLocalReader ds read) (hstep : IsLocal cs step) :
    IsLocalReader (cs ++ ds) fun f => read (step f) :=
  ⟨fun _ => (h.result _).trans (h.result _).symm, hstep.comp h.step⟩

end IsLocalReader

/-- A reader of classes: those that it lists become known. -/
structure IsClassReader {α : Type} (cs : List BaseClause) (listed : α → List ClassEntry)
    (read : Findings → α × Findings) : Prop extends IsLocalReader cs read where
  known : ∀ c ∈ listed (read {}).1, (read {}).2.Has (.cls c.name)

namespace IsClassReader

variable {α β : Type} {cs ds : List BaseClause} {listed : α → List ClassEntry} {listed' : β → List ClassEntry}
  {step : Findings → Findings}

theorem of_step {a : α} (ha : listed a = []) (h : IsLocal cs step) : IsClassReader cs listed fun f => (a, step f) :=
  ⟨⟨fun _ => rfl, h⟩, fun c hc => by simp [ha] at hc⟩

theorem map {read : Findings → α × Findings} (g : α → β) (h : IsClassReader ds listed read) (hstep : IsLocal cs step)
    (hg : ∀ a, ∀ c ∈ listed' (g a), c ∈ listed a ∨ (step {}).Has (.cls c.name)) :
    IsClassReader (cs ++ ds) listed' fun f => (g (read (step f)).1, (read (step f)).2) := by
  have hread := h.toIsLocalReader.after hstep
  refine ⟨⟨fun f => congrArg g (hread.result f), hread.step⟩, fun c hc => ?_⟩
  rw [h.step.has_iff]
  rcases hg _ c hc with hc | hc
  · exact .inr (h.known c (h.result (step {}) ▸ hc))
  · exact .inl hc

theorem after {read : Findings → α × Findings} (h : IsClassReader ds listed read) (hstep : IsLocal cs step) :
    IsClassReader (cs ++ ds) listed fun f => read (step f) := h.map (fun a => a) hstep fun _ _ hc => .inl hc

variable {read next : Findings → List ClassEntry × Findings}

/-- Readers of single classes give a reader of all of them, in which what reads no class declares no base. -/
theorem readEach {κ : Type} {read? : κ → Option (Findings → ClassEntry × Findings)} {clauses : κ → List BaseClause}
    (h : ∀ a, (read? a).elim (clauses a = []) (IsClassReader (clauses a) ([·]))) (as : List κ) :
    IsClassReader (as.flatMap clauses) id (Findings.readEach read? as) := by
  induction as with
  | nil => exact .of_step rfl .id
  | cons a as ih =>
    have ha := h a
    rw [show Findings.readEach read? (a :: as) = fun f => Findings.readEach read? (a :: as) f from rfl, flatMap_cons]
    simp only [Findings.readEach]
    cases hread : read? a with
    | none =>
      rw [hread] at ha
      rw [show clauses a = [] from ha, nil_append]
      exact ih
    | some read =>
      rw [hread] at ha
      simp only [ha.result]
      refine ih.map ((read {}).1 :: ·) ha.step fun cs d hd => ?_
      rcases mem_cons.mp hd with rfl | hd
      · exact .inr (ha.known _ (mem_singleton_self _))
      · exact .inl hd

theorem readAll {κ : Type} {read : κ → Findings → ClassEntry × Findings} {clauses : κ → List BaseClause}
    (h : ∀ a, IsClassReader (clauses a) ([·]) (read a)) (as : List κ) :
    IsClassReader (as.flatMap clauses) id (Findings.readEach (some <| read ·) as) := readEach h as

theorem single (c : ClassEntry) (hstep : IsLocal cs step) (hc : (step {}).Has (.cls c.name)) :
    IsClassReader cs ([·]) fun f => (c, step f) :=
  ⟨⟨fun _ => rfl, hstep⟩, fun _ hd => mem_singleton.mp hd ▸ hc⟩

theorem declare (c : ClassEntry) (hstep : IsLocal cs step) :
    IsClassReader cs ([·]) fun f => (c, step (f.addClass c.name)) :=
  single c ((IsLocal.addClass c.name).comp hstep) ((hstep.has_iff _ _).mpr (.inl (has_addClass.mpr (.inr rfl))))

theorem append (h : IsClassReader cs id read) (hnext : IsClassReader ds id next) :
    IsClassReader (cs ++ ds) id fun f => ((read f).1 ++ (next (read f).2).1, (next (read f).2).2) := by
  refine ⟨⟨fun f => ?_, h.step.comp hnext.step⟩, fun c hc => ?_⟩
  · rw [h.result f, hnext.result (read f).2, hnext.result (read {}).2]
  · rw [hnext.step.has_iff]
    rcases mem_append.mp hc with hc | hc
    · exact .inl (h.known c hc)
    · exact .inr (hnext.known c (hnext.result (read {}).2 ▸ hc))

theorem records (h : IsClassReader cs id read) (f : Findings) : Records f (read f).1 (read f).2 :=
  ⟨h.step.grows f, fun c hc => (h.step.has_iff f (.cls c.name)).mpr (.inr (h.known c (h.result f ▸ hc)))⟩

end IsClassReader

end Findings

open Findings

/-! ### Java -/

namespace Java

variable {f : Findings} (source cls package : String) (stateFields : List String) (all vs : List Node.Visit)
  (modifiers : List String) (name : String)

theorem isLocal_methodFindings (params : List String) (body : List Node) :
    IsLocal [] (methodFindings cls stateFields modifiers name params body) := by
  refine .of_adds (D := fun x => ∃ t ∈ params, .observed ⟨cls, t, "uses", none⟩ = x) (fun f => ?_) (fun f x => ?_) ?_
    fun f => (append_nil _).symm
  · exact { Grows.refl f with
      usages := prefix_append _ _
      useCases := prefix_append _ _
      transitions := prefix_append _ _
      calls := prefix_append _ _ }
  · cases x <;> simp [Has, methodFindings, or_assoc]
  · rintro _ ⟨t, _, rfl⟩
    exact .inr rfl

theorem isLocal_methodsFindings : IsLocal [] (methodsFindings cls stateFields vs) := by
  refine .foldl fun v => ?_
  cases v.node with
  | method modifiers _ name params body => exact .ite (isLocal_methodFindings ..) .id
  | _ => exact .id

theorem codeFindings_result (f : Findings) : (codeFindings source cls f).1 =
    (classText? source cls).elim [] fun text => (createdFields text).map fun c => c.1 ++ ": " ++ c.2 := by
  unfold codeFindings
  cases classText? source cls <;> rfl

theorem isLocal_codeFindings : IsLocal [] fun f => (codeFindings source cls f).2.2 := by
  unfold codeFindings
  cases classText? source cls with
  | none => exact .id
  | some text => exact (IsLocal.foldl fun t => .addComposition cls t).comp (.foldl fun n => .addUsage cls n)

theorem isLocalReader_classEntry (base : Option String) (interfaces : List String) :
    IsLocalReader (baseClausesFor name .extends base.toList ++ baseClausesFor name .implements interfaces)
      (classEntry source package vs modifiers name base interfaces) := by
  have hbases := (IsLocal.addBases name (.inl rfl) base.toList).comp (.addBases name (.inr rfl) interfaces)
  refine ⟨fun f => by simp only [classEntry, codeFindings_result], ?_⟩
  exact (hbases.quietly (isLocal_methodsFindings name _ vs)).quietly (isLocal_codeFindings source name)

theorem isClassReader_classReader? :
    IsClassReader (classClauses vs) id (readEach (classReader? source package all) vs) := by
  refine .readEach (fun v => ?_) vs
  rw [classReader?]
  cases v.node with
  | classDecl modifiers _ name _ base interfaces =>
    have hentry := isLocalReader_classEntry source package all modifiers name.text base interfaces
    simp only [hentry.result]
    exact .single _ (hentry.step.quietly (.addClass name.text)) (has_addClass.mpr (.inr rfl))
  | _ => rfl

theorem isClassReader_interfaceReader? :
    IsClassReader (interfaceClauses vs) id (readEach (interfaceReader? package all) vs) := by
  refine .readEach (fun v => ?_) vs
  rw [interfaceReader?]
  cases v.node with
  | interfaceDecl _ name _ bases =>
    have hbases := IsLocal.addBases name.text (.inl rfl) bases
    exact .single _ (hbases.quietly (.addClass name.text)) (has_addClass.mpr (.inr rfl))
  | _ => rfl

theorem isClassReader_classes [Parser] :
    IsClassReader (((Parser.parse source).map fun u => baseClauses u.visits).getD []) id (classes source package) := by
  unfold classes
  cases Parser.parse source with
  | none => exact .of_step rfl .id
  | some u =>
    exact ((isClassReader_classReader? source _ u.visits u.visits).append
      (isClassReader_interfaceReader? _ u.visits u.visits)).after
      ((IsLocal.addScope? u.package).comp (.foldl fun _ => .addImport _))

theorem not_has_of_no_classes [Parser] {source package : String} (h : (classes source package {}).1 = []) {x : Finding}
    (hx : x.IsRelation) : ¬ (classes source package {}).2.Has x := by
  unfold classes at h ⊢
  revert h
  cases Parser.parse source with
  | none => exact fun _ => not_has_empty x
  | some u =>
    intro h
    obtain ⟨hclasses, hinterfaces⟩ := append_eq_nil_iff.mp h
    dsimp only [classesIn]
    rw [readEach_of_no_classes hinterfaces, readEach_of_no_classes hclasses]
    refine not_has_of_imports (fun _ i _ => has_addImport (n := String.ofList (i.toList.takeWhile (· != '.'))))
      u.imports hx ?_
    cases u.package with
    | none => exact not_has_empty x
    | some n => exact fun hhas => not_has_empty x (has_addScope.mp hhas)

end Java

/-! ### C# -/

namespace CSharp

theorem isLocal_holds (owner part : String) : IsLocal [] fun f => holds f owner part :=
  .ite (.addComposition owner part) .id

theorem isLocal_uses (user used : String) : IsLocal [] fun f => uses f user used := .ite (.addUsage user used) .id

theorem name_clauseKind {base kind : String} (h : baseKind? base = some kind) : (clauseKind base).name = kind := by
  unfold clauseKind
  rw [h]
  unfold baseKind? at h
  split at h
  · cases h
  · cases h
    split <;> rfl
  · cases h
    rfl

theorem clauseKind_eq (base : String) : clauseKind base = .extends ∨ clauseKind base = .implements := by
  unfold clauseKind
  split
  · exact .inr rfl
  · exact .inl rfl

variable (body : List Char) (cls : String)

theorem addBases_cons (part : String) (parts : List String) (f : Findings) : addBases cls (part :: parts) f =
    if basePart part == "" then addBases cls parts f
    else (baseKind? (basePart part)).elim (false, f) fun kind => addBases cls parts
      (f.addRelation (basePart part) cls kind) := by
  rfl

theorem exists_isLocalReader_addBases (parts : List String) :
    ∃ cs, IsLocalReader cs (addBases cls parts) ∧ ((addBases cls parts {}).1 →
      cs = ((parts.map basePart).filter (· != "")).map fun b => ⟨cls, b, clauseKind b⟩) := by
  induction parts with
  | nil => exact ⟨[], ⟨fun _ => rfl, .id⟩, fun _ => rfl⟩
  | cons part parts ih =>
    obtain ⟨cs, hread, hcs⟩ := ih
    rw [show addBases cls (part :: parts) = fun f => addBases cls (part :: parts) f from rfl, map_cons]
    simp only [addBases_cons]
    by_cases hbase : basePart part = ""
    · rw [filter_cons_of_neg (by simpa using hbase)]
      simp only [beq_iff_eq.mpr hbase, if_true]
      exact ⟨cs, hread, hcs⟩
    · rw [filter_cons_of_pos (by simpa using hbase)]
      simp only [beq_eq_false_iff_ne.mpr hbase, Bool.false_eq_true, if_false]
      cases hkind : baseKind? (basePart part) with
      | none => exact ⟨[], ⟨fun _ => rfl, .id⟩, fun h => by cases h⟩
      | some kind =>
        rw [← name_clauseKind hkind]
        refine ⟨_, hread.after (.addRelation (basePart part) cls (clauseKind_eq _)), fun h => ?_⟩
        rw [hcs ((hread.result _).symm.trans h)]
        rfl

theorem isLocalReader_declaredFields : IsLocalReader [] (declaredFields body cls) :=
  ⟨fun _ => rfl, .foldl fun _ => isLocal_holds cls _⟩

theorem isLocalReader_codeFindings (fields : List String) : IsLocalReader [] (codeFindings body cls fields) := by
  have hcreated : IsLocal [] fun f => (createdPattern.findAll body).foldl (fun f m =>
      holds f cls (typePart (m.text 2))) f := .foldl fun _ => isLocal_holds cls _
  have hnew : IsLocal [] fun f => (newPattern.findAll body).foldl (fun f m => uses f cls (typePart (m.text 1))) f :=
    .foldl fun _ => isLocal_uses cls _
  have hcalls : IsLocal [] fun f => (callPattern.findAll body).foldl (fun f m =>
      if TypeName.lastPart (m.text 1) "." == "this" then f else uses f cls (TypeName.lastPart (m.text 1) ".")) f :=
    .foldl fun _ => .ite .id (isLocal_uses cls _)
  have hvariables : IsLocal [] fun f => (variablePattern.findAll body).foldl (fun f m =>
      uses f cls (typePart (m.text 1))) f := .foldl fun _ => isLocal_uses cls _
  exact ⟨fun _ => rfl, ((hcreated.comp hnew).comp hcalls).comp hvariables⟩

theorem exists_isClassReader_classEntries (package : String) (ms : List Pattern.Match) :
    ∃ cs, IsClassReader cs (·.getD []) (classEntries package ms) ∧
      ((classEntries package ms {}).1.isSome → cs = ms.flatMap classClauses) := by
  induction ms with
  | nil => exact ⟨[], .of_step rfl .id, fun _ => rfl⟩
  | cons m ms ih =>
    obtain ⟨cs, ih, hcs⟩ := ih
    obtain ⟨bs, hread, hbs⟩ := exists_isLocalReader_addBases (m.text 1) (listedBases m)
    obtain ⟨told, bases, hbases, heq⟩ := hread.exists_eq
    obtain ⟨declared, fields, hfields, heqFields⟩ := (isLocalReader_declaredFields (bodyOf m) (m.text 1)).exists_eq
    obtain ⟨all, code, hcode, heqCode⟩ := (isLocalReader_codeFindings (bodyOf m) (m.text 1) declared).exists_eq
    simp only [listedBases] at heq hbs
    simp only [classEntries, heq, heqFields, heqCode] at hbs ⊢
    cases told with
    | false => exact ⟨bs, .of_step rfl ((IsLocal.addClass (m.text 1)).comp hbases), fun h => by cases h⟩
    | true =>
      have hmore := (hbases.quietly hfields).quietly hcode
      refine ⟨bs ++ cs, ih.map (Option.map (_ :: ·)) ((IsLocal.addClass (m.text 1)).comp hmore) fun cs c hc => ?_, ?_⟩
      · cases cs with
        | none => cases hc
        | some cs =>
          rcases mem_cons.mp hc with rfl | hc
          · exact .inr ((hmore.has_iff _ _).mpr (.inl (has_addClass.mpr (.inr rfl))))
          · exact .inl hc
      · intro h
        rw [Option.isSome_map, ih.result] at h
        rw [hbs rfl, hcs h]
        rfl

theorem isClassReader_interfaceEntry (package : String) (m : Pattern.Match) :
    IsClassReader (interfaceClauses m) ([·]) (interfaceEntry package m) :=
  .declare _ (.addNamed (m.text 1) (.inl rfl) (fun b => Text.trim (TypeName.lastPart (Text.trim b) "."))
    (listedBases m))

theorem exists_isClassReader_classes (source package : String) :
    ∃ cs, IsClassReader cs id (classes source package) ∧
      ((classes source package {}).1 ≠ [] → cs = baseClauses source.toList) := by
  have hhead : IsLocal [] fun f => (usingPattern.findAll source.toList).foldl (fun f m =>
      f.addImport ((Text.splitOn (m.text 1) ".").headD ""))
      (((namespacePattern.findFirst source.toList).map (·.text 1)).elim f f.addScope) :=
    (IsLocal.addScope? _).comp (.foldl fun _ => .addImport _)
  obtain ⟨cs, hentries, hcs⟩ := exists_isClassReader_classEntries
    (((namespacePattern.findFirst source.toList).map (·.text 1)).getD package) (classPattern.findAll source.toList)
  have hread := hentries.after hhead
  have hknown := hread.known
  obtain ⟨entries?, step, hstep, heq⟩ := hread.exists_eq
  have hresult : (classEntries _ _ {}).1 = entries? := (hentries.result _).symm.trans (congrArg Prod.fst (heq {}))
  rw [show classes source package = fun f => classes source package f from rfl]
  simp only [classes, heq] at hknown ⊢
  cases entries? with
  | none => exact ⟨cs, .of_step rfl hstep, fun h => absurd rfl h⟩
  | some entries =>
    refine ⟨_, (IsClassReader.readAll (isClassReader_interfaceEntry _) _).map (entries ++ ·) hstep fun is c hc => ?_,
      fun _ => ?_⟩
    · rcases mem_append.mp hc with hc | hc
      · exact .inr (hknown c hc)
      · exact .inl hc
    · rw [hcs (by rw [hresult]; rfl)]
      rfl

end CSharp

/-! ### TypeScript -/

namespace TypeScript

theorem isLocalReader_codeFindings (body : List Char) (cls : String) (fields : List String) :
    IsLocalReader [] (codeFindings body cls fields) := by
  have hcreated : IsLocal [] fun f => (createdPattern.findAll body).foldl (fun f m =>
      if m.text 2 == cls then f else f.addComposition cls (m.text 2)) f :=
    .foldl fun _ => .ite .id (.addComposition cls _)
  have hnew : IsLocal [] fun f => (newPattern.findAll body).foldl (fun f m =>
      if m.text 1 == cls then f else f.addUsage cls (m.text 1)) f := .foldl fun _ => .ite .id (.addUsage cls _)
  have hcalls : IsLocal [] fun f => (callPattern.findAll body).foldl (fun f m =>
      if m.text 1 == cls || ownObjects.contains (m.text 1) then f else f.addUsage cls (m.text 1)) f :=
    .foldl fun _ => .ite .id (.addUsage cls _)
  exact ⟨fun _ => rfl, (hcreated.comp hnew).comp hcalls⟩

theorem isLocal_addAll (names cls : String) {kind : RelationKind} (h : kind = .extends ∨ kind = .implements) :
    IsLocal (listedClauses cls kind names) fun f => addAll f names cls kind.name :=
  .addNamed cls h (fun n => TypeName.lastPart (String.ofList n) ".") _

theorem isClassReader_interfaceEntry (package : String) (m : Pattern.Match) :
    IsClassReader (interfaceClauses m) ([·]) (interfaceEntry package m) :=
  .declare _ (.elim (fun names => isLocal_addAll names (m.text 1) (.inl rfl)) (m.group? 2))

theorem isClassReader_classEntry (package : String) (m : Pattern.Match) :
    IsClassReader (classClauses m) ([·]) (classEntry package m) := by
  have hbases := IsLocal.elim (fun base => .addRelation (TypeName.lastPart base ".") (m.text 1) (.inl rfl)) (m.group? 2)
  have hinterfaces := IsLocal.elim (fun names => isLocal_addAll names (m.text 1) (.inr rfl)) (m.group? 3)
  have hcode := isLocalReader_codeFindings (bodyOf m) (m.text 1) (declaredFields (bodyOf m))
  exact .declare _ ((hbases.comp hinterfaces).quietly hcode.step)

theorem isClassReader_classes (source package : String) :
    IsClassReader (baseClauses source.toList) id (classes source package) :=
  ((IsClassReader.readAll (isClassReader_interfaceEntry package) _).append
    (.readAll (isClassReader_classEntry package) _)).after (.foldl fun m => (IsLocal.addImport m).comp (.addScope m))

theorem not_has_of_no_classes {source package : String} (h : (classes source package {}).1 = []) {x : Finding}
    (hx : x.IsRelation) : ¬ (classes source package {}).2.Has x := by
  obtain ⟨hinterfaces, hclasses⟩ := append_eq_nil_iff.mp h
  rw [classes]
  dsimp only
  rw [readEach_of_no_classes hclasses, readEach_of_no_classes hinterfaces]
  refine not_has_of_imports (g := fun m => m) (fun f m x => ?_) _ hx (not_has_empty x)
  rw [has_addScope, has_addImport]

end TypeScript

/-! ### C and C++ -/

namespace Cpp

theorem isLocalReader_fields (body : List Char) (cls : String) : IsLocalReader [] (fields body cls) :=
  ⟨fun _ => rfl, .foldl fun _ => .ite .id (.addComposition cls _)⟩

theorem isLocal_codeFindings (body : List Char) (cls : String) : IsLocal [] (codeFindings body cls) :=
  .foldl fun n => .addUsage cls n

theorem isLocal_addBases (bases cls : String) :
    IsLocal (baseClausesFor cls .extends ((Text.splitOn bases ",").filterMap basePart?)) fun f =>
      addBases f bases cls := by
  rw [filterMap_eq_flatMap_toList, baseClausesFor, map_flatMap]
  refine .flatMap (fun part => ?_) _
  unfold basePart?
  cases (Chars.words (accessPattern.replaceAll [] part.toList)).getLast? with
  | none => exact .id
  | some base => exact .addRelation (String.ofList base) cls (.inl rfl)

theorem isClassReader_classEntry (package : String) (m : Pattern.Match) :
    IsClassReader (classClauses m) ([·]) (classEntry package m) := by
  have hbases := IsLocal.elim (fun bases => isLocal_addBases bases (m.text 1)) (m.group? 2)
  have hfields := isLocalReader_fields (bodyOf m) (m.text 1)
  exact .declare _ ((hbases.quietly hfields.step).quietly (isLocal_codeFindings (bodyOf m) (m.text 1)))

theorem isClassReader_structEntry (package : String) (m : Pattern.Match) :
    IsClassReader [] ([·]) (structEntry package m) :=
  .declare _ (isLocalReader_fields (bodyOf m) (m.text 1)).step

theorem isClassReader_classes (source package : String) :
    IsClassReader (baseClauses source.toList) id (classes source package) := by
  have hentries := (IsClassReader.readAll (isClassReader_classEntry package) (classPattern.findAll
    (dropComments source.toList))).append (.readAll (isClassReader_structEntry package) (structPattern.findAll
    (dropComments source.toList)))
  rw [flatMap_eq_nil_iff (f := fun _ => []).mpr fun _ _ => rfl, append_nil] at hentries
  exact hentries.after (.foldl fun _ => .addImport _)

theorem not_has_of_no_classes {source package : String} (h : (classes source package {}).1 = []) {x : Finding}
    (hx : x.IsRelation) : ¬ (classes source package {}).2.Has x := by
  obtain ⟨hclasses, hstructs⟩ := append_eq_nil_iff.mp h
  rw [classes]
  dsimp only
  rw [readEach_of_no_classes hstructs, readEach_of_no_classes hclasses]
  exact not_has_of_imports (g := fun m : Pattern.Match => headerName (m.text 1)) (fun _ _ _ => has_addImport) _ hx
    (not_has_empty x)

end Cpp

end CodeAtlas
