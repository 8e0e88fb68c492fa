import CodeAtlas.Proofs.Analysis.SharedWorkbench

/-!
# Relations that survive a check

What the findings of a language support among some classes leaves out relations that a check would refuse, and
repetitions that would be dropped after it.  Nothing else is lost or moved on the way: the bare findings survive the
check as the same relations in the same order.

* **`Workbench.survivors_eq`**: the findings as they are and the relations they support survive alike.
-/

namespace CodeAtlas

open List Loose

/-! ### Relations that were found -/

namespace Relation

/-- Whether a relation passes a check among known classes. -/
def isValid (known : List Atom) (r : Relation) : Bool := Register.passes known r.fromClass r.toClass (.text r.kind)

theorem isValid_congr {known : List Atom} {r s : Relation} (h : r.sameEnds s) :
    r.isValid known = s.isValid known := by
  obtain ⟨hfrom, hto, hkind⟩ := sameEnds_iff.mp h
  rw [isValid, isValid, hfrom, hto, hkind]

theorem leads_of_isValid {known : List Atom} {r : Relation} (hkind : r.kind ≠ "dependency")
    (h : r.isValid known) : (Atom.text r.toClass).isIn known ∧ r.toClass ≠ r.fromClass := by
  obtain ⟨k, hk, _, _, hends⟩ := Register.passes_iff.mp h
  have hname : r.kind = k.name := by
    injection hk with hk
    injection hk
  obtain ⟨hne, _, hto⟩ := hends fun hdependency => hkind (by rw [hname, hdependency]; rfl)
  exact ⟨Atom.isIn_text_iff.mpr hto, Ne.symm hne⟩

theorem distinct_filter (known : List Atom) (rs : List Relation) :
    (distinct rs).filter (isValid known) = distinct (rs.filter (isValid known)) := by
  rw [distinct_eq, distinct_eq]
  exact firsts_filter fun r s h => (isValid_congr h).symm

theorem distinct_append_distinct (rs ss : List Relation) : distinct (rs ++ distinct ss) = distinct (rs ++ ss) := by
  rw [distinct_eq, distinct_eq, distinct_eq]
  refine firsts_append_firsts fun r s t hrs hst => ?_
  simp only [sameEnds, Bool.and_eq_true, beq_iff_eq] at hrs hst ⊢
  exact ⟨⟨hst.1.1.trans hrs.1.1, hst.1.2.trans hrs.1.2⟩, hst.2.trans hrs.2⟩

end Relation

/-! ### Relations in a register -/

namespace Register

variable (known : List Atom) (seen rs : List Relation)

theorem firstsFrom_toValue : firstsFrom triple (· == ·) (seen.map fun s => triple s.toValue) (rs.map Relation.toValue) =
    (Relation.distinctFrom seen rs).map Relation.toValue := by
  induction rs generalizing seen with
  | nil => rfl
  | cons r rs ih =>
    have hmet : (seen.map fun s => triple s.toValue).any (· == triple r.toValue) = seen.any r.sameEnds := by
      rw [any_map]
      refine congrArg seen.any (funext fun s => BEq.comm.trans ?_)
      exact (Bool.and_assoc ..).symm
    rw [map_cons, firstsFrom, hmet, Relation.distinctFrom]
    split
    · exact ih seen
    · exact congrArg (r.toValue :: ·) (ih (r :: seen))

/-- **What a register keeps** of relations that were found. -/
theorem keepValid_toValue : keepValid ⟨rs.map Relation.toValue, known⟩ =
    .ok ⟨(Relation.distinct (rs.filter (Relation.isValid known))).map Relation.toValue, known⟩ := by
  rw [keepValid_eq known (Survey.isPlain_toValue rs), ← firstTriples_filter, filter_map]
  exact congrArg (fun vs => (.ok ⟨vs, known⟩ : Loose Register))
    (firstsFrom_toValue [] (rs.filter (Relation.isValid known)))

end Register

/-! ### Findings of one language -/

namespace Findings

/-- The findings that reading texts of a language leads to. -/
inductive IsReached [Java.Parser] (l : Language) : Findings → Prop
  | empty : IsReached l {}
  | read {f : Findings} (source package : String) (h : IsReached l f) :
      IsReached l (Workbench.classesOf l source package f).2

theorem IsReached.regular [Java.Parser] {l : Language} {f : Findings} (h : IsReached l f) {x : Finding} (hx : f.Has x) :
    x.IsRegular := by
  induction h with
  | empty => exact absurd hx (not_has_empty x)
  | read source package _ ih =>
    rcases (Workbench.has_classesOf_iff l source package _ x).mp hx with hx | hx | ⟨_, a, b, k, hrefers, _, rfl⟩
    · exact ih hx
    · exact Workbench.classesOf_regular l source package hx
    · exact hrefers.isRegular

def bare (f : Findings) : List Relation := f.relations ++ f.compositions ++ f.usages

variable {f : Findings}

theorem IsReached.kind_ne_dependency [Java.Parser] {l : Language} (h : IsReached l f) :
    ∀ r ∈ f.bare, r.kind ≠ "dependency" := by
  intro r hr
  have hhas : f.Has (.declared r) ∨ f.Has (.observed r) := by simpa [bare, Has, or_assoc] using hr
  refine Relates.ne_dependency (f := f) (a := r.fromClass) (b := r.toClass) (fun x hx => h.regular hx) ?_
  exact ⟨r, hhas, rfl, rfl, rfl⟩

theorem filter_dependencies {rs : List Relation} (hkinds : ∀ r ∈ rs, r.kind ≠ "dependency") (names : List String) :
    (rs ++ names.map dependency).filter (·.kind != "dependency") = rs := by
  have hrest : (names.map dependency).filter (·.kind != "dependency") = [] := by
    rw [filter_eq_nil_iff]
    intro r hr
    obtain ⟨n, _, rfl⟩ := mem_map.mp hr
    simp [dependency]
  rw [filter_append, hrest, append_nil, filter_eq_self]
  intro r hr
  simpa using hkinds r hr

end Findings

namespace Relation

theorem filter_leads {known : List Atom} {isKnown : String → Bool} {rs : List Relation}
    (hknown : ∀ n, (Atom.text n).isIn known → isKnown n) (hkinds : ∀ r ∈ rs, r.kind ≠ "dependency") :
    (rs.filter fun r => isKnown r.toClass && r.toClass != r.fromClass).filter (isValid known) =
      rs.filter (isValid known) := by
  rw [filter_filter]
  refine filter_congr fun r hr => ?_
  rw [Bool.and_eq_left_iff_imp]
  intro hvalid
  obtain ⟨hto, hne⟩ := leads_of_isValid (hkinds r hr) hvalid
  simpa using ⟨hknown _ hto, hne⟩

/-- Leaving compositions and usages out that do not pass, and repeated usages, changes nothing in what survives. -/
theorem distinct_filter_parts {known : List Atom} {rs cs cs' us us' : List Relation}
    (hcs : cs'.filter (isValid known) = cs.filter (isValid known))
    (hus : us'.filter (isValid known) = us.filter (isValid known)) :
    distinct ((rs ++ cs' ++ distinct us').filter (isValid known)) =
      distinct ((rs ++ cs ++ us).filter (isValid known)) := by
  calc distinct ((rs ++ cs' ++ distinct us').filter (isValid known))
      = distinct ((rs ++ cs).filter (isValid known) ++ distinct (us.filter (isValid known))) := by
        rw [filter_append, filter_append, hcs, distinct_filter, hus, ← filter_append]
    _ = distinct ((rs ++ cs ++ us).filter (isValid known)) := by
        rw [distinct_append_distinct, ← filter_append]

end Relation

namespace Findings

/-- **In each language, what is left out beforehand does not survive**: unknown and own targets fail the check, and
repetitions are dropped after it. -/
theorem distinct_supported {f : Findings} (hkinds : ∀ r ∈ f.bare, r.kind ≠ "dependency") {l : Language}
    {known : List Atom} {isKnown : String → Bool}
    (hknown : l ≠ .python → ∀ n, (Atom.text n).isIn known → isKnown n) :
    Relation.distinct (((f.relationsAmong l isKnown).filter (·.kind != "dependency")).filter (Relation.isValid known)) =
      Relation.distinct (f.bare.filter (Relation.isValid known)) := by
  have hmem : ∀ r, r ∈ f.relations ∨ r ∈ f.compositions ∨ r ∈ f.usages → r.kind ≠ "dependency" := by
    intro r hr
    exact hkinds r (by simpa [bare, or_assoc] using hr)
  have hsupports : ∀ {cs us : List Relation}, cs ⊆ f.compositions → us ⊆ f.usages →
      ∀ r ∈ f.relations ++ cs ++ Relation.distinct us, r.kind ≠ "dependency" := by
    intro cs us hcs hus r hr
    rw [mem_append, mem_append, or_assoc, Relation.distinct_eq] at hr
    exact hmem r (hr.imp_right (Or.imp (@hcs r) fun h => hus (mem_of_mem_firsts h)))
  by_cases hl : l = .python
  · subst hl
    have hsupported : (f.relationsPlain isKnown).filter (·.kind != "dependency") =
        f.relations ++ f.compositions ++ Relation.distinct f.usages :=
      filter_dependencies (hsupports (List.Subset.refl _) (List.Subset.refl _)) _
    show Relation.distinct (((f.relationsPlain isKnown).filter (·.kind != "dependency")).filter _) = _
    rw [hsupported]
    exact Relation.distinct_filter_parts rfl rfl
  · have hplain : f.relationsAmong l isKnown = f.relationsKnown isKnown := by
      cases l <;> first | rfl | exact absurd rfl hl
    have hsupported : (f.relationsKnown isKnown).filter (·.kind != "dependency") = f.relations ++
        f.compositions.filter (fun r => isKnown r.toClass && r.toClass != r.fromClass) ++
        Relation.distinct (f.usages.filter fun r => isKnown r.toClass && r.toClass != r.fromClass) :=
      filter_dependencies (hsupports (filter_subset_self _) (filter_subset_self _)) _
    rw [hplain, hsupported]
    exact Relation.distinct_filter_parts
      (Relation.filter_leads (hknown hl) fun r hr => hmem r (.inr (.inl hr)))
      (Relation.filter_leads (hknown hl) fun r hr => hmem r (.inr (.inr hr)))

end Findings

/-! ### The two ways -/

namespace Workbench

/-- **The findings of a language and the relations that they support survive alike**: checked among the same classes and
made distinct, the bare findings and what is supported among the classes, dependencies aside, are the same relations in
the same order. -/
theorem survivors_eq [Java.Parser] {w : Workbench} {l : Language} (hreached : (w.findings l).IsReached l)
    {classes : Value} {register : Register} (hclasses : Register.setClasses {} classes = .ok register) :
    ∃ supported survivors, w.relationsIn l classes = .ok supported ∧
      (register.add (.list ((w.findings l).bare.map Relation.toValue)) >>= Register.keepValid) = .ok survivors ∧
      (register.add (.list ((supported.filter (·.kind != "dependency")).map Relation.toValue)) >>= Register.keepValid) =
        .ok survivors := by
  obtain ⟨names, hnames, hregister⟩ := Loose.of_bind hclasses
  cases hregister
  have hadd : ∀ rs : List Relation, (Register.add ⟨[], Register.atomSet names⟩ (.list (rs.map Relation.toValue)) >>=
      Register.keepValid) = .ok ⟨(Relation.distinct (rs.filter (Relation.isValid (Register.atomSet names)))).map
        Relation.toValue, Register.atomSet names⟩ := by
    intro rs
    exact Register.keepValid_toValue (Register.atomSet names) rs
  refine ⟨_, _, w.relationsIn_eq l hnames, hadd _, ?_⟩
  rw [hadd, Findings.distinct_supported hreached.kind_ne_dependency]
  intro _ n hn
  exact Atom.isIn_text_iff.mpr (Register.text_mem_atomSet.mp (Atom.isIn_text_iff.mp hn))

/-- What a Java text shows in which a class extends another one and makes two objects of it. -/
@[irreducible] def squareFindings : Findings :=
  (classesOf .java "class Square extends Shape \x7b void m() \x7b new Shape(); new Shape(); \x7d \x7d\n" "" {}).2

def squareClasses : Value := .list ([{ name := "Shape" }, { name := "Square" }].map ClassEntry.toValue)

theorem survivors_eq_squares :
    squareFindings.IsReached .java ∧ squareFindings.relations.length = 1 ∧ squareFindings.usages.length = 2 ∧
      ∃ register supported survivors, Register.setClasses {} squareClasses = .ok register ∧
        (put {} .java squareFindings).relationsIn .java squareClasses = .ok supported ∧
        (register.add (.list (squareFindings.bare.map Relation.toValue)) >>= Register.keepValid) = .ok survivors ∧
        (register.add (.list ((supported.filter (·.kind != "dependency")).map Relation.toValue)) >>=
          Register.keepValid) = .ok survivors := by
  have hreached : squareFindings.IsReached .java := by
    unfold squareFindings
    exact .read _ _ .empty
  have hclasses : Register.setClasses {} squareClasses = .ok ⟨[], [.text "Shape", .text "Square"]⟩ := by rfl
  have hfindings : (put {} .java squareFindings).findings .java = squareFindings := by simp [put]
  obtain ⟨supported, survivors, h⟩ := survivors_eq (hfindings.symm ▸ hreached) hclasses
  rw [hfindings] at h
  have hfound : squareFindings.relations.length = 1 ∧ squareFindings.usages.length = 2 := by decide +kernel
  exact ⟨hreached, hfound.1, hfound.2, _, supported, survivors, hclasses, h⟩

end Workbench

end CodeAtlas
