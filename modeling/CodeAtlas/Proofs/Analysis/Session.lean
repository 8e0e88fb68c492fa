import CodeAtlas.Proofs.Analysis.Survivors

/-!
# Sessions on a workbench

A workbench is asked one thing after the other: to read a file, for relations, endpoints, statistics and languages, and
to start afresh.  Only reading and starting afresh change it.
-/

namespace CodeAtlas

theorem Relation.distinct_pairwise (rs : List Relation) : (distinct rs).Pairwise fun r s =>
    ¬ (r.fromClass = s.fromClass ∧ r.toClass = s.toClass ∧ r.kind = s.kind) := by
  rw [distinct_eq]
  refine firsts_pairwise.imp fun {r s} hdiffer hsame => ?_
  have hends : s.sameEnds r := sameEnds_iff.mpr ⟨hsame.1.symm, hsame.2.1.symm, hsame.2.2.symm⟩
  exact Bool.noConfusion (hdiffer.symm.trans hends)

namespace Workbench

/-- What a workbench can be asked. -/
inductive Step where
  | read (file : SourceFile) (package : String)
  | relations (classes : Value)
  | endpoints (files : List SourceFile)
  | statistics
  | supports (path : String)
  | language (path : String)
  | reset

inductive Answer where
  | classes (found : List ClassEntry)
  | relations (found : Loose (List Relation))
  | endpoints (found : List Endpoint)
  | statistics (counts : Value)
  | supports (isSupported : Bool)
  | language (found : Option Language)
  | none

section

variable [Java.Parser]

def step (w : Workbench) : Step → Answer × Workbench
  | .read file package =>
    (.classes (w.read file.path file.source package).1, (w.read file.path file.source package).2)
  | .relations classes => (.relations (w.relations classes), w)
  | .endpoints files => (.endpoints (files.flatMap fun file => endpoints file.path file.source), w)
  | .statistics => (.statistics w.statistics, w)
  | .supports path => (.supports (languageOf? path).isSome, w)
  | .language path => (.language (languageOf? path), w)
  | .reset => (.none, {})

def Step.isQuery : Step → Bool
  | .read _ _ => false
  | .reset => false
  | _ => true

def after (steps : List Step) : Workbench := steps.foldl (fun w s => (w.step s).2) {}

theorem after_append (steps later : List Step) :
    after (steps ++ later) = later.foldl (fun w s => (w.step s).2) (after steps) := List.foldl_append

theorem answer_read (w : Workbench) (file : SourceFile) (package : String) :
    (w.step (.read file package)).1 = .classes (w.read file.path file.source package).1 := by simp only [step]

theorem after_read (w : Workbench) (file : SourceFile) (package : String) :
    (w.step (.read file package)).2 = (w.read file.path file.source package).2 := by simp only [step]

theorem step_of_isQuery (w : Workbench) {s : Step} (hs : s.isQuery) : (w.step s).2 = w := by
  cases s with
  | read file package => cases hs
  | reset => cases hs
  | _ => rfl

section Reading

variable (w : Workbench) (path package : String) (source : Option String) {l : Language}

theorem findings_read_of_ne (h : languageOf? path ≠ some l) :
    (w.read path source package).2.findings l = w.findings l := by
  unfold read
  cases hm : languageOf? path with
  | none => rfl
  | some m =>
    have hne : l ≠ m := fun hlm => h (hlm ▸ hm)
    cases source with
    | none => rfl
    | some s => exact if_neg hne

/-- Reading a file only adds to the findings of its language, and the classes that are listed are known afterwards. -/
theorem records_read (h : languageOf? path = some l) : (w.findings l).Records (w.read path source package).1
    ((w.read path source package).2.findings l) := by
  unfold read
  rw [h]
  cases source with
  | none => exact .nil (.refl _)
  | some s =>
    have hput : (w.put l (classesOf l s package (w.findings l)).2).findings l =
        (classesOf l s package (w.findings l)).2 := by simp [put]
    dsimp only
    rw [hput]
    exact records_classesOf l s package (w.findings l)

theorem grows_read (l : Language) : (w.findings l).Grows ((w.read path source package).2.findings l) := by
  by_cases h : languageOf? path = some l
  · exact (w.records_read path package source h).grows
  · rw [w.findings_read_of_ne path package source h]
    exact .refl _

end Reading

theorem grows_step (w : Workbench) {s : Step} (hs : s ≠ .reset) (l : Language) :
    (w.findings l).Grows ((w.step s).2.findings l) := by
  cases hquery : s.isQuery with
  | true =>
    rw [w.step_of_isQuery hquery]
    exact .refl _
  | false =>
    cases s with
    | read file package =>
      rw [after_read]
      exact w.grows_read file.path package file.source l
    | reset => exact absurd rfl hs
    | _ => cases hquery

theorem grows_steps (w : Workbench) {later : List Step} (hlater : .reset ∉ later) (l : Language) :
    (w.findings l).Grows ((later.foldl (fun w s => (w.step s).2) w).findings l) := by
  induction later generalizing w with
  | nil => exact .refl _
  | cons s later ih =>
    rw [List.mem_cons, not_or] at hlater
    exact (w.grows_step (Ne.symm hlater.1) l).trans (ih (w.step s).2 hlater.2)

/-- **What holds in every session**: reading a file changes the findings of its own language only; findings only grow
until the workbench starts afresh, which leaves it as it was in the beginning; questions change nothing; every class
that was listed since then is known in its language; and no two relations that are answered have the same ends and
kind. -/
theorem session_discipline (steps : List Step) :
    (∀ file package l, languageOf? file.path ≠ some l →
      ((after steps).step (.read file package)).2.findings l = (after steps).findings l) ∧
    (∀ later, .reset ∉ later → ∀ l, ((after steps).findings l).Grows ((after (steps ++ later)).findings l)) ∧
    after (steps ++ [.reset]) = {} ∧
    (∀ s : Step, s.isQuery = true → ((after steps).step s).2 = after steps) ∧
    (∀ file package found later l, ((after steps).step (.read file package)).1 = .classes found →
      languageOf? file.path = some l → .reset ∉ later →
      ∀ c ∈ found, c.name ∈ ((after (steps ++ .read file package :: later)).findings l).classNames) ∧
    (∀ classes found, ((after steps).step (.relations classes)).1 = .relations (.ok found) →
      found.Pairwise fun r s => ¬ (r.fromClass = s.fromClass ∧ r.toClass = s.toClass ∧ r.kind = s.kind)) := by
  refine ⟨?_, ?_, ?_, ?_, ?_, ?_⟩
  · intro file package l hl
    rw [after_read]
    exact (after steps).findings_read_of_ne file.path package file.source hl
  · intro later hlater l
    rw [after_append]
    exact (after steps).grows_steps hlater l
  · rw [after_append]
    rfl
  · intro s hs
    exact (after steps).step_of_isQuery hs
  · intro file package found later l hfound hl hlater c hc
    have hread := (after steps).records_read file.path package file.source hl
    rw [answer_read] at hfound
    injection hfound with hfound
    rw [← hfound] at hc
    rw [after_append, List.foldl_cons, after_read]
    exact (grows_steps _ hlater l).classNames (hread.mem_classNames c hc)
  · intro classes found hfound
    have hok : (after steps).relations classes = .ok found := by
      injection hfound
    obtain ⟨rs, _, hdistinct⟩ := Loose.of_bind hok
    cases hdistinct
    exact Relation.distinct_pairwise rs.flatten

end

/-- A C# file whose reading stops at the second class, the base of which cannot be told. -/
def stoppedFile : SourceFile := ⟨"Shapes.CS", some "class A : Base \x7b\x7d\nclass B : I \x7b\x7d\n"⟩

def plainFile : SourceFile := ⟨"c.py", some "class C:\n    pass\n"⟩

/-- Although nothing is listed, the relation of the first class stays, also while a Python file is read. -/
theorem session_discipline_stopped :
    ((after []).step (.read stoppedFile "")).1 = .classes [] ∧
    ((after [.read stoppedFile ""]).findings .csharp).relations.length = 1 ∧
    ((after [.read stoppedFile ""]).step (.read plainFile "")).2.findings .csharp =
      (after [.read stoppedFile ""]).findings .csharp ∧
    ((after [.read stoppedFile ""]).findings .csharp).Grows
      ((after ([.read stoppedFile ""] ++ [.statistics])).findings .csharp) ∧
    ((after [.read stoppedFile ""]).step .statistics).2 = after [.read stoppedFile ""] ∧
    (∃ found, ((after [.read stoppedFile ""]).step (.read plainFile "")).1 = .classes found ∧ found.length = 1 ∧
      ∀ c ∈ found, c.name ∈
        ((after ([.read stoppedFile ""] ++ .read plainFile "" :: [.statistics])).findings .python).classNames) ∧
    (∃ found, ((after [.read stoppedFile ""]).step (.relations (.list []))).1 = .relations (.ok found) ∧
      found.Pairwise fun r s => ¬ (r.fromClass = s.fromClass ∧ r.toClass = s.toClass ∧ r.kind = s.kind)) := by
  obtain ⟨hframe, hgrows, -, hquery, hlisted, hrelations⟩ := session_discipline [.read stoppedFile ""]
  have hlanguage : languageOf? plainFile.path = some .python := by decide
  have hnone : ((after []).read stoppedFile.path stoppedFile.source "").1.length = 0 := by decide +kernel
  have hkept : ((after [.read stoppedFile ""]).findings .csharp).relations.length = 1 := by decide +kernel
  have hone : ((after [.read stoppedFile ""]).read plainFile.path plainFile.source "").1.length = 1 := by decide +kernel
  refine ⟨?_, hkept, ?_, ?_, ?_, ⟨_, answer_read _ _ _, hone, ?_⟩, ?_⟩
  · rw [answer_read, List.length_eq_zero_iff.mp hnone]
  · exact hframe plainFile "" .csharp (by rw [hlanguage]; decide)
  · exact hgrows [.statistics] (by simp) .csharp
  · exact hquery .statistics rfl
  · exact hlisted plainFile "" _ [.statistics] .python (answer_read _ _ _) hlanguage (by simp)
  · have hanswer := congrArg Answer.relations (relations_eq (after [.read stoppedFile ""]) [])
    exact ⟨_, hanswer, hrelations (.list []) _ hanswer⟩

end Workbench

end CodeAtlas
