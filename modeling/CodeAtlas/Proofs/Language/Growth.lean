import CodeAtlas.Proofs.Language.ClassNames
import CodeAtlas.Proofs.Text.Ascending
import CodeAtlas.Relations.Kind
import Mathlib.Data.List.Infix

/-!
# Base clauses, and findings that only grow

A class names the classes that it extends and the interfaces that it implements.  `BaseClause` is one such name, and
`Workbench.baseClauses` gives all of them in a source text of a language, read off its declarations alone.

Whatever a text holds, and wherever its reading stops, the findings of its language only grow: what is kept in the order
in which it was found grows at its end, and what is kept in ascending order gets more members.
-/

namespace CodeAtlas

/-- A class extends or implements a base. -/
structure BaseClause where
  derived : String
  base : String
  kind : RelationKind
  deriving DecidableEq

def BaseClause.toRelation (c : BaseClause) : Relation := ⟨c.base, c.derived, c.kind.name, some "heuristic"⟩

def baseClausesFor (cls : String) (kind : RelationKind) (bases : List String) : List BaseClause :=
  bases.map fun b => ⟨cls, b, kind⟩

/-! ### The base clauses of a text -/

def Python.baseClauses (ns : List Python.Node) : List BaseClause :=
  ns.flatMap fun
    | .classDef name bases _ _ _ => baseClausesFor name.text .extends (bases.filterMap Python.baseName?)
    | _ => []

namespace Java

/-- The base clauses of the classes among the parts of a program. -/
def classClauses (vs : List Node.Visit) : List BaseClause :=
  vs.flatMap fun v => match v.node with
    | .classDecl _ _ name _ base interfaces =>
      baseClausesFor name.text .extends base.toList ++ baseClausesFor name.text .implements interfaces
    | _ => []

/-- The base clauses of the interfaces among the parts of a program. -/
def interfaceClauses (vs : List Node.Visit) : List BaseClause :=
  vs.flatMap fun v => match v.node with
    | .interfaceDecl _ name _ bases => baseClausesFor name.text .extends bases
    | _ => []

def baseClauses (vs : List Node.Visit) : List BaseClause := classClauses vs ++ interfaceClauses vs

end Java

namespace CSharp

def listedBases (m : Pattern.Match) : List String := ((m.group? 2).map fun b => Text.splitOn b ",").getD []

def basePart (part : String) : String := TypeName.lastPart (Text.trim (TypeName.dropParameters (Text.trim part))) "."

/-- Bases that are named like interfaces are implemented, the others extended. -/
def clauseKind (base : String) : RelationKind :=
  if baseKind? base = some "implements" then .implements else .extends

def classClauses (m : Pattern.Match) : List BaseClause :=
  (((listedBases m).map basePart).filter (· != "")).map fun b => ⟨m.text 1, b, clauseKind b⟩

def interfaceClauses (m : Pattern.Match) : List BaseClause :=
  baseClausesFor (m.text 1) .extends
    (((listedBases m).map fun b => Text.trim (TypeName.lastPart (Text.trim b) ".")).filter (· != ""))

def baseClauses (cs : List Char) : List BaseClause :=
  (classPattern.findAll cs).flatMap classClauses ++ (interfacePattern.findAll cs).flatMap interfaceClauses

end CSharp

namespace TypeScript

/-- The base clauses of a declaration for a list of names divided by commas. -/
def listedClauses (cls : String) (kind : RelationKind) (names : String) : List BaseClause :=
  baseClausesFor cls kind (((commaPattern.split (Chars.trim names.toList)).map fun n =>
    TypeName.lastPart (String.ofList n) ".").filter (· != ""))

def interfaceClauses (m : Pattern.Match) : List BaseClause :=
  (m.group? 2).elim [] (listedClauses (m.text 1) .extends)

def classClauses (m : Pattern.Match) : List BaseClause :=
  (m.group? 2).elim [] (fun base => baseClausesFor (m.text 1) .extends [TypeName.lastPart base "."]) ++
    (m.group? 3).elim [] (listedClauses (m.text 1) .implements)

def baseClauses (cs : List Char) : List BaseClause :=
  (interfacePattern.findAll cs).flatMap interfaceClauses ++ (classPattern.findAll cs).flatMap classClauses

end TypeScript

namespace Cpp

/-- The base that a part of a list names: its last word, the words of access apart. -/
def basePart? (part : String) : Option String :=
  (Chars.words (accessPattern.replaceAll [] part.toList)).getLast?.map String.ofList

def classClauses (m : Pattern.Match) : List BaseClause :=
  (m.group? 2).elim [] fun bases => baseClausesFor (m.text 1) .extends ((Text.splitOn bases ",").filterMap basePart?)

def baseClauses (cs : List Char) : List BaseClause := (classPattern.findAll (dropComments cs)).flatMap classClauses

end Cpp

def Workbench.baseClauses [Java.Parser] (l : Language) (source : String) : List BaseClause :=
  match l with
  | .python => ((Python.parse source).map fun tree => Python.baseClauses tree.walk).getD []
  | .java => ((Java.Parser.parse source).map fun u => Java.baseClauses u.visits).getD []
  | .csharp => CSharp.baseClauses source.toList
  | .typescript => TypeScript.baseClauses source.toList
  | .cpp => Cpp.baseClauses source.toList

namespace Findings

/-- What was found stays: lists grow at their ends, sets get more members. -/
structure Grows (f g : Findings) : Prop where
  relations : f.relations <+: g.relations
  compositions : f.compositions <+: g.compositions
  usages : f.usages <+: g.usages
  classNames : f.classNames ⊆ g.classNames
  imports : f.imports ⊆ g.imports
  scopes : f.scopes ⊆ g.scopes
  useCases : f.useCases <+: g.useCases
  transitions : f.transitions <+: g.transitions
  calls : f.calls <+: g.calls

namespace Grows

variable {f g h : Findings}

theorem refl (f : Findings) : Grows f f := by
  constructor <;> first | exact List.prefix_rfl | exact List.Subset.refl _

theorem trans (hfg : Grows f g) (hgh : Grows g h) : Grows f h where
  relations := hfg.relations.trans hgh.relations
  compositions := hfg.compositions.trans hgh.compositions
  usages := hfg.usages.trans hgh.usages
  classNames := List.Subset.trans hfg.classNames hgh.classNames
  imports := List.Subset.trans hfg.imports hgh.imports
  scopes := List.Subset.trans hfg.scopes hgh.scopes
  useCases := hfg.useCases.trans hgh.useCases
  transitions := hfg.transitions.trans hgh.transitions
  calls := hfg.calls.trans hgh.calls

theorem insertAscending_subset (a : String) (as : List String) : as ⊆ Text.insertAscending a as :=
  fun _ hb => Text.mem_insertAscending.mpr (.inr hb)

theorem addClass (f : Findings) (name : String) : Grows f (f.addClass name) :=
  { refl f with classNames := insertAscending_subset name f.classNames }

theorem addRelation (f : Findings) (source target kind : String) : Grows f (f.addRelation source target kind) :=
  { refl f with relations := List.prefix_append f.relations _ }

theorem addComposition (f : Findings) (owner part : String) : Grows f (f.addComposition owner part) :=
  { refl f with compositions := List.prefix_append f.compositions _ }

theorem addUsage (f : Findings) (user used : String) : Grows f (f.addUsage user used) :=
  { refl f with usages := List.prefix_append f.usages _ }

theorem addImport (f : Findings) (name : String) : Grows f (f.addImport name) :=
  { refl f with imports := insertAscending_subset name f.imports }

theorem addScope (f : Findings) (name : String) : Grows f (f.addScope name) :=
  { refl f with scopes := insertAscending_subset name f.scopes }

theorem foldl {α : Type} {step : Findings → α → Findings} (hstep : ∀ f a, Grows f (step f a)) (as : List α)
    (f : Findings) : Grows f (as.foldl step f) := by
  induction as generalizing f with
  | nil => exact refl f
  | cons a as ih => exact (hstep f a).trans (ih (step f a))

end Grows

theorem mem_addClass (f : Findings) (name : String) : name ∈ (f.addClass name).classNames :=
  Text.mem_insertAscending.mpr (.inl rfl)

/-- Reading adds to the findings, and the classes listed are among them afterwards. -/
structure Records (f : Findings) (listed : List ClassEntry) (g : Findings) : Prop where
  grows : f.Grows g
  mem_classNames : ∀ c ∈ listed, c.name ∈ g.classNames

namespace Records

variable {f g h : Findings} {c : ClassEntry} {cs : List ClassEntry}

theorem nil (hfg : f.Grows g) : Records f [] g := ⟨hfg, fun _ hc => absurd hc List.not_mem_nil⟩

theorem after (hfg : f.Grows g) (hgh : Records g cs h) : Records f cs h := ⟨hfg.trans hgh.grows, hgh.mem_classNames⟩

theorem cons (hfg : f.Grows g) (hc : c.name ∈ g.classNames) (hgh : Records g cs h) : Records f (c :: cs) h := by
  refine ⟨hfg.trans hgh.grows, ?_⟩
  intro d hd
  rcases List.mem_cons.mp hd with rfl | hd
  · exact hgh.grows.classNames hc
  · exact hgh.mem_classNames d hd

theorem readEach {α : Type} {read? : α → Option (Findings → ClassEntry × Findings)}
    (hread : ∀ a, ∀ read ∈ read? a, ∀ f, Records f [(read f).1] (read f).2) (as : List α) (f : Findings) :
    Records f (Findings.readEach read? as f).1 (Findings.readEach read? as f).2 := by
  induction as generalizing f with
  | nil => exact .nil (.refl f)
  | cons a as ih =>
    rw [Findings.readEach]
    cases heq : read? a with
    | none => exact ih f
    | some read =>
      have ha := hread a read heq f
      exact .cons ha.grows (ha.mem_classNames _ (List.mem_singleton_self _)) (ih _)

end Records

end Findings

open Findings

/-! ### Python -/

namespace Python

theorem grows_classEntry (package : String) (f : Findings) (name : String) (bases body : List Node) :
    f.Grows (classEntry package f name bases body).2 :=
  ((Grows.foldl (fun f b => .addRelation f b name "extends") _ f).trans
    (.foldl (fun f n => .addUsage f name n) _ _)).trans (.foldl (fun f n => .addComposition f name n) _ _)

theorem records_classesOf (package : String) (f : Findings) (ns : List Node) :
    Records f (classesOf package f ns).1 (classesOf package f ns).2 := by
  refine .readEach (fun n read hread f => ?_) ns f
  cases n with
  | classDef name bases keywords body decorators =>
    cases hread
    exact .cons ((grows_classEntry package f name.text bases body).trans (.addClass _ name.text))
      (mem_addClass _ name.text) (.nil (.refl _))
  | _ => cases hread

theorem records_classes (source package : String) (f : Findings) :
    Records f (classes source package f).1 (classes source package f).2 := by
  unfold classes
  cases parse source with
  | none => exact .nil (.refl f)
  | some tree => exact .after (.foldl (fun f n => .addImport f n) _ f) (records_classesOf package _ tree.walk)

end Python

end CodeAtlas
