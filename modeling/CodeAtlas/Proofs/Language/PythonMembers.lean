import CodeAtlas.Proofs.Language.FieldNames

/-!
# The members of Python classes

`Python.members_classesIn` says of every program which methods and fields the entries of its classes list, in terms of
the statements in the class bodies, and when nothing is missing.
-/

namespace CodeAtlas.Python

open List

/-! ### Levels of trees -/

def Node.level : Nat → Node → List Node
  | 0, n => [n]
  | d + 1, n => n.children.flatMap (level d)

variable {x s : Node} {body : List Node} (ns : List Node)

theorem Node.flatMap_level_zero : ns.flatMap (level 0) = ns := by
  simp [level]

theorem Node.flatMap_level_succ (d : Nat) :
    ns.flatMap (level (d + 1)) = (ns.flatMap children).flatMap (level d) := flatMap_assoc.symm

theorem Node.mem_levels {ns : List Node} : x ∈ levels ns ↔ ∃ d, x ∈ ns.flatMap (level d) := by
  fun_induction levels ns with
  | case1 => simp
  | case2 n ns ih =>
    rw [mem_append, ih]
    constructor
    · rintro (h | ⟨d, h⟩)
      · exact ⟨0, by rwa [flatMap_level_zero]⟩
      · exact ⟨d + 1, by rwa [flatMap_level_succ]⟩
    · rintro ⟨d, h⟩
      cases d with
      | zero => exact .inl (by rwa [flatMap_level_zero] at h)
      | succ d => exact .inr ⟨d, by rwa [flatMap_level_succ] at h⟩

def Node.Occurs (x n : Node) : Prop := ∃ d, x ∈ n.level d

theorem Node.mem_walk_iff {n : Node} : x ∈ n.walk ↔ x.Occurs n := by
  simp [walk, mem_levels, Occurs]

/-! ### Methods and fields of a class body -/

/-- A statement defines a method, which may be asynchronous. -/
inductive IsMethod (async : Bool) (name : String) : Node → Prop
  | intro {params : Node} {body decorators : List Node} {returns : Option Node} :
      IsMethod async name (.functionDef async name params body decorators returns)

def Defines (body : List Node) (async : Bool) (name : String) : Prop := ∃ s ∈ body, IsMethod async name s

/-- A target binds an attribute of the object, by itself or as an element of a tuple or a list. -/
inductive Binds (x : String) : Node → Prop
  | attr {t : Node} {a : String} : selfField? t = some a → fieldName a = x → Binds x t
  | tuple {es : List Node} {e : Node} : e ∈ es → Binds x e → Binds x (.tuple es)
  | list {es : List Node} {e : Node} : e ∈ es → Binds x e → Binds x (.listExpr es)
  | starred {e : Node} : Binds x e → Binds x (.starred e)

/-- A statement assigns an attribute of the object, with or without a type. -/
inductive Assigns (x : String) : Node → Prop
  | plain {ts : List Node} {t v : Node} : t ∈ ts → Binds x t → Assigns x (.assign ts v)
  | typed {t hint : Node} {v : Option Node} : Binds x t → Assigns x (.annAssign t hint v)

/-- A method of a class body, which may be asynchronous, assigns an attribute of the object in a statement at any
depth. -/
def AssignsIn (body : List Node) (x : String) : Prop :=
  ∃ m ∈ body, (∃ async name, IsMethod async name m) ∧ ∃ s : Node, s.Occurs m ∧ Assigns x s

/-- A statement assigns a field to a target that stands for it by itself. -/
inductive Sets (field? : Node → Option String) (x : String) : Node → Prop
  | plain {ts : List Node} {t v : Node} {a : String} :
      t ∈ ts → field? t = some a → fieldName a = x → Sets field? x (.assign ts v)
  | typed {t hint : Node} {v : Option Node} {a : String} :
      field? t = some a → fieldName a = x → Sets field? x (.annAssign t hint v)

/-- A class body sets a name of its own, or a method that is not asynchronous sets an attribute of the object. -/
def Shows (body : List Node) (x : String) : Prop :=
  (∃ s ∈ body, Sets bodyField? x s) ∨
    ∃ m ∈ body, (∃ name, IsMethod false name m) ∧ ∃ s : Node, s.Occurs m ∧ Sets selfField? x s

/-! ### What an entry lists -/

theorem methodName?_eq_some_iff {n : String} : methodName? s = some n ↔ IsMethod false n s := by
  constructor
  · intro h
    unfold methodName? at h
    split at h
    · cases h
      exact .intro
    · cases h
  · rintro ⟨⟩
    rfl

theorem mem_fieldsSet_iff {field? : Node → Option String} {x : String} :
    x ∈ (fieldsSet field? s).map fieldName ↔ Sets field? x s := by
  rw [mem_map]
  constructor
  · rintro ⟨_, h, rfl⟩
    unfold fieldsSet at h
    split at h
    · obtain ⟨a, ha, rfl⟩ := Option.map_eq_some_iff.mp (Option.mem_toList.mp h)
      exact .typed ha (fieldName_typed a _).symm
    · obtain ⟨t, ht, ha⟩ := mem_filterMap.mp h
      exact .plain ht ha rfl
    · cases h
  · intro h
    cases h with
    | plain ht ha hx => exact ⟨_, mem_filterMap.mpr ⟨_, ht, ha⟩, hx⟩
    | @typed _ hint _ a ha hx => exact ⟨typedField a hint, by simp [fieldsSet, ha], (fieldName_typed _ _).trans hx⟩

theorem mem_methodParts_iff : s ∈ methodParts body ↔ ∃ m ∈ body, (∃ name, IsMethod false name m) ∧ s.Occurs m := by
  simp only [methodParts, mem_flatMap, mem_filter, Option.isSome_iff_exists, methodName?_eq_some_iff,
    Node.mem_walk_iff, and_assoc]

theorem mem_fieldTexts_iff {x : String} : x ∈ (fieldTexts body).listed.map fieldName ↔ Shows body x := by
  have hset : ∀ (field? : Node → Option String) (ns : List Node),
      x ∈ (ns.flatMap (fieldsSet field?)).map fieldName ↔ ∃ s ∈ ns, Sets field? x s := by
    intro field? ns
    simp only [map_flatMap, mem_flatMap, mem_fieldsSet_iff]
  rw [fieldTexts, map_append, mem_append, hset, hset, Shows]
  refine or_congr_right ⟨?_, ?_⟩
  · rintro ⟨s, hs, hset⟩
    obtain ⟨m, hm, hmethod, hoccurs⟩ := mem_methodParts_iff.mp hs
    exact ⟨m, hm, hmethod, s, hoccurs, hset⟩
  · rintro ⟨m, hm, hmethod, s, hoccurs, hset⟩
    exact ⟨s, mem_methodParts_iff.mpr ⟨m, hm, hmethod, hoccurs⟩, hset⟩

/-- An entry lists the methods of a class body that are not asynchronous, ascending, and the fields that it shows. -/
structure Lists (body : List Node) (c : ClassEntry) : Prop where
  ascending : c.methods.Pairwise (· < ·)
  mem_methods : ∀ n, n ∈ c.methods ↔ Defines body false n
  mem_fields : ∀ x, x ∈ c.fields.map fieldName ↔ Shows body x

/-- An entry lists all methods of a class body and all attributes that they assign. -/
structure Complete (body : List Node) (c : ClassEntry) : Prop where
  mem_methods : ∀ n, n ∈ c.methods ↔ ∃ async, Defines body async n
  mem_fields : ∀ x, AssignsIn body x → x ∈ c.fields.map fieldName

theorem Lists.complete_iff {c : ClassEntry} (h : Lists body c) : Complete body c ↔
    (∀ n, Defines body true n → Defines body false n) ∧ ∀ x, AssignsIn body x → Shows body x := by
  constructor
  · intro hc
    exact ⟨fun n hn => (h.mem_methods n).mp ((hc.mem_methods n).mpr ⟨true, hn⟩),
      fun x hx => (h.mem_fields x).mp (hc.mem_fields x hx)⟩
  · rintro ⟨hmethods, hfields⟩
    refine ⟨fun n => (h.mem_methods n).trans ⟨fun hn => ⟨false, hn⟩, ?_⟩,
      fun x hx => (h.mem_fields x).mpr (hfields x hx)⟩
    rintro ⟨_ | _, hn⟩
    · exact hn
    · exact hmethods n hn

theorem lists_classEntry (package : String) (f : Findings) (name : String) (bases body : List Node) :
    Lists body (classEntry package f name bases body).1 where
  ascending := Text.ascendingSet_pairwise _
  mem_methods n := by
    show n ∈ Text.ascendingSet (body.filterMap methodName?) ↔ _
    simp only [Text.mem_ascendingSet, mem_filterMap, methodName?_eq_some_iff, Defines]
  mem_fields x := by
    have hfits : (fieldTexts body).Fits (classEntry package f name bases body).1 := .of_listed rfl rfl
    rw [hfits.mem_iff, mem_fieldTexts_iff]
    exact or_iff_left not_mem_nil

/-- **What the entries of a program list**: each class definition, at whatever depth, has its entry.  The entry is
complete exactly if every asynchronous method has the name of another one and every assigned attribute is shown. -/
theorem members_classesIn (tree : Node) (package : String) (f : Findings) :
    List.Forall₂ (fun d c => c.name = d.1 ∧ Lists d.2 c ∧
        (Complete d.2 c ↔ (∀ n, Defines d.2 true n → Defines d.2 false n) ∧ ∀ x, AssignsIn d.2 x → Shows d.2 x))
      (tree.walk.filterMap classDef?) (classesIn tree package f).1 := by
  unfold classesIn
  simp only
  generalize (tree.walk.flatMap importsOf).foldl Findings.addImport f = f
  induction tree.walk generalizing f with
  | nil => exact .nil
  | cons n ns ih =>
    cases n with
    | classDef name bases keywords body decorators =>
      have hlists := lists_classEntry package f name.text bases body
      exact .cons ⟨rfl, hlists, hlists.complete_iff⟩ (ih _)
    | _ => exact ih f

/-- An assignment to two attributes of the object at once. -/
def pairAssign : Node :=
  .assign [.tuple [.member (.name "self") "a", .member (.name "self") "b"]] (.tuple [.constant, .constant])

/-- The body of a class with an asynchronous method, and with a method that assigns two attributes at once. -/
def feedBody : List Node :=
  let params := .parameters [] [.parameter none] none [] [] none []
  [.functionDef true "poll" params [.assign [.member (.name "self") "items"] (.listExpr [])] [] none,
    .functionDef false "reset" params [pairAssign] [] none]

def feed : Node := .file [.classDef ⟨"Feed", by decide⟩ [] [] feedBody []]

theorem classesIn_feed : (classesIn feed "" {}).1 = [(classEntry "" {} "Feed" [] feedBody).1] := by
  simp [classesIn, classesOf, Findings.readEach, classReader?, feed, feedBody, pairAssign, Node.walk, Node.levels,
    Node.children, importsOf]

theorem listed_feedBody : (fieldTexts feedBody).listed = [] := by
  simp [fieldTexts, methodParts, methodName?, feedBody, pairAssign, Node.walk, Node.levels, Node.children, fieldsSet,
    selfField?]

/-- An asynchronous method is not listed, nor is an attribute that is assigned together with another one. -/
theorem members_missing : ∃ c ∈ (classesIn feed "" {}).1, c.name = "Feed" ∧
    Defines feedBody true "poll" ∧ "poll" ∉ c.methods ∧ AssignsIn feedBody "a" ∧ "a" ∉ c.fields.map fieldName := by
  refine ⟨_, classesIn_feed ▸ mem_singleton_self _, rfl, ?_⟩
  have hlists := lists_classEntry "" {} "Feed" [] feedBody
  rw [hlists.mem_methods, hlists.mem_fields, ← mem_fieldTexts_iff, listed_feedBody]
  have hbinds : Binds "a" (.member (.name "self") "a") := .attr rfl (by decide)
  refine ⟨⟨_, mem_cons_self, .intro⟩, ?_, ⟨_, mem_cons_of_mem _ mem_cons_self, ⟨_, _, .intro⟩,
    pairAssign, ⟨1, ?_⟩, .plain (mem_singleton_self _) (.tuple mem_cons_self hbinds)⟩, not_mem_nil⟩
  · rintro ⟨s, hs, hmethod⟩
    have hname := methodName?_eq_some_iff.mpr hmethod
    simp only [feedBody, mem_cons, not_mem_nil, or_false] at hs
    rcases hs with rfl | rfl <;> simp [methodName?] at hname
  · simp [Node.level, Node.children]

end CodeAtlas.Python
