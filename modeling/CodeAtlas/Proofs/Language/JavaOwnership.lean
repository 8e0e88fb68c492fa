import CodeAtlas.Proofs.Language.FieldNames
import Mathlib.Data.List.Pairwise

/-!
# The owners of Java methods

A method belongs to the declaration of a type that surrounds it most closely.  An entry is given the methods for which
it is the closest class, or the closest interface, whatever other types stand between.

* **`methods_classesIn`**: where all types have different names, an entry lists the methods that its type owns and those
  that stray to it.
-/

namespace CodeAtlas.Java

open List

/-! ### The parts around a part -/

namespace Node

/-- The parts of a construct, in the order of the language. -/
def parts : Node → List Node
  | classDecl _ marks _ body _ _ => marks ++ body
  | interfaceDecl marks _ body _ => marks ++ body
  | otherType _ parts => parts
  | method _ marks _ _ body => marks ++ body
  | field marks _ _ values => marks ++ values
  | statement e rest => e.toList ++ rest
  | primary _ _ selectors rest => selectors ++ rest
  | other parts => parts

theorem sizeOf_lt_of_mem_parts {n m : Node} (h : m ∈ n.parts) : sizeOf m < sizeOf n := by
  have hlist : ∀ {l : List Node}, m ∈ l → sizeOf m < sizeOf l := sizeOf_lt_of_mem
  cases n with
  | otherType name parts | other parts =>
    have := hlist (l := parts) h
    simp only [otherType.sizeOf_spec, other.sizeOf_spec]
    omega
  | statement e rest =>
    rcases mem_append.mp h with h | h
    · obtain rfl := Option.mem_toList.mp h
      simp only [statement.sizeOf_spec, Option.some.sizeOf_spec]
      omega
    · have := hlist h
      simp only [statement.sizeOf_spec]
      omega
  | _ =>
    rcases mem_append.mp h with h | h <;>
    · have := hlist h
      simp only [classDecl.sizeOf_spec, interfaceDecl.sizeOf_spec, method.sizeOf_spec, field.sizeOf_spec,
        primary.sizeOf_spec]
      omega

theorem visitsAll_eq (cls interface : Option String) (ns : List Node) :
    visitsAll cls interface ns = ns.flatMap (visits cls interface) := by
  induction ns with
  | nil => rw [visitsAll, flatMap_nil]
  | cons n ns ih => rw [visitsAll, flatMap_cons, ih]

theorem visits_eq (cls interface : Option String) (n : Node) : visits cls interface n = ⟨cls, interface, n⟩ ::
    n.parts.flatMap (visits ((className? n).or cls) ((interfaceName? n).or interface)) := by
  cases n with
  | statement e rest =>
    cases e <;> simp [visits, visitsOption, visitsAll_eq, parts, className?, interfaceName?]
  | _ => simp [visits, visitsAll_eq, parts, className?, interfaceName?]

/-- A part stands in a tree, with other parts around it; the closest one is the first. -/
inductive Around (x : Node) : List Node → Node → Prop
  | here : Around x [] x
  | inside {n m : Node} {p : List Node} : m ∈ n.parts → Around x p m → Around x (p ++ [n]) n

theorem Around.of_mem {x n a : Node} {p : List Node} (h : Around x p n) (ha : a ∈ p) : ∃ q, Around a q n := by
  induction h with
  | here => cases ha
  | inside hm _ ih =>
    rcases mem_append.mp ha with ha | ha
    · obtain ⟨q, hq⟩ := ih ha
      exact ⟨_, .inside hm hq⟩
    · exact ⟨[], mem_singleton.mp ha ▸ .here⟩

/-- A visit knows the closest class and the closest interface around. -/
def Visit.Sees (v : Visit) (p : List Node) (cls interface : Option String) : Prop :=
  v.cls = (p.findSome? className?).or cls ∧ v.interface = (p.findSome? interfaceName?).or interface

theorem Visit.sees_concat_iff {v : Visit} {p : List Node} {n : Node} {cls interface : Option String} :
    v.Sees (p ++ [n]) cls interface ↔ v.Sees p ((className? n).or cls) ((interfaceName? n).or interface) := by
  simp [Sees, findSome?_append, Option.or_assoc]

theorem mem_visits_iff {v : Visit} {n : Node} {cls interface : Option String} :
    v ∈ visits cls interface n ↔ ∃ p, Around v.node p n ∧ v.Sees p cls interface := by
  rw [visits_eq, mem_cons, mem_flatMap]
  constructor
  · rintro (rfl | ⟨m, hm, hv⟩)
    · exact ⟨[], .here, rfl, rfl⟩
    · have := sizeOf_lt_of_mem_parts hm
      obtain ⟨p, hp, hsees⟩ := mem_visits_iff.mp hv
      exact ⟨p ++ [n], .inside hm hp, Visit.sees_concat_iff.mpr hsees⟩
  · rintro ⟨p, hp, hsees⟩
    cases hp with
    | here =>
      obtain ⟨c, i, n⟩ := v
      obtain ⟨rfl, rfl⟩ := hsees
      exact .inl rfl
    | inside hm hp =>
      have := sizeOf_lt_of_mem_parts hm
      exact .inr ⟨_, hm, mem_visits_iff.mpr ⟨_, hp, Visit.sees_concat_iff.mp hsees⟩⟩
termination_by sizeOf n

end Node

/-! ### Owners -/

def typeName? : Node → Option String
  | .otherType name _ => some name
  | n => (className? n).or (interfaceName? n)

def kindName? (interface : Bool) : Node → Option String := if interface then interfaceName? else className?

def methodName? : Node → Option String
  | .method _ _ name _ _ => some name
  | _ => none

theorem typeName?_of_kindName? {interface : Bool} {n : Node} {t : String} (h : kindName? interface n = some t) :
    typeName? n = some t := by
  cases interface <;> cases n <;> simp_all [kindName?, className?, interfaceName?, typeName?]

namespace SourceFile

variable (u : SourceFile)

def Stands (p : List Node) (x : Node) : Prop := ∃ n ∈ u.types, x.Around p n

def typeNames : List String := u.visits.filterMap fun v => typeName? v.node

/-- A type owns a method: it surrounds one of that name most closely. -/
def Owns (t m : String) : Prop :=
  ∃ p x, u.Stands p x ∧ methodName? x = some m ∧ p.findSome? typeName? = some t

/-- A method of the name has the type as the closest one of a kind, and is another one's. -/
def Strays (interface : Bool) (t m : String) : Prop :=
  ∃ p x, u.Stands p x ∧ methodName? x = some m ∧ p.findSome? (kindName? interface) = some t ∧
    p.findSome? typeName? ≠ some t

variable {u}

theorem mem_visits_iff {v : Node.Visit} : v ∈ u.visits ↔
    ∃ p, u.Stands p v.node ∧ v.cls = p.findSome? className? ∧ v.interface = p.findSome? interfaceName? := by
  simp only [visits, Node.visitsAll_eq, mem_flatMap, Node.mem_visits_iff, Node.Visit.Sees, Option.or_none, Stands]
  grind

theorem exists_mem_visits_iff {q : Node → Prop} : (∃ v ∈ u.visits, q v.node) ↔ ∃ p x, u.Stands p x ∧ q x := by
  constructor
  · rintro ⟨v, hv, hq⟩
    obtain ⟨p, hp, _⟩ := mem_visits_iff.mp hv
    exact ⟨p, v.node, hp, hq⟩
  · rintro ⟨p, x, hp, hq⟩
    exact ⟨⟨_, _, x⟩, mem_visits_iff.mpr ⟨p, hp, rfl, rfl⟩, hq⟩

theorem eq_of_typeName? (h : u.typeNames.Nodup) {p q : List Node} {a b : Node} {t : String} (ha : u.Stands p a)
    (hb : u.Stands q b) (hat : typeName? a = some t) (hbt : typeName? b = some t) : a = b := by
  have hva : (⟨_, _, a⟩ : Node.Visit) ∈ u.visits := mem_visits_iff.mpr ⟨p, ha, rfl, rfl⟩
  have hvb : (⟨_, _, b⟩ : Node.Visit) ∈ u.visits := mem_visits_iff.mpr ⟨q, hb, rfl, rfl⟩
  let Same := fun v w : Node.Visit => ∀ t, typeName? v.node = some t → typeName? w.node = some t → v.node = w.node
  have hsymm : Std.Symm Same := ⟨fun v w hvw t hv hw => (hvw t hw hv).symm⟩
  have hpair : u.visits.Pairwise Same := (pairwise_filterMap.mp h).imp fun hdiff t hv hw => absurd rfl (hdiff t hv t hw)
  exact hpair.forall_of_forall (fun _ _ _ _ _ => rfl) hva hvb t hat hbt

theorem findSome?_kindName? (h : u.typeNames.Nodup) {interface : Bool} {p q : List Node} {x d : Node} {t : String}
    (hx : u.Stands p x) (hd : u.Stands q d) (hdt : kindName? interface d = some t)
    (hp : p.findSome? typeName? = some t) :
    p.findSome? (kindName? interface) = some t := by
  obtain ⟨l, a, r, rfl, hat, hl⟩ := findSome?_eq_some_iff.mp hp
  obtain ⟨n, hn, haround⟩ := hx
  obtain ⟨q', ha⟩ := haround.of_mem (a := a) (by simp)
  obtain rfl := eq_of_typeName? h ⟨n, hn, ha⟩ hd hat (typeName?_of_kindName? hdt)
  refine findSome?_eq_some_iff.mpr ⟨l, a, r, rfl, hdt, fun b hb => ?_⟩
  by_contra hne
  obtain ⟨s, hs⟩ := Option.ne_none_iff_exists'.mp hne
  exact absurd (hl b hb) (by simp [typeName?_of_kindName? hs])

end SourceFile

/-! ### What the entries list -/

/-- The closest interface or class that a visit knows, as asked for. -/
def Node.Visit.nearest (interface : Bool) (v : Node.Visit) : Option String := if interface then v.interface else v.cls

variable {m t : String} {u : SourceFile} {interface : Bool}

theorem mem_methodNames_iff {q : Node.Visit → Bool} {vs : List Node.Visit} :
    m ∈ methodNames q vs ↔ ∃ v ∈ vs, methodName? v.node = some m ∧ q v := by
  rw [methodNames, Text.mem_ascendingSet, mem_filterMap]
  refine exists_congr fun v => and_congr_right fun _ => ?_
  cases v.node with
  | method modifiers marks name params body => simp [methodName?, and_comm]
  | _ => simp [methodName?]

theorem SourceFile.mem_methodNames_iff : m ∈ methodNames (fun v => v.nearest interface == some t) u.visits ↔
      ∃ p x, u.Stands p x ∧ methodName? x = some m ∧ p.findSome? (kindName? interface) = some t := by
  rw [Java.mem_methodNames_iff]
  constructor
  · rintro ⟨v, hv, hm, hnear⟩
    obtain ⟨p, hp, hcls, hinterface⟩ := mem_visits_iff.mp hv
    refine ⟨p, v.node, hp, hm, ?_⟩
    cases interface
    · exact hcls ▸ beq_iff_eq.mp hnear
    · exact hinterface ▸ beq_iff_eq.mp hnear
  · rintro ⟨p, x, hp, hm, hfind⟩
    refine ⟨⟨_, _, x⟩, mem_visits_iff.mpr ⟨p, hp, rfl, rfl⟩, hm, beq_iff_eq.mpr ?_⟩
    cases interface <;> exact hfind

def listing (c : ClassEntry) : Bool × String × List String := (c.stereotype == .interface, c.name, c.methods)

/-- A reader lists, for each declaration of a kind, the methods whose closest type of that kind has its name. -/
def Lists (interface : Bool) (all : List Node.Visit) (read? : Node.Visit → Option (Findings → ClassEntry × Findings)) :
    Prop :=
  ∀ v, Option.Rel (fun t read => ∀ f : Findings,
    (interface, t, methodNames (fun w => w.nearest interface == some t) all) = listing (read f).1)
    (kindName? interface v.node) (read? v)

variable {source package : String} {f : Findings} {all : List Node.Visit}

theorem lists_classReader? : Lists false all (classReader? source package all) := by
  rintro ⟨cls, inside, n⟩
  cases n with
  | classDecl modifiers marks name body base interfaces =>
    refine .some fun f => ?_
    simp only [classEntry, listing]
    split <;> rfl
  | _ => exact .none

theorem lists_interfaceReader? : Lists true all (interfaceReader? package all) := by
  rintro ⟨cls, inside, n⟩
  cases n with
  | interfaceDecl marks name body bases => exact .some fun f => rfl
  | _ => exact .none

theorem Lists.map_listing {read? : Node.Visit → Option (Findings → ClassEntry × Findings)}
    (h : Lists interface all read?) (vs : List Node.Visit) (f : Findings) :
    (Findings.readEach read? vs f).1.map listing = (vs.filterMap fun v => kindName? interface v.node).map fun t =>
      (interface, t, methodNames (fun w => w.nearest interface == some t) all) := by
  rw [eq_comm, ← forall₂_eq_eq_eq, forall₂_map_left_iff, forall₂_map_right_iff]
  exact forall₂_readEach (fun v => h v) vs f

theorem mem_map_listing_iff {ms : List String} : (interface, t, ms) ∈ (classesIn u source package f).1.map listing ↔
    (∃ p d, u.Stands p d ∧ kindName? interface d = some t) ∧
      ms = methodNames (fun v => v.nearest interface == some t) u.visits := by
  rw [← SourceFile.exists_mem_visits_iff]
  simp only [classesIn, map_append, lists_classReader?.map_listing, lists_interfaceReader?.map_listing, mem_append,
    mem_map, mem_filterMap]
  cases interface <;> simp [eq_comm]

/-- **Whose methods an entry lists**: where all types have different names, each class and interface has an entry with
the methods that it owns, and an entry lists beside them those that stray to it and nothing else. -/
theorem methods_classesIn (u : SourceFile) (source package : String) (f : Findings) (h : u.typeNames.Nodup) :
    (∀ interface p d t m, u.Stands p d → kindName? interface d = some t → u.Owns t m →
      ∃ c ∈ (classesIn u source package f).1, c.name = t ∧ m ∈ c.methods) ∧
    ∀ c ∈ (classesIn u source package f).1, ∀ m, m ∈ c.methods ↔
      u.Owns c.name m ∨ u.Strays (c.stereotype == .interface) c.name m := by
  constructor
  · intro interface q d t m hd hdt howns
    obtain ⟨p, x, hx, hm, hp⟩ := howns
    obtain ⟨c, hc, heq⟩ := List.mem_map.mp (mem_map_listing_iff.mpr ⟨⟨q, d, hd, hdt⟩, rfl⟩)
    simp only [listing, Prod.mk.injEq] at heq
    refine ⟨c, hc, heq.2.1, heq.2.2 ▸ SourceFile.mem_methodNames_iff.mpr ⟨p, x, hx, hm, ?_⟩⟩
    exact SourceFile.findSome?_kindName? h hx hd hdt hp
  · intro c hc m
    obtain ⟨⟨q, d, hd, hdt⟩, hmethods⟩ := mem_map_listing_iff.mp (List.mem_map_of_mem (f := listing) hc)
    rw [hmethods, SourceFile.mem_methodNames_iff]
    constructor
    · rintro ⟨p, x, hx, hm, hfind⟩
      by_cases hown : p.findSome? typeName? = some c.name
      · exact .inl ⟨p, x, hx, hm, hown⟩
      · exact .inr ⟨p, x, hx, hm, hfind, hown⟩
    · rintro (⟨p, x, hx, hm, hown⟩ | ⟨p, x, hx, hm, hfind, _⟩)
      · exact ⟨p, x, hx, hm, SourceFile.findSome?_kindName? h hx hd hdt hown⟩
      · exact ⟨p, x, hx, hm, hfind⟩

def listener : Node := .interfaceDecl [] ⟨"Listener", by decide⟩ [.method [] [] "onSale" [] []] []

def shop : SourceFile := ⟨none, [], [.classDecl [] [] ⟨"Shop", by decide⟩ [listener] none []]⟩

theorem stands_listener : shop.Stands shop.types listener := ⟨_, mem_singleton_self _, .inside mem_cons_self .here⟩

theorem stands_onSale : shop.Stands (listener :: shop.types) (.method [] [] "onSale" [] []) :=
  ⟨_, mem_singleton_self _, .inside mem_cons_self (.inside mem_cons_self .here)⟩

theorem methods_classesIn_shop : shop.typeNames.Nodup ∧
    ∃ c ∈ (classesIn shop "" "" {}).1, c.name = "Listener" ∧ "onSale" ∈ c.methods := by
  have hnodup : shop.typeNames.Nodup := by decide
  exact ⟨hnodup, (methods_classesIn shop "" "" {} hnodup).1 true _ _ _ _ stands_listener rfl
    ⟨_, _, stands_onSale, rfl, rfl⟩⟩

/-- A class lists the method of an interface inside it, which is not its own. -/
theorem shop_lists_onSale : (∃ c ∈ (classesIn shop "" "" {}).1, c.name = "Shop" ∧ "onSale" ∈ c.methods) ∧
    ¬ shop.Owns "Shop" "onSale" := by
  constructor
  · have hshop : ∃ p d, shop.Stands p d ∧ kindName? false d = some "Shop" :=
      ⟨[], _, ⟨_, List.mem_singleton_self _, .here⟩, rfl⟩
    obtain ⟨c, hc, heq⟩ := List.mem_map.mp (mem_map_listing_iff.mpr ⟨hshop, rfl⟩)
    simp only [listing, Prod.mk.injEq] at heq
    exact ⟨c, hc, heq.2.1, heq.2.2 ▸ SourceFile.mem_methodNames_iff.mpr ⟨_, _, stands_onSale, rfl, rfl⟩⟩
  · rintro ⟨p, x, ⟨n, hn, haround⟩, hm, hp⟩
    cases List.mem_singleton.mp hn
    cases haround with
    | here => cases hm
    | inside hpart haround =>
      cases List.mem_singleton.mp hpart
      cases haround with
      | here => cases hm
      | inside hpart haround =>
        cases List.mem_singleton.mp hpart
        cases haround with
        | here => exact absurd hp (by decide)
        | inside hpart => cases hpart

end CodeAtlas.Java
