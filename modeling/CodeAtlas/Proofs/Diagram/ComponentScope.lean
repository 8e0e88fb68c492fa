import CodeAtlas.Diagram.Component
import CodeAtlas.Proofs.Diagram.Scope
import CodeAtlas.Proofs.Value.Equality
import Mathlib.Data.List.Induction

/-!
# What component diagrams connect

A component diagram draws the first classes of each package and the first relations of the schema, and either choice is
made without the other.  An arrow has both its ends declared if and only if they are among the classes that are drawn.
-/

namespace CodeAtlas.Component

open List

open Loose (of_bind mem_of_mapM)

/-! ### Packages -/

/-- How many classes a package has. -/
def Packages.size (k : Atom) : Packages → Nat
  | [] => 0
  | (p, cs) :: rest => if p.same k then cs.length else size k rest

def Packages.drawn (ps : Packages) : List Value := ps.flatMap fun p => p.2.take packageLimit

variable {k : Atom} {c x : Value} {classes : List Value} {ps : Packages}

theorem Packages.size_put (j : Atom) : (put k c ps).size j = ps.size j + if k.same j then 1 else 0 := by
  induction ps with
  | nil => simp [put, size]
  | cons q rest ih =>
    obtain ⟨p, cs⟩ := q
    rw [put]
    split
    next hpk =>
      rw [size, size, length_append, length_singleton]
      have hsame : k.same j = p.same j :=
        Bool.eq_iff_iff.mpr ⟨Atom.same_trans hpk, Atom.same_trans (Atom.same_symm hpk)⟩
      rw [hsame]
      split <;> simp_all
    next hpk =>
      rw [size, size, ih]
      split
      next hpj =>
        have hkj : k.same j = false := by
          rw [← Bool.not_eq_true]
          exact fun hkj => hpk (Atom.same_trans hpj (Atom.same_symm hkj))
        rw [hkj]
        rfl
      next => rfl

theorem Packages.mem_drawn_put : x ∈ (put k c ps).drawn ↔ x ∈ ps.drawn ∨ x = c ∧ ps.size k < packageLimit := by
  induction ps with
  | nil => simp [put, size, drawn, packageLimit]
  | cons q rest ih =>
    obtain ⟨p, cs⟩ := q
    rw [put, size]
    split
    · have htake : x ∈ [c].take (packageLimit - cs.length) ↔ x = c ∧ cs.length < packageLimit := by
        rcases Nat.lt_or_ge cs.length packageLimit with hlt | hge
        · rw [take_of_length_le (by simp only [length_singleton]; omega)]
          simp [hlt]
        · rw [Nat.sub_eq_zero_of_le hge]
          simp [Nat.not_lt.mpr hge]
      simp only [drawn, flatMap_cons, mem_append, take_append, htake]
      exact or_right_comm
    · unfold drawn at ih ⊢
      rw [flatMap_cons, flatMap_cons, mem_append, mem_append, ih, or_assoc]

/-! ### Classes that are drawn -/

def isInPackage (k : Atom) (cls : Value) : Bool := (packageOf cls).toOption.any (·.same k)

/-- A class that has few enough classes of its package before it. -/
def IsDrawn (classes : List Value) (cls : Value) : Prop := ∃ before after k, classes = before ++ cls :: after ∧
  packageOf cls = .ok k ∧ before.countP (isInPackage k) < packageLimit

theorem isDrawn_concat (hk : packageOf c = .ok k) :
    IsDrawn (classes ++ [c]) x ↔ IsDrawn classes x ∨ x = c ∧ classes.countP (isInPackage k) < packageLimit := by
  constructor
  · rintro ⟨before, after, j, heq, hj, hfew⟩
    rcases eq_nil_or_concat after with rfl | ⟨after, d, rfl⟩
    · obtain ⟨rfl, hlast⟩ := append_inj' heq rfl
      cases hlast
      cases hk.symm.trans hj
      exact .inr ⟨rfl, hfew⟩
    · rw [concat_eq_append, ← cons_append, ← append_assoc] at heq
      exact .inl ⟨before, after, j, (append_inj' heq rfl).1, hj, hfew⟩
  · rintro (⟨before, after, j, rfl, hj, hfew⟩ | ⟨rfl, hfew⟩)
    · exact ⟨before, after ++ [c], j, by simp, hj, hfew⟩
    · exact ⟨classes, [], k, rfl, hk, hfew⟩

/-- **The classes that are drawn are those with few enough classes of their package before them.** -/
theorem packages_ok (h : packages classes = .ok ps) :
    (∀ k, ps.size k = classes.countP (isInPackage k)) ∧ ∀ x, x ∈ ps.drawn ↔ IsDrawn classes x := by
  induction classes using List.reverseRecOn generalizing ps with
  | nil =>
    cases h
    refine ⟨fun _ => rfl, fun x => iff_of_false not_mem_nil ?_⟩
    rintro ⟨before, after, k, heq, _⟩
    cases before <;> cases heq
  | append_singleton cs c ih =>
    rw [packages, foldlM_append] at h
    obtain ⟨qs, hqs, h⟩ := of_bind h
    rw [foldlM_cons] at h
    obtain ⟨_, hput, h⟩ := of_bind h
    obtain ⟨k, hk, hput⟩ := of_bind hput
    cases hput
    cases h
    obtain ⟨hsize, hdrawn⟩ := ih hqs
    refine ⟨fun j => ?_, fun x => ?_⟩
    · have hin : isInPackage j c = k.same j := by
        rw [isInPackage, hk]
        rfl
      rw [Packages.size_put, hsize, countP_append, countP_singleton, hin]
    · rw [Packages.mem_drawn_put, hdrawn, hsize, isDrawn_concat hk]

/-! ### Lines -/

variable {name : String} {ls : List Line}

theorem packageLines_ok {p : Atom × List Value} (h : packageLines p = .ok ls) :
    (p.2.take packageLimit).mapM nameOf = .ok (declaredNames ls) ∧ ∀ l ∈ ls, l.ends = [] := by
  have hnames : ∀ ns : List String, declaredNames (ns.map fun n => .declares .component n "") = ns := fun ns => by
    simp [declaredNames, filterMap_map, Function.comp_def, Line.declared?]
  have hinner : ∀ ns : List String, declaredNames (ns.map fun n => .inner (.declares .component n "")) = ns := by
    intro ns
    simp [declaredNames, filterMap_map, Function.comp_def, Line.declared?]
  unfold packageLines at h
  split at h
  · obtain ⟨ns, hns, h⟩ := of_bind h
    cases h
    have hframe : ∀ s, declaredNames [Line.plain s] = [] := fun _ => rfl
    rw [hns, declaredNames_append, declaredNames_append, hinner, hframe, hframe, nil_append, append_nil]
    refine ⟨rfl, fun l hl => ?_⟩
    simp only [mem_append, mem_singleton, mem_map] at hl
    rcases hl with (rfl | ⟨n, _, rfl⟩) | rfl <;> rfl
  next hshort =>
    obtain ⟨ns, hns, h⟩ := of_bind h
    cases h
    have hall : p.2.take packageLimit = p.2 := by
      refine take_of_length_le ?_
      rcases hp : p.2 with _ | ⟨a, _ | ⟨b, cs⟩⟩
      · exact Nat.zero_le _
      · simp [packageLimit]
      · exact absurd hp (hshort a b cs)
    rw [hall, hns, hnames]
    refine ⟨rfl, fun l hl => ?_⟩
    obtain ⟨n, _, rfl⟩ := mem_map.mp hl
    rfl

theorem mem_declaredNames_iff {drawn : List (List Line)} (h : ps.mapM packageLines = .ok drawn) :
    name ∈ declaredNames drawn.flatten ↔ ∃ c ∈ ps.drawn, nameOf c = .ok name := by
  simp only [declaredNames, Packages.drawn, mem_filterMap, mem_flatten, mem_flatMap]
  constructor
  · rintro ⟨l, ⟨own, hown, hl⟩, hname⟩
    obtain ⟨p, hp, hlines⟩ := mem_of_mapM h hown
    obtain ⟨c, hc, hnamed⟩ := mem_of_mapM (packageLines_ok hlines).1 (mem_declaredNames hl hname)
    exact ⟨c, ⟨p, hp, hc⟩, hnamed⟩
  · rintro ⟨c, ⟨p, hp, hc⟩, hnamed⟩
    obtain ⟨own, hown, hlines⟩ := Loose.exists_of_mapM h hp
    obtain ⟨n, hn, hread⟩ := Loose.exists_of_mapM (packageLines_ok hlines).1 hc
    cases hnamed.symm.trans hread
    obtain ⟨l, hl, hname⟩ := mem_filterMap.mp hn
    exact ⟨l, ⟨own, hown, hl⟩, hname⟩

/-- The two ends of a relation that is drawn. -/
def Joins (r source target : Value) : Prop :=
  r.get "from" = .ok source ∧ r.get "to" = .ok target ∧ source.truthy = true ∧ target.truthy = true

theorem relationLine_ok {r : Value} {line? : Option Line} (h : relationLine? r = .ok line?) :
    (∀ l ∈ line?, l.declared? = none ∧ ∃ source target, Joins r source target ∧
    l.ends = [source.display, target.display]) ∧
      ∀ source target, Joins r source target → ∃ l ∈ line?, l.ends = [source.display, target.display] := by
  obtain ⟨source, hsource, h⟩ := of_bind h
  obtain ⟨target, htarget, h⟩ := of_bind h
  split at h
  next hboth =>
    obtain ⟨kind, _, h⟩ := of_bind h
    cases h
    rw [Bool.and_eq_true] at hboth
    refine ⟨fun l hl => ?_, fun s t hjoins => ?_⟩
    · cases hl
      exact ⟨rfl, source, target, ⟨hsource, htarget, hboth⟩, rfl⟩
    · cases hsource.symm.trans hjoins.1
      cases htarget.symm.trans hjoins.2.1
      exact ⟨_, rfl, rfl⟩
  next hnone =>
    cases h
    refine ⟨fun l hl => (by cases hl), fun s t hjoins => absurd ?_ hnone⟩
    cases hsource.symm.trans hjoins.1
    cases htarget.symm.trans hjoins.2.1
    rw [Bool.and_eq_true]
    exact hjoins.2.2

/-- **The arrows of a component diagram join declared components if and only if the ends of the first relations are
classes that are drawn.** -/
theorem declaredBeforeUse_lines_iff (style : Style) (schema : Value) {relations : List Value}
    (hclasses : Schema.classes schema = .ok classes) (hne : classes ≠ [])
    (hrelations : schema.firstOf ["relations"] (.list []) = .ok (.list relations))
    (h : lines style schema = .ok ls) : DeclaredBeforeUse ls ↔ ∀ r ∈ relations.take relationLimit, ∀ source target,
      Joins r source target → ∀ name ∈ [source.display, target.display], ∃ c, IsDrawn classes c ∧
      nameOf c = .ok name := by
  rw [lines, hclasses, Loose.ok_bind, hrelations, Loose.ok_bind] at h
  obtain ⟨_, _, h⟩ := of_bind h
  simp only [isEmpty_eq_false_iff.mpr hne, Bool.not_false, if_true] at h
  obtain ⟨body, hbody, h⟩ := of_bind h
  cases h
  obtain ⟨ps, hps, hbody⟩ := of_bind hbody
  obtain ⟨drawn, hdrawn, hbody⟩ := of_bind hbody
  obtain ⟨_, hfirst, hbody⟩ := of_bind hbody
  cases hfirst
  obtain ⟨_, hitems, hbody⟩ := of_bind hbody
  cases hitems
  obtain ⟨arrows, harrows, hbody⟩ := of_bind hbody
  cases hbody
  have hends : ∀ l ∈ style.opening ++ [.plain "' Component Diagram", .empty] ++ drawn.flatten ++ [.empty],
      l.ends = [] := by
    intro l hl
    simp only [Style.opening, mem_append, mem_cons, not_mem_nil, or_false] at hl
    rcases hl with (((rfl | rfl) | rfl | rfl) | hl) | rfl
    · rfl
    · rfl
    · rfl
    · rfl
    · obtain ⟨own, hown, hl⟩ := mem_flatten.mp hl
      obtain ⟨p, _, hlines⟩ := mem_of_mapM hdrawn hown
      exact (packageLines_ok hlines).2 l hl
    · rfl
  have hdeclared :
      declaredNames (style.opening ++ [.plain "' Component Diagram", .empty] ++ drawn.flatten ++ [.empty]) =
      declaredNames drawn.flatten := by
    simp only [declaredNames_append]
    exact append_nil _
  have hread : ∀ l ∈ arrows.filterMap id, ∃ r ∈ relations.take relationLimit, relationLine? r = .ok (some l) := by
    intro l hl
    obtain ⟨line?, hline, rfl⟩ := mem_filterMap.mp hl
    exact mem_of_mapM harrows hline
  have hshape : style.opening ++ [.plain "' Component Diagram", .empty] ++
      (drawn.flatten ++ [.empty] ++ arrows.filterMap id) ++ [.close] =
      (style.opening ++ [.plain "' Component Diagram", .empty] ++ drawn.flatten ++ [.empty]) ++
        (arrows.filterMap id ++ [.close]) := by
    simp only [append_assoc]
  rw [hshape, declaredBeforeUse_iff, isScoped_declarations_iff hends, hdeclared]
  · constructor
    · intro hjoined r hr source target hjoins name hname
      obtain ⟨line?, hmem, hline⟩ := Loose.exists_of_mapM harrows hr
      obtain ⟨l, hl, hlends⟩ := (relationLine_ok hline).2 source target hjoins
      have harrow : l ∈ arrows.filterMap id := mem_filterMap.mpr ⟨line?, hmem, hl⟩
      obtain ⟨c, hc, hnamed⟩ :=
        (mem_declaredNames_iff hdrawn).mp (hjoined l (mem_append_left _ harrow) (hlends ▸ hname))
      exact ⟨c, ((packages_ok hps).2 c).mp hc, hnamed⟩
    · intro hall l hl name hname
      rcases mem_append.mp hl with hl | hl
      · obtain ⟨r, hr, hline⟩ := hread l hl
        obtain ⟨_, source, target, hjoins, hlends⟩ := (relationLine_ok hline).1 l rfl
        obtain ⟨c, hc, hnamed⟩ := hall r hr source target hjoins name (hlends ▸ hname)
        exact (mem_declaredNames_iff hdrawn).mpr ⟨c, ((packages_ok hps).2 c).mpr hc, hnamed⟩
      · cases mem_singleton.mp hl
        cases hname
  · intro l hl
    rcases mem_append.mp hl with hl | hl
    · obtain ⟨r, _, hline⟩ := hread l hl
      exact ((relationLine_ok hline).1 l rfl).1
    · cases mem_singleton.mp hl
      rfl

def sixClasses : List Value := ["A", "B", "C", "D", "E", "F"].map fun n => .ofFields [("class", .text n)]

def sixSchema (target : String) : Value :=
  .ofFields [("python", .list sixClasses), ("relations", .list [.ofFields [("from", .text "A"), ("to", .text target)]])]

theorem eq_of_joins_six {source target : Value} {name : String}
    (h : Joins (.ofFields [("from", .text "A"), ("to", .text name)]) source target) :
    source = .text "A" ∧ target = .text name := ⟨(Except.ok.inj h.1).symm, (Except.ok.inj h.2.1).symm⟩

/-- The fifth class is drawn. -/
theorem declaredBeforeUse_lines_iff_fifth : ∃ ls, lines {} (sixSchema "E") = .ok ls ∧
    .joins "A" " --> " "E" " : uses" ∈ ls ∧ DeclaredBeforeUse ls := by
  have hclasses : Schema.classes (sixSchema "E") = .ok sixClasses := rfl
  refine ⟨_, rfl, by decide, (declaredBeforeUse_lines_iff {} _ hclasses (by simp [sixClasses]) rfl rfl).mpr ?_⟩
  intro r hr source target hjoins name hname
  cases mem_singleton.mp hr
  obtain ⟨rfl, rfl⟩ := eq_of_joins_six hjoins
  simp only [mem_cons, not_mem_nil, or_false] at hname
  rcases hname with rfl | rfl
  · exact ⟨_, ⟨[], _, .text "Default", rfl, rfl, by decide⟩, rfl⟩
  · exact ⟨_, ⟨sixClasses.take 4, _, .text "Default", rfl, rfl, by decide⟩, rfl⟩

/-- The sixth class is listed and not drawn, but an arrow to it is. -/
theorem declaredBeforeUse_lost_sixth : Schema.classes (sixSchema "F") = .ok sixClasses ∧
    (∀ r ∈ (sixSchema "F").listAt "relations", ∀ source target, Joins r source target →
      ∀ name ∈ [source.display, target.display], ∃ c ∈ sixClasses, nameOf c = .ok name) ∧
    ∃ ls, lines {} (sixSchema "F") = .ok ls ∧ ¬ DeclaredBeforeUse ls := by
  refine ⟨rfl, fun r hr source target hjoins name hname => ?_, _, rfl, ?_⟩
  · cases mem_singleton.mp hr
    obtain ⟨rfl, rfl⟩ := eq_of_joins_six hjoins
    simp only [mem_cons, not_mem_nil, or_false] at hname
    rcases hname with rfl | rfl
    · exact ⟨.ofFields [("class", .text "A")], by simp [sixClasses], rfl⟩
    · exact ⟨.ofFields [("class", .text "F")], by simp [sixClasses], rfl⟩
  · rw [declaredBeforeUse_iff]
    decide

end CodeAtlas.Component
