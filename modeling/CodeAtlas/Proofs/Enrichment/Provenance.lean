import CodeAtlas.Proofs.Enrichment.Assembly
import CodeAtlas.Proofs.Enrichment.Classes
import CodeAtlas.Proofs.Value.Firsts

/-!
# Where the relations of a merged schema come from

The relations of the first schema are taken as they are, those of the second only between classes that the merged schema
lists.  Both get a source, and of relations with the same ends, type and source the first one stays.

* **`Merge.schemas_relations`**: where each relation of a merged schema comes from, and in what order they stand.
-/

namespace CodeAtlas

open List Value

open Loose (of_bind ok_bind mapM_ok)

namespace Schema

def relationKeys : List String := ["from", "to", "type", "source"]

/-- Whether a value is a relation: its ends, its type and its source are texts, as far as they are there. -/
def isRelation (r : Value) : Bool := r.isRecord && relationKeys.all fun k => (r.part k).isTextOrNull

theorem isRelation_iff {r : Value} :
    isRelation r ↔ r.isRecord ∧ ∀ k ∈ relationKeys, (r.part k).isTextOrNull := by
  rw [isRelation, Bool.and_eq_true, all_eq_true]

end Schema

namespace Merge

open Schema (isRelation relationKeys isRelation_iff)

variable {known : List Atom} {ast ai r : Value}

def isWhole (r : Value) : Bool := ["from", "to", "type"].all (r.textAt · != "")

def sourceOf (source : String) (r : Value) : String := if r.textAt "source" = "" then source else r.textAt "source"

def sourced (source : String) : Value → Value
  | .record fs => .record (Record.put (.text "source") (.text (sourceOf source (.record fs))) fs)
  | v => v

def identity (r : Value) : List String := relationKeys.map r.textAt

def joinsKnown (known : List Atom) (r : Value) : Bool := ["from", "to"].all fun k => (Atom.text (r.textAt k)).isIn known

/-! ### One relation -/

theorem isComplete_eq (h : isRelation r) : isComplete r = .ok (isWhole r) := by
  obtain ⟨hrecord, hparts⟩ := isRelation_iff.mp h
  cases htruthy : r.truthy with
  | false =>
    -- A record that does not count as present is the empty one.
    match r, hrecord, htruthy with
    | .record [], _, _ => rfl
  | true =>
    have hget : ∀ k ∈ relationKeys, (r.part k).truthy = (r.textAt k != "") := fun k hk => truthy_part (hparts k hk)
    simp only [isComplete, htruthy, get_eq_part hrecord, ok_bind, hget "from" (by decide),
      hget "to" (by decide), hget "type" (by decide), isWhole, all_cons, all_nil, Bool.and_true, Bool.and_assoc]
    rfl

theorem tagged_eq (h : isRelation r) (source : String) : tagged source r = .ok (sourced source r) := by
  obtain ⟨hrecord, hparts⟩ := isRelation_iff.mp h
  match r, hrecord with
  | .record fs, hrecord =>
    unfold tagged
    rw [get_eq_part hrecord]
    show Except.ok (Value.record (Record.put _ ((Value.part _ "source").orText source) fs)) = _
    rw [orText_part (hparts "source" (by decide))]
    rfl

theorem isAmong_eq (h : isRelation r) (hwhole : isWhole r) :
    isAmong known r = .ok (joinsKnown known r) := by
  obtain ⟨hrecord, hparts⟩ := isRelation_iff.mp h
  simp only [isWhole, all_cons, all_nil, Bool.and_true, Bool.and_eq_true, bne_iff_ne] at hwhole
  have hkey : ∀ k ∈ relationKeys, r.textAt k ≠ "" → (r.part k).key = .ok (.text (r.textAt k)) := by
    intro k hk hne
    rw [part_eq_text (hparts k hk) hne]
    rfl
  unfold isAmong joinsKnown
  rw [get_eq_part hrecord, ok_bind, hkey "from" (by decide) hwhole.1, ok_bind,
    get_eq_part hrecord, ok_bind, hkey "to" (by decide) hwhole.2.1, ok_bind]
  cases hfrom : (Atom.text (r.textAt "from")).isIn known with
  | _ => simp [hfrom, pure, Except.pure]

theorem relationKey_eq (h : isRelation r) (hfull : ∀ k ∈ relationKeys, r.textAt k ≠ "") :
    relationKey r = .ok ((identity r).map .text) := by
  obtain ⟨hrecord, hparts⟩ := isRelation_iff.mp h
  rw [identity, map_map]
  apply mapM_ok
  intro k hk
  rw [get_eq_part hrecord, ok_bind, part_eq_text (hparts k hk) (hfull k hk)]
  rfl

/-! ### Sources -/

theorem field?_sourced (h : r.isRecord) (source key : String) :
    (sourced source r).field? key = if "source" = key then some (.text (sourceOf source r)) else r.field? key := by
  match r, h with
  | .record fs, _ => exact Record.get?_put_text "source" key _ fs

theorem textAt_sourced (h : r.isRecord) (source : String) {key : String} (hkey : "source" ≠ key) :
    (sourced source r).textAt key = r.textAt key := by
  rw [textAt, Value.part, field?_sourced h, if_neg hkey]
  rfl

theorem textAt_sourced_source (h : r.isRecord) (source : String) :
    (sourced source r).textAt "source" = sourceOf source r := by
  apply textAt_of_field?
  rw [field?_sourced h, if_pos rfl]

theorem isRelation_sourced (h : isRelation r) (source : String) : isRelation (sourced source r) := by
  obtain ⟨hrecord, hparts⟩ := isRelation_iff.mp h
  refine isRelation_iff.mpr ⟨?_, ?_⟩
  · match r, hrecord with
    | .record fs, _ => rfl
  · intro k hk
    rw [Value.part, field?_sourced hrecord]
    split
    · rfl
    · exact hparts k hk

/-- A relation with both its ends, a type and a source. -/
structure IsFull (r : Value) : Prop where
  isRelation : Schema.isRelation r = true
  ne_empty : ∀ k ∈ relationKeys, r.textAt k ≠ ""

theorem isFull_sourced (h : isRelation r) (hwhole : isWhole r) {source : String} (hsource : source ≠ "") :
    IsFull (sourced source r) := by
  have hrecord := (isRelation_iff.mp h).1
  refine ⟨isRelation_sourced h source, ?_⟩
  intro k hk
  by_cases hkey : "source" = k
  · subst hkey
    rw [textAt_sourced_source hrecord, sourceOf]
    split
    · exact hsource
    next hne => exact hne
  · rw [textAt_sourced hrecord source hkey]
    simp only [isWhole, all_eq_true, bne_iff_ne] at hwhole
    refine hwhole k ?_
    simp only [relationKeys, mem_cons, not_mem_nil, or_false] at hk ⊢
    obtain rfl | rfl | rfl | rfl := hk
    · exact .inl rfl
    · exact .inr (.inl rfl)
    · exact .inr (.inr rfl)
    · exact absurd rfl hkey

/-! ### Lists of relations -/

theorem sameKey_texts_iff {ss ts : List String} :
    sameKey (ss.map Atom.text) (ts.map Atom.text) ↔ ts = ss := by
  induction ss generalizing ts with
  | nil => cases ts <;> simp [sameKey]
  | cons s ss ih =>
    cases ts with
    | nil => simp [sameKey]
    | cons t ts =>
      have hcons : sameKey ((s :: ss).map Atom.text) ((t :: ts).map Atom.text) =
          ((Atom.text s).same (.text t) && sameKey (ss.map .text) (ts.map .text)) := by
        simp [sameKey, Bool.and_left_comm]
      rw [hcons, Bool.and_eq_true, ih, Atom.same_text_iff, List.cons.injEq, Atom.text.injEq]
      exact and_congr_left fun _ => eq_comm

variable {rs es fs : List Value}

theorem distinctFrom_eq (h : ∀ r ∈ rs, IsFull r) (seen : List (List String)) :
    distinctFrom (seen.map (·.map .text)) rs = .ok (firstsFrom identity (· == ·) seen rs) := by
  induction rs generalizing seen with
  | nil => rfl
  | cons r rs ih =>
    have hr := h r mem_cons_self
    have hrest : ∀ r ∈ rs, IsFull r := fun r hr => h r (mem_cons_of_mem _ hr)
    have hmet : (seen.map (·.map Atom.text)).any (sameKey ((identity r).map .text)) = seen.any (· == identity r) := by
      rw [any_map]
      refine congrArg seen.any (funext fun s => ?_)
      rw [Bool.eq_iff_iff, Function.comp_apply, sameKey_texts_iff, beq_iff_eq]
    rw [distinctFrom, relationKey_eq hr.isRelation hr.ne_empty, ok_bind, hmet]
    cases hseen : seen.any (· == identity r) with
    | true =>
      rw [firstsFrom_cons_met hseen]
      exact ih hrest seen
    | false =>
      rw [firstsFrom_cons_new hseen]
      show (distinctFrom ((identity r :: seen).map (·.map .text)) rs >>= fun rest => pure (r :: rest)) = _
      rw [ih hrest]
      rfl

def given (rs : List Value) : List Value := (rs.filter isWhole).map (sourced "heuristic")

/-- The relations that are taken between known classes. -/
def suggested (known : List Atom) (rs : List Value) : List Value :=
  (rs.filter fun r => isWhole r && joinsKnown known r).map (sourced "ai")

/-- A relation comes from one of a list, with a source that it is given unless it has its own. -/
def ComesFrom (source : String) (rs : List Value) (r : Value) : Prop :=
  ∃ a ∈ rs, isWhole a = true ∧ r = sourced source a

theorem ComesFrom.isFull {source : String} (h : ComesFrom source rs r)
    (hrs : ∀ r ∈ rs, isRelation r) (hsource : source ≠ "") : IsFull r := by
  obtain ⟨a, hmem, hwhole, rfl⟩ := h
  exact isFull_sourced (hrs a hmem) hwhole hsource

theorem mem_given : r ∈ given rs ↔ ComesFrom "heuristic" rs r := by
  simp only [given, ComesFrom, mem_map, mem_filter, and_assoc, eq_comm]

theorem comesFrom_of_mem_suggested (h : r ∈ suggested known rs) : ComesFrom "ai" rs r := by
  obtain ⟨a, ha, rfl⟩ := mem_map.mp h
  obtain ⟨hmem, hkept⟩ := mem_filter.mp ha
  exact ⟨a, hmem, ((Bool.and_eq_true _ _).mp hkept).1, rfl⟩

theorem mem_known_of_mem_suggested (hrs : ∀ r ∈ rs, isRelation r) (h : r ∈ suggested known rs)
    {k : String} (hk : k ∈ ["from", "to"]) : .text (r.textAt k) ∈ known := by
  obtain ⟨a, ha, rfl⟩ := mem_map.mp h
  obtain ⟨hmem, hkept⟩ := mem_filter.mp ha
  have hknown := all_eq_true.mp ((Bool.and_eq_true _ _).mp hkept).2 k hk
  have hkey : "source" ≠ k := by
    rintro rfl
    exact absurd hk (by decide)
  rw [textAt_sourced (isRelation_iff.mp (hrs a hmem)).1 _ hkey]
  exact Atom.isIn_text_iff.mp hknown

theorem isFull_of_mem (hes : ∀ r ∈ es, isRelation r) (hfs : ∀ r ∈ fs, isRelation r)
    (h : r ∈ given es ++ suggested known fs) : IsFull r := by
  rcases mem_append.mp h with h | h
  · exact (mem_given.mp h).isFull hes (by decide)
  · exact (comesFrom_of_mem_suggested h).isFull hfs (by decide)

theorem entries_of_relations (h : relations known ast ai = .ok rs) :
    (listIn ast "relations" >>= items) = .ok (entries ast "relations") ∧
      (listIn ai "relations" >>= items) = .ok (entries ai "relations") := by
  obtain ⟨v, hv, h⟩ := of_bind h
  obtain ⟨es, hes, h⟩ := of_bind h
  obtain ⟨_, _, h⟩ := of_bind h
  obtain ⟨_, _, h⟩ := of_bind h
  obtain ⟨w, hw, h⟩ := of_bind h
  obtain ⟨fs, hfs, h⟩ := of_bind h
  rw [entries_eq hv hes, entries_eq hw hfs, hv, hw]
  exact ⟨hes, hfs⟩

theorem relations_eq (hast : (listIn ast "relations" >>= items) = .ok es)
    (hai : (listIn ai "relations" >>= items) = .ok fs) (hes : ∀ r ∈ es, isRelation r)
    (hfs : ∀ r ∈ fs, isRelation r) :
    relations known ast ai = .ok (firsts identity (· == ·) (given es ++ suggested known fs)) := by
  obtain ⟨v, hv, hv'⟩ := of_bind hast
  obtain ⟨w, hw, hw'⟩ := of_bind hai
  have hkept : ∀ r ∈ fs, (do if ← isComplete r then isAmong known r else return false : Loose Bool) =
      .ok (isWhole r && joinsKnown known r) := by
    intro r hr
    rw [isComplete_eq (hfs r hr), ok_bind]
    cases hwhole : isWhole r with
    | true => rw [if_pos rfl, isAmong_eq (hfs r hr) hwhole, Bool.true_and]
    | false => rfl
  have hfirst : (es.filter isWhole).mapM (tagged "heuristic") = .ok (given es) :=
    mapM_ok fun r hr => tagged_eq (hes r (mem_filter.mp hr).1) _
  have hsecond : (fs.filter fun r => isWhole r && joinsKnown known r).mapM (tagged "ai") = .ok (suggested known fs) :=
    mapM_ok fun r hr => tagged_eq (hfs r (mem_filter.mp hr).1) _
  unfold relations
  rw [hv, ok_bind, hv', ok_bind, Loose.filterM_ok fun r hr => isComplete_eq (hes r hr), ok_bind, hfirst,
    ok_bind, hw, ok_bind, hw', ok_bind, Loose.filterM_ok hkept, ok_bind, hsecond, ok_bind]
  exact distinctFrom_eq (fun r hr => isFull_of_mem hes hfs hr) []

theorem Parts.IsOf.lists_of_mem_namesOf {p : Parts} (h : p.IsOf ast ai) {n : String} (hn : .text n ∈ namesOf p.groups) :
    ∃ l ∈ languages, Schema.Lists p.toSchema l n := by
  obtain ⟨c, hc, hname⟩ := mem_map.mp hn
  obtain ⟨g, hg, hc⟩ := mem_flatMap.mp hc
  obtain ⟨l, hl, hg⟩ := Loose.mem_of_mapM h.groups hg
  obtain ⟨cs, hcs, hg⟩ := of_bind hg
  cases Loose.of_pure hg
  obtain ⟨cs', vs, hcs', _, hvs, hfield⟩ := h.exists_sums hl
  cases hcs.symm.trans hcs'
  obtain ⟨v, hv, hentry⟩ := Loose.exists_of_mapM hvs hc
  refine ⟨l, hl, vs, ?_, v, hv, ?_⟩
  · rw [get_eq_part (v := p.toSchema) rfl, part_of_field? hfield]
  · rw [ClassSum.get_class_of_toEntry hentry, hname]
    rfl

/-! ### The relations of a merged schema -/

/-- Where the relations of a merged schema come from: some from the first schema, then others from the second only. -/
structure Provenance (ast ai m : Value) (first second : List Value) : Prop where
  /-- Each relation of the first schema with both its ends and a type is there. -/
  kept : ∀ a ∈ entries ast "relations", isWhole a = true → ∃ r ∈ first, r.textAt "from" = a.textAt "from" ∧
    r.textAt "to" = a.textAt "to" ∧ r.textAt "type" = a.textAt "type" ∧ r.textAt "source" = sourceOf "heuristic" a
  /-- The relations that stand first come from the first schema. -/
  first_from : ∀ r ∈ first, ComesFrom "heuristic" (entries ast "relations") r
  /-- The others come from the second schema and not from the first. -/
  second_from : ∀ r ∈ second, ComesFrom "ai" (entries ai "relations") r ∧
    ¬ ComesFrom "heuristic" (entries ast "relations") r
  /-- They are between classes that the merged schema lists. -/
  second_known : ∀ r ∈ second, ∀ k ∈ ["from", "to"], ∃ l ∈ languages, Schema.Lists m l (r.textAt k)
  /-- No two relations have the same ends, type and source. -/
  distinct : (first ++ second).Pairwise fun r s => identity r ≠ identity s

theorem identity_sourced {a : Value} {source : String} (hr : identity r = identity (sourced source a))
    (ha : a.isRecord) : r.textAt "from" = a.textAt "from" ∧ r.textAt "to" = a.textAt "to" ∧
      r.textAt "type" = a.textAt "type" ∧ r.textAt "source" = sourceOf source a := by
  simp only [identity, relationKeys, map_cons, map_nil, List.cons.injEq, and_true] at hr
  obtain ⟨hfrom, hto, htype, hsource⟩ := hr
  rw [hfrom, hto, htype, hsource, textAt_sourced ha source (by decide), textAt_sourced ha source (by decide),
    textAt_sourced ha source (by decide), textAt_sourced_source ha]
  exact ⟨rfl, rfl, rfl, rfl⟩

/-- **The relations of a merged schema.**  Let the ends, types and sources of the relations of both schemas be texts, as
far as they are there.  Then the relations of the merged schema are those of the first schema, followed by
others of the second one between classes that the merged schema lists; none of the first is lost, and no two are the
same. -/
theorem schemas_relations (ast ai m : Value) (hast : ∀ r ∈ entries ast "relations", isRelation r = true)
    (hai : ∀ r ∈ entries ai "relations", isRelation r = true) (h : schemas ast ai = .ok m) :
    ∃ first second, m.field? "relations" = some (.list (first ++ second)) ∧ Provenance ast ai m first second := by
  obtain ⟨p, hp, rfl⟩ := schemas_ok_iff.mp h
  obtain ⟨hes, hfs⟩ := entries_of_relations hp.relations
  have hrelations := Except.ok.inj (hp.relations.symm.trans (relations_eq hes hfs hast hai))
  obtain ⟨second, happend, hsub, hnew⟩ := firsts_append identity (· == ·) (given (entries ast "relations"))
    (suggested (namesOf p.groups) (entries ai "relations"))
  have hfirst : ∀ a ∈ entries ast "relations", isWhole a = true →
      ∃ r ∈ firsts identity (· == ·) (given (entries ast "relations")), identity r =
        identity (sourced "heuristic" a) := by
    intro a ha hwhole
    obtain ⟨r, hr, hsame⟩ := exists_mem_firsts (beq_self_eq_true (identity _))
      (mem_given.mpr ⟨a, ha, hwhole, rfl⟩)
    exact ⟨r, hr, beq_iff_eq.mp hsame⟩
  refine ⟨_, second, by rw [hp.field?_relations, hrelations, happend], ?_, ?_, ?_, ?_, ?_⟩
  · intro a ha hwhole
    obtain ⟨r, hr, hsame⟩ := hfirst a ha hwhole
    exact ⟨r, hr, identity_sourced hsame (isRelation_iff.mp (hast a ha)).1⟩
  · intro r hr
    exact mem_given.mp (mem_of_mem_firsts hr)
  · intro r hr
    refine ⟨comesFrom_of_mem_suggested (hsub.subset hr), ?_⟩
    -- A relation of the first schema has the identity of one that stands first.
    rintro ⟨a, ha, hwhole, rfl⟩
    obtain ⟨s, hs, hsame⟩ := hfirst a ha hwhole
    exact beq_eq_false_iff_ne.mp (hnew _ hr s hs) hsame
  · intro r hr k hk
    exact hp.lists_of_mem_namesOf (mem_known_of_mem_suggested hai (hsub.subset hr) hk)
  · rw [← happend]
    exact firsts_pairwise.imp fun hne => beq_eq_false_iff_ne.mp hne

/-- Two classes with a relation that has no source, and one without a type. -/
def basket : Value := .ofFields [
  ("java", .list [.ofFields [("class", .text "Order")], .ofFields [("class", .text "Item")]]),
  ("relations", .list [
    .ofFields [("from", .text "Order"), ("to", .text "Item"), ("type", .text "uses")],
    .ofFields [("from", .text "Item"), ("to", .text "Order")],
    .ofFields [("from", .text "Order"), ("to", .text "Base"), ("type", .text "extends"), ("source", .text "ast")]])]

/-- The first relation once more and under another source, a new one, and one with an end that nobody knows. -/
def guesses : Value := .ofFields [("relations", .list [
  .ofFields [("from", .text "Order"), ("to", .text "Item"), ("type", .text "uses"), ("source", .text "heuristic")],
  .ofFields [("from", .text "Order"), ("to", .text "Item"), ("type", .text "uses")],
  .ofFields [("from", .text "Item"), ("to", .text "Order"), ("type", .text "uses")],
  .ofFields [("from", .text "Item"), ("to", .text "Base"), ("type", .text "uses")]])]

theorem schemas_relations_basket :
    (∀ r ∈ entries basket "relations", isRelation r = true) ∧ (∀ r ∈ entries guesses "relations", isRelation r = true) ∧
      ∃ m, schemas basket guesses = .ok m ∧ ∃ first second,
        m.field? "relations" = some (.list (first ++ second)) ∧ Provenance basket guesses m first second := by
  have hast : ∀ r ∈ entries basket "relations", isRelation r = true := by decide
  have hai : ∀ r ∈ entries guesses "relations", isRelation r = true := by decide
  obtain ⟨m, hm⟩ : ∃ m, schemas basket guesses = .ok m := by
    cbv
    exact ⟨_, rfl⟩
  exact ⟨hast, hai, m, hm, schemas_relations basket guesses m hast hai hm⟩

end Merge

end CodeAtlas
