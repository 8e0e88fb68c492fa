import CodeAtlas.Proofs.Drafting.Recall
import CodeAtlas.Proofs.Value.ReadBack

/-!
# Drafts in a cache of files

A call that drafts a diagram touches no entry of the cache but the one under its own key, and that one only to fill it.
What a later call returns under a key is therefore settled by the first result that was returned under it, whatever the
calls in between are, and the entries are read back from their files as they were written.

* **`Draft.answerAfter_coherent`**: all of it together.
-/

namespace CodeAtlas

open List

namespace DraftCache

/-- A cache as it is read from its files: each result is written as a document, and the document is read. -/
def reread (cache : DraftCache) : DraftCache :=
  cache.map fun e => (e.1, e.2.bind fun v => (Json.parse (Json.write Json.pretty v)).toOption)

/-- All entries are results that can be read back. -/
def IsReadable (cache : DraftCache) : Prop := ∀ e ∈ cache, ∃ v, e.2 = some v ∧ Json.IsJson v

theorem IsReadable.put {cache : DraftCache} (h : cache.IsReadable) (key : String) {v : Value} (hv : Json.IsJson v) :
    IsReadable (DraftCache.put key v cache) := by
  induction cache with
  | nil =>
    intro e he
    rw [mem_singleton.mp he]
    exact ⟨v, rfl, hv⟩
  | cons f cache ih =>
    have hrest : IsReadable cache := fun e he => h e (mem_cons_of_mem f he)
    intro e he
    rw [DraftCache.put] at he
    split at he
    · rcases mem_cons.mp he with rfl | he
      · exact ⟨v, rfl, hv⟩
      · exact hrest e he
    · rcases mem_cons.mp he with rfl | he
      · exact h _ (mem_cons_self ..)
      · exact ih hrest e he

theorem reread_eq_self {cache : DraftCache} (h : cache.IsReadable) : cache.reread = cache := by
  have hentry : ∀ e ∈ cache, (e.1, e.2.bind fun v => (Json.parse (Json.write Json.pretty v)).toOption) = e := by
    rintro ⟨key, held⟩ he
    obtain ⟨v, rfl, hv⟩ := h _ he
    rw [Option.bind_some, Json.parse_write Json.isReadable_pretty hv]
    rfl
  exact (map_congr_left hentry).trans (map_id cache)

end DraftCache

namespace Draft

/-! ### Results are read back -/

theorem isJson_texts (ss : List String) : Json.IsJson (.texts ss) := by
  refine .list _ fun x hx => ?_
  obtain ⟨s, _, rfl⟩ := mem_map.mp hx
  exact .text s

variable (kind : DiagramKind) (format : String)

/-- A result can be read back when what it says beyond the diagram can. -/
theorem isJson_result (reply source : String) {more : List (String × Value)}
    (hkeys : (["diagram", "raw_diagram", "diagram_type", "format", "source"] ++ more.map (·.1)).Nodup)
    (hmore : ∀ f ∈ more, Json.IsJson f.2) : Json.IsJson (result kind format reply source more) := by
  refine .record _ (by simpa using hkeys) fun f hf => ?_
  rcases mem_append.mp hf with hf | hf
  · simp only [mem_cons, not_mem_nil, or_false] at hf
    rcases hf with rfl | rfl | rfl | rfl | rfl <;> exact .text _
  · exact hmore f hf

theorem isJson_standIn (source warning : String) : Json.IsJson (standIn kind format source warning []) := by
  refine isJson_result kind format _ source (by simp) fun f hf => ?_
  rw [mem_singleton.mp hf]
  exact isJson_texts [warning]

theorem isJson_standIn_error (source message : String) :
    Json.IsJson (standIn kind format source message [("error", .text message)]) := by
  refine isJson_result kind format _ source (by simp) fun f hf => ?_
  simp only [mem_cons, not_mem_nil, or_false] at hf
  rcases hf with rfl | rfl
  · exact isJson_texts [message]
  · exact .text message

theorem isJson_ofAnswer (answer : Except CallFailure Value) : Json.IsJson (ofAnswer kind format answer) := by
  unfold ofAnswer
  split
  · exact isJson_standIn ..
  · exact isJson_standIn_error ..
  · exact isJson_standIn_error ..
  · split
    · exact isJson_standIn_error ..
    · split
      · exact isJson_standIn_error ..
      · refine isJson_result kind format _ "groq" (by decide) fun f hf => ?_
        rw [mem_singleton.mp hf]
        exact .text _

/-! ### One call -/

namespace Call

variable {c : Call} {cache other : DraftCache} {key : String}

theorem cache_outcome (c : Call) (cache : DraftCache) : (c.outcome cache).cache = cache ∨
    ∃ key v, Json.IsJson v ∧ (c.outcome cache).cache = cache.put key v := by
  cases hq : query? c.request with
  | none => exact .inl (draft_of_no_query hq ..)
  | some q =>
    rw [outcome, draft_of_query hq]
    cases hmiss : (cache.get q.key).truthy with
    | true => exact .inl (congrArg DraftOutcome.cache (if_pos hmiss))
    | false =>
      cases hidle : (c.stub.isOn || !c.service.isReady) with
      | true =>
        obtain ⟨source, heq⟩ := Query.draftFresh_of_idle hmiss hidle
        rw [heq]
        exact .inr ⟨_, _, isJson_standIn .., rfl⟩
      | false =>
        rw [Query.draftFresh_of_asked hmiss hidle]
        split
        · exact .inl rfl
        · exact .inr ⟨_, _, isJson_ofAnswer .., rfl⟩

theorem cache_of_error {e : Fault} (h : (c.outcome cache).result = .error e) : (c.outcome cache).cache = cache := by
  cases hkey : c.key? with
  | none => exact draft_of_no_query (Option.map_eq_none_iff.mp hkey) ..
  | some key =>
    cases hmiss : (cache.get key).truthy with
    | true => rw [outcome_of_hit hkey hmiss]
    | false =>
      rcases outcome_of_miss hkey hmiss with ⟨v, _, hok, _⟩ | ⟨_, _, hcache⟩
      · cases h.symm.trans hok
      · exact hcache

theorem outcome_congr (hkey : c.key? = some key) (h : cache.get key = other.get key) :
    (c.outcome cache).result = (c.outcome other).result ∧
      (c.outcome cache).cache.get key = (c.outcome other).cache.get key := by
  obtain ⟨q, hq, rfl⟩ := Option.map_eq_some_iff.mp hkey
  rw [outcome, outcome, draft_of_query hq, draft_of_query hq]
  simp only [Query.key, Query.prompted] at h
  simp only [draftFresh, Query.key, Query.prompted, h]
  split
  · exact ⟨rfl, h⟩
  · split
    · exact ⟨rfl, by rw [DraftCache.get_put, DraftCache.get_put, if_pos rfl, if_pos rfl]⟩
    · split
      · exact ⟨rfl, h⟩
      · exact ⟨rfl, by rw [DraftCache.get_put, DraftCache.get_put, if_pos rfl, if_pos rfl]⟩

theorem get_outcome_congr (c : Call) (h : cache.get key = other.get key) :
    (c.outcome cache).cache.get key = (c.outcome other).cache.get key := by
  by_cases hkey : c.key? = some key
  · exact (outcome_congr hkey h).2
  · rw [outcome_of_other hkey, outcome_of_other hkey, h]

end Call

/-! ### A run of calls -/

theorem cacheAfter_append (before after : List Call) :
    cacheAfter (before ++ after) = after.foldl (fun cache c => (c.outcome cache).cache) (cacheAfter before) :=
  foldl_append

variable {key : String} {d : Call} (calls : List Call)

theorem get_foldl_congr {cache other : DraftCache} (h : cache.get key = other.get key) :
    (calls.foldl (fun cache c => (c.outcome cache).cache) cache).get key =
      (calls.foldl (fun cache c => (c.outcome cache).cache) other).get key := by
  induction calls generalizing cache other with
  | nil => exact h
  | cons c calls ih => exact ih (c.get_outcome_congr h)

/-- The calls that, made after some calls, leave the entry under a key alone. -/
inductive Spares (key : String) (before : List Call) (d : Call) : Prop where
  | other (k : String) (hkey : d.key? = some k) (hne : k ≠ key)
  | synthesized (goal : Value) (kind : DiagramKind) (format : String)
      (hsettle : settle d.request = .ok (goal, kind, format)) (hkind : isSynthesized kind = true)
  | failed (e : Fault) (herror : answerAfter before d = .error e)

theorem Spares.get_cacheAfter {before : List Call} (h : Spares key before d) :
    (cacheAfter (before ++ [d])).get key = (cacheAfter before).get key := by
  rw [cacheAfter_concat]
  cases h with
  | other k hkey hne => exact Call.outcome_of_other (by rw [hkey]; exact fun heq => hne (Option.some.inj heq))
  | synthesized goal kind format hsettle hkind =>
    have hquery : query? d.request = none := by simp [query?, hsettle, hkind]
    refine Call.outcome_of_other ?_
    rw [Call.key?, hquery]
    exact Option.some_ne_none key |>.symm
  | failed e herror => rw [Call.cache_of_error herror]

/-- **A call that leaves an entry alone changes no answer under its key**, wherever it stands in a run. -/
theorem answerAfter_insert {before : List Call} {c : Call} (hkey : c.key? = some key)
    (h : Spares key before d) (after : List Call) :
    answerAfter (before ++ d :: after) c = answerAfter (before ++ after) c := by
  refine (Call.outcome_congr hkey ?_).1
  have hsplit : before ++ d :: after = (before ++ [d]) ++ after := by simp
  rw [hsplit, cacheAfter_append (before ++ [d]), cacheAfter_append before after]
  exact get_foldl_congr after h.get_cacheAfter

theorem reread_cacheAfter : (cacheAfter calls).reread = cacheAfter calls := by
  refine DraftCache.reread_eq_self ?_
  induction calls using List.reverseRecOn with
  | nil => exact fun e he => nomatch he
  | append_singleton calls c ih =>
    rw [cacheAfter_concat]
    rcases c.cache_outcome (cacheAfter calls) with heq | ⟨key, v, hv, heq⟩
    · rw [heq]
      exact ih
    · rw [heq]
      exact ih.put key hv

theorem field?_relabelled {v : Value} {name : String} (h : name ≠ "source") :
    (relabelled v).field? name = v.field? name := by
  cases v with
  | record fs => exact (Record.get?_put_text "source" name _ fs).trans (if_neg (Ne.symm h))
  | _ => rfl

/-- **The cache is coherent.**  Take any run of calls and a call that is looked up under a key.  Once it has returned a
result, every later call under that key returns that result, from the cache: its source says so, and the rest is as it
was, whatever the service, the mode and the temperature are then.  Calls under other keys, calls whose diagram is drawn
from the schema and calls that fail change nothing in what a call under the key returns, wherever they stand.  And what
the files of the cache hold is read back as it was written. -/
theorem answerAfter_coherent (key : String) (before : List Call) (c : Call) (hkey : c.key? = some key) :
    (∀ w, answerAfter before c = .ok w → ∀ (between : List Call) (d : Call), d.key? = some key →
      answerAfter (before ++ c :: between) d = .ok (relabelled w) ∧
        (relabelled w).field? "source" = some (.text "local-cache") ∧
        ∀ name, name ≠ "source" → (relabelled w).field? name = w.field? name) ∧
      (∀ d after, Spares key before d → answerAfter (before ++ d :: after) c = answerAfter (before ++ after) c) ∧
      (cacheAfter before).reread = cacheAfter before := by
  refine ⟨fun w hw between d hd => ?_, fun d after h => answerAfter_insert hkey h after, reread_cacheAfter before⟩
  have hreturned : Returned key (before ++ c :: between) w := ⟨before, c, between, rfl, hkey, hw⟩
  exact ⟨answerAfter_of_returned hd hreturned, field?_source_of_returned hreturned, fun name => field?_relabelled⟩

def componentsOfOrder : Call := { recovered with request := { orderDiagram with kind := .text "component" } }

theorem spares_componentsOfOrder (key : String) (before : List Call) : Spares key before componentsOfOrder :=
  .synthesized (.text "Order") .component "plantuml" rfl rfl

theorem answerAfter_coherent_orders :
    failing.key? = some orderQuery.key ∧ recovered.key? = some orderQuery.key ∧
      Spares orderQuery.key [] componentsOfOrder ∧
      ∃ w, answerAfter [] failing = .ok w ∧
        (answerAfter [failing, componentsOfOrder] recovered = .ok (relabelled w) ∧
          (relabelled w).field? "source" = some (.text "local-cache") ∧
          ∀ name, name ≠ "source" → (relabelled w).field? name = w.field? name) ∧
        answerAfter [componentsOfOrder] failing = answerAfter [] failing := by
  obtain ⟨hlater, hspares, _⟩ := answerAfter_coherent orderQuery.key [] failing asks_orderQuery.key?
  exact ⟨asks_orderQuery.key?, asks_orderQuery.key?, spares_componentsOfOrder _ _, _,
    asks_orderQuery.outcome_of_miss rfl,
    hlater _ (asks_orderQuery.outcome_of_miss rfl) [componentsOfOrder] recovered asks_orderQuery.key?,
    hspares componentsOfOrder [] (spares_componentsOfOrder _ _)⟩

end Draft

end CodeAtlas
