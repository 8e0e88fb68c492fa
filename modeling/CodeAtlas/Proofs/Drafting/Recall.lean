import CodeAtlas.Drafting.Draft
import CodeAtlas.Proofs.Value.Fields
import Mathlib.Data.List.Induction

/-!
# Drafts that are given again

Calls that draft diagrams share a cache.  What a call returned under a key is given again by all later calls under that
key, also when it was a diagram that only stood in: a service that has recovered is not asked.

* **`Draft.answerAfter_drawn_iff`**: exactly when a call that can be answered by the service is.
-/

namespace CodeAtlas

namespace DraftCache

theorem get_cons (k other : String) (v : Option Value) (cache : DraftCache) :
    get ((k, v) :: cache) other = if k = other then v.getD .null else cache.get other := by
  by_cases hkey : k = other
  · subst hkey
    simp [get]
  · have hne : (other == k) = false := beq_eq_false_iff_ne.mpr (Ne.symm hkey)
    simp [get, List.lookup_cons, hne, hkey]

theorem get_put (cache : DraftCache) (key other : String) (v : Value) :
    (cache.put key v).get other = if key = other then v else cache.get other := by
  induction cache with
  | nil => exact get_cons key other (some v) []
  | cons e cache ih =>
    obtain ⟨k, w⟩ := e
    rw [put]
    by_cases hk : k = key
    · subst hk
      rw [if_pos (beq_self_eq_true k), get_cons, get_cons]
      split <;> rfl
    · rw [if_neg (by simpa using hk), get_cons, get_cons, ih]
      by_cases hother : k = other
      · subst hother
        rw [if_pos rfl, if_pos rfl, if_neg (Ne.symm hk)]
      · rw [if_neg hother, if_neg hother]

end DraftCache

namespace Draft

/-! ### What is asked for -/

def settle (r : Request) : Loose (Value × DiagramKind × String) := do
  let goal ← goalOf r
  let _ ← r.kind.lower
  let format ← Prompt.formatOf r.format
  return (goal, ← kindOf r.kind format, format)

/-- Whether diagrams of a kind are drawn from the schema. -/
def isSynthesized : DiagramKind → Bool
  | .component => true
  | .deployment => true
  | _ => false

structure Query where
  request : Request
  kind : DiagramKind
  format : String

namespace Query

def prompted (q : Query) : Prompt.Request :=
  { q.request.toRequest with kind := .text q.kind.name, format := .text q.format }

def key (q : Query) : String := cacheKey q.prompted

def drawn (q : Query) (reply : String) : Value :=
  result q.kind q.format reply "groq" [("model", .text Service.defaultModel)]

end Query

/-- What is looked up in the cache; nothing for a request that is refused, and for one that the schema answers. -/
def query? (r : Request) : Option Query :=
  match settle r with
  | .error _ => none
  | .ok (goal, kind, format) => if isSynthesized kind then none else some ⟨{ r with goal }, kind, format⟩

theorem draft_of_query {r : Request} {q : Query} (h : query? r = some q) (service : Service) (stub : StubMode)
    (cache : DraftCache) : draft service stub cache r = draftFresh service stub cache q.request q.kind q.format := by
  unfold query? at h
  show (match settle r with
    | .error e => _
    | .ok (goal, kind, format) => _) = _
  cases hsettle : settle r with
  | error e => simp [hsettle] at h
  | ok s =>
    obtain ⟨goal, kind, format⟩ := s
    simp only [hsettle] at h
    cases kind <;> simp [isSynthesized] at h <;> subst h <;> rfl

theorem draft_of_no_query {r : Request} (h : query? r = none) (service : Service) (stub : StubMode)
    (cache : DraftCache) : (draft service stub cache r).cache = cache := by
  unfold query? at h
  show (match settle r with
    | .error e => _
    | .ok (goal, kind, format) => _ : DraftOutcome).cache = _
  cases hsettle : settle r with
  | error e => rfl
  | ok s =>
    obtain ⟨goal, kind, format⟩ := s
    simp only [hsettle] at h
    cases kind <;> simp [isSynthesized] at h <;> rfl

namespace Query

variable {q : Query} {service : Service} {stub : StubMode} {cache : DraftCache}

theorem draftFresh_of_idle (hmiss : (cache.get q.key).truthy = false)
    (hidle : (stub.isOn || !service.isReady)) :
    ∃ source, draftFresh service stub cache q.request q.kind q.format =
      { result := .ok (standIn q.kind q.format source (skipWarning stub) []),
        cache := cache.put q.key (standIn q.kind q.format source (skipWarning stub) []) } :=
  ⟨_, (if_neg (Bool.eq_false_iff.mp hmiss)).trans (if_pos hidle)⟩

theorem draftFresh_of_asked (hmiss : (cache.get q.key).truthy = false)
    (hasked : (stub.isOn || !service.isReady) = false) :
    draftFresh service stub cache q.request q.kind q.format =
      match Prompt.text q.prompted with
      | .error e => { result := .error e, cache }
      | .ok prompt =>
        { result := .ok (ofAnswer q.kind q.format service.answer),
          cache := cache.put q.key (ofAnswer q.kind q.format service.answer),
          sent := [payload q.kind prompt q.request.temperature] } :=
  (if_neg (Bool.eq_false_iff.mp hmiss)).trans (if_neg (Bool.eq_false_iff.mp hasked))

end Query

/-! ### Results -/

/-- What is kept in the cache: a record with fields. -/
def IsResult (v : Value) : Prop := ∃ f fs, v = .record (f :: fs)

variable {v : Value} (kind : DiagramKind) (format : String)

theorem IsResult.truthy (h : IsResult v) : v.truthy := by
  obtain ⟨f, fs, rfl⟩ := h
  rfl

theorem isResult_result (reply source : String) (more : List (String × Value)) :
    IsResult (result kind format reply source more) := ⟨_, _, rfl⟩

theorem isResult_standIn (source warning : String) (more : List (String × Value)) :
    IsResult (standIn kind format source warning more) := isResult_result ..

theorem isResult_ofAnswer (answer : Except CallFailure Value) : IsResult (ofAnswer kind format answer) := by
  unfold ofAnswer
  split
  · exact isResult_standIn ..
  · exact isResult_standIn ..
  · exact isResult_standIn ..
  · split
    · exact isResult_standIn ..
    · split
      · exact isResult_standIn ..
      · exact isResult_result ..

def relabelled : Value → Value
  | .record fs => .record (Record.put (.text "source") (.text "local-cache") fs)
  | v => v

theorem recalled_eq (h : IsResult v) : recalled v = .ok (relabelled v) := by
  obtain ⟨f, fs, rfl⟩ := h
  rfl

theorem relabelled_relabelled (v : Value) : relabelled (relabelled v) = relabelled v := by
  cases v with
  | record fs => exact congrArg Value.record (Record.put_put_text ..)
  | _ => rfl

theorem field?_source_relabelled (h : IsResult v) : (relabelled v).field? "source" = some (.text "local-cache") := by
  obtain ⟨f, fs, rfl⟩ := h
  exact (Record.get?_put_text "source" "source" _ _).trans (if_pos rfl)

/-! ### One call -/

structure Call where
  service : Service
  stub : StubMode
  request : Request

namespace Call

def outcome (c : Call) (cache : DraftCache) : DraftOutcome := draft c.service c.stub cache c.request

def key? (c : Call) : Option String := (query? c.request).map Query.key

variable {c : Call} {cache : DraftCache} {key : String}

theorem outcome_of_hit (hkey : c.key? = some key) (h : (cache.get key).truthy) :
    c.outcome cache = { result := recalled (cache.get key), cache } := by
  obtain ⟨q, hq, rfl⟩ := Option.map_eq_some_iff.mp hkey
  rw [outcome, draft_of_query hq]
  exact if_pos h

theorem outcome_of_miss (hkey : c.key? = some key) (h : (cache.get key).truthy = false) :
    (∃ v, IsResult v ∧ (c.outcome cache).result = .ok v ∧ (c.outcome cache).cache = cache.put key v) ∨
      ∃ e, (c.outcome cache).result = .error e ∧ (c.outcome cache).cache = cache := by
  obtain ⟨q, hq, rfl⟩ := Option.map_eq_some_iff.mp hkey
  rw [outcome, draft_of_query hq]
  cases hidle : (c.stub.isOn || !c.service.isReady) with
  | true =>
    obtain ⟨source, heq⟩ := Query.draftFresh_of_idle h hidle
    rw [heq]
    exact .inl ⟨_, isResult_standIn .., rfl, rfl⟩
  | false =>
    rw [Query.draftFresh_of_asked h hidle]
    split
    · exact .inr ⟨_, rfl, rfl⟩
    · exact .inl ⟨_, isResult_ofAnswer .., rfl, rfl⟩

theorem outcome_of_other (hkey : c.key? ≠ some key) : (c.outcome cache).cache.get key = cache.get key := by
  cases hc : c.key? with
  | none => rw [outcome, draft_of_no_query (Option.map_eq_none_iff.mp hc)]
  | some other =>
    have hne : other ≠ key := fun heq => hkey (heq ▸ hc)
    cases htruthy : (cache.get other).truthy with
    | true => rw [outcome_of_hit hc htruthy]
    | false =>
      rcases outcome_of_miss hc htruthy with ⟨v, _, _, hcache⟩ | ⟨e, _, hcache⟩
      · rw [hcache, DraftCache.get_put, if_neg hne]
      · rw [hcache]

end Call

/-! ### A run of calls -/

def cacheAfter (calls : List Call) : DraftCache := calls.foldl (fun cache c => (c.outcome cache).cache) []

def answerAfter (calls : List Call) (c : Call) : Loose Value := (c.outcome (cacheAfter calls)).result

theorem cacheAfter_concat (calls : List Call) (c : Call) :
    cacheAfter (calls ++ [c]) = (c.outcome (cacheAfter calls)).cache := by
  rw [cacheAfter, List.foldl_append]
  rfl

/-- Some call of a run returned a result under a key. -/
def Returned (key : String) (calls : List Call) (v : Value) : Prop :=
  ∃ before c after, calls = before ++ c :: after ∧ c.key? = some key ∧ answerAfter before c = .ok v

variable {calls : List Call} {c : Call} {key : String} {w : Value} {q : Query}

theorem returned_concat {v : Value} :
    Returned key (calls ++ [c]) v ↔ Returned key calls v ∨ c.key? = some key ∧ answerAfter calls c = .ok v := by
  constructor
  · rintro ⟨before, b, after, heq, hkey, hv⟩
    rcases List.eq_nil_or_concat after with rfl | ⟨after, last, rfl⟩
    · obtain ⟨rfl, hlast⟩ := List.append_inj' heq rfl
      cases hlast
      exact .inr ⟨hkey, hv⟩
    · have hsplit : calls ++ [c] = (before ++ b :: after) ++ [last] := by simpa using heq
      obtain ⟨rfl, _⟩ := List.append_inj' hsplit rfl
      exact .inl ⟨before, b, after, rfl, hkey, hv⟩
  · rintro (⟨before, b, after, rfl, hkey, hv⟩ | ⟨hkey, hv⟩)
    · exact ⟨before, b, after ++ [c], by simp, hkey, hv⟩
    · exact ⟨calls, c, [], rfl, hkey, hv⟩

/-- What a run leaves in the cache under a key: nothing if no call under it returned a result, and else the first one,
of which the others are repetitions. -/
theorem get_cacheAfter (key : String) (calls : List Call) :
    ((cacheAfter calls).get key = .null ∧ ∀ w, ¬ Returned key calls w) ∨
      (IsResult ((cacheAfter calls).get key) ∧ (∃ w, Returned key calls w) ∧
        ∀ w, Returned key calls w → relabelled w = relabelled ((cacheAfter calls).get key)) := by
  induction calls using List.reverseRecOn with
  | nil =>
    refine .inl ⟨rfl, ?_⟩
    rintro w ⟨before, c, after, heq, _⟩
    simp at heq
  | append_singleton calls c ih =>
    rw [cacheAfter_concat]
    simp only [returned_concat]
    by_cases hkey : c.key? = some key
    · rcases ih with ⟨hnull, hnone⟩ | ⟨hresult, ⟨w, hw⟩, hsame⟩
      · have hmiss : ((cacheAfter calls).get key).truthy = false := by rw [hnull]; rfl
        rcases Call.outcome_of_miss hkey hmiss with ⟨v, hv, hok, hcache⟩ | ⟨e, herror, hcache⟩
        · refine .inr ?_
          rw [hcache, DraftCache.get_put, if_pos rfl]
          refine ⟨hv, ⟨v, .inr ⟨hkey, hok⟩⟩, ?_⟩
          rintro w (hw | ⟨_, hw⟩)
          · exact absurd hw (hnone w)
          · cases hok.symm.trans hw
            rfl
        · refine .inl ?_
          rw [hcache]
          refine ⟨hnull, ?_⟩
          rintro w (hw | ⟨_, hw⟩)
          · exact hnone w hw
          · cases herror.symm.trans hw
      · have hhit := Call.outcome_of_hit hkey hresult.truthy
        refine .inr ?_
        rw [hhit]
        refine ⟨hresult, ⟨w, .inl hw⟩, ?_⟩
        rintro u (hu | ⟨_, hu⟩)
        · exact hsame u hu
        · rw [answerAfter, hhit, recalled_eq hresult] at hu
          rw [← Except.ok.inj hu, relabelled_relabelled]
    · rw [Call.outcome_of_other hkey]
      have hothers : ∀ w, (Returned key calls w ∨ c.key? = some key ∧ answerAfter calls c = .ok w) ↔
          Returned key calls w := by
        intro w
        exact or_iff_left fun h => hkey h.1
      simpa only [hothers] using ih

/-- **A result that was returned is given again**, whatever the service and the mode are then. -/
theorem answerAfter_of_returned (hkey : c.key? = some key)
    (h : Returned key calls w) : answerAfter calls c = .ok (relabelled w) := by
  rcases get_cacheAfter key calls with ⟨_, hnone⟩ | ⟨hresult, _, hsame⟩
  · exact absurd h (hnone w)
  · rw [answerAfter, Call.outcome_of_hit hkey hresult.truthy, recalled_eq hresult, hsame w h]

theorem field?_source_of_returned (h : Returned key calls w) :
    (relabelled w).field? "source" = some (.text "local-cache") := by
  rcases get_cacheAfter key calls with ⟨_, hnone⟩ | ⟨hresult, _, hsame⟩
  · exact absurd h (hnone w)
  · rw [hsame w h]
    exact field?_source_relabelled hresult

theorem relabelled_ne_drawn (h : Returned key calls w) (q : Query) (reply : String) : relabelled w ≠ q.drawn reply := by
  intro heq
  have hagain := field?_source_of_returned h
  rw [heq] at hagain
  have hservice : (q.drawn reply).field? "source" = some (.text "groq") := rfl
  exact absurd (Atom.text.inj (Value.atom.inj (Option.some.inj (hagain.symm.trans hservice)))) (by decide)

/-! ### Calls that the service can answer -/

/-- A call for which the service is asked, unless the cache answers: the mode lets it be asked, it is ready, and there
is a prompt. -/
structure Call.Asks (c : Call) (q : Query) : Prop where
  query : query? c.request = some q
  stub : c.stub.isOn = false
  ready : c.service.isReady = true
  prompt : ∃ prompt, Prompt.text q.prompted = .ok prompt

/-- A call that the service can answer: it is asked, and replies with a text that holds a diagram. -/
structure Call.Draws (c : Call) (q : Query) (reply : String) : Prop extends c.Asks q where
  answer : ∃ data, c.service.answer = .ok data ∧ answerText data = .ok reply
  ne_empty : Reply.normal (some q.kind) reply ≠ ""

theorem Call.Asks.key? (h : c.Asks q) : c.key? = some q.key := by
  rw [Call.key?, h.query, Option.map_some]

theorem Call.Asks.outcome_of_miss (h : c.Asks q) {cache : DraftCache} (hmiss : (cache.get q.key).truthy = false) :
    (c.outcome cache).result = .ok (ofAnswer q.kind q.format c.service.answer) := by
  obtain ⟨prompt, hprompt⟩ := h.prompt
  have hasked : (c.stub.isOn || !c.service.isReady) = false := by
    rw [h.stub, h.ready]
    rfl
  rw [Call.outcome, draft_of_query h.query, Query.draftFresh_of_asked hmiss hasked, hprompt]

theorem Call.Draws.ofAnswer_eq {reply : String} (h : c.Draws q reply) :
    ofAnswer q.kind q.format c.service.answer = q.drawn reply := by
  obtain ⟨data, hdata, hreply⟩ := h.answer
  simp only [ofAnswer, hdata, hreply]
  exact if_neg (by simpa using h.ne_empty)

/-- **When a service that can answer a call is asked.**  After any run of calls, a call that the service can answer
returns what the reply gives if and only if no call under the same key returned a result before.  A result that was
returned before is repeated instead, also when it only stood in for a diagram while the service failed. -/
theorem answerAfter_drawn_iff (calls : List Call) (c : Call) (q : Query) (reply : String) (h : c.Draws q reply) :
    (answerAfter calls c = .ok (q.drawn reply) ↔ ∀ w, ¬ Returned q.key calls w) ∧
      ∀ w, Returned q.key calls w → answerAfter calls c = .ok (relabelled w) := by
  refine ⟨⟨?_, ?_⟩, fun w hw => answerAfter_of_returned h.key? hw⟩
  · intro hdrawn w hw
    exact relabelled_ne_drawn hw q reply (Except.ok.inj ((answerAfter_of_returned h.key? hw).symm.trans hdrawn))
  · intro hnone
    rcases get_cacheAfter q.key calls with ⟨hnull, _⟩ | ⟨_, ⟨w, hw⟩, _⟩
    · have hmiss : ((cacheAfter calls).get q.key).truthy = false := by
        rw [hnull]
        rfl
      rw [answerAfter, h.outcome_of_miss hmiss, h.ofAnswer_eq]
    · exact absurd hw (hnone w)

def serving (answer : Except CallFailure Value) : Service := ⟨true, true, answer⟩

def orderDiagram : Request := { goal := .text "Order", temperature := .null }

def orderQuery : Query := ⟨orderDiagram, .class, "plantuml"⟩

def orderReply : String := "@startuml\nclass Order\nclass Item\nOrder --> Item\n@enduml"

def failing : Call := ⟨serving (.error (.failed "rate limited")), ⟨false, none⟩, orderDiagram⟩

def recovered : Call :=
  ⟨serving (.ok (.ofFields [("choices", .list [.ofFields [("message", .ofFields [("content", .text orderReply)])]])])),
    ⟨false, none⟩, orderDiagram⟩

theorem asks_orderQuery {answer : Except CallFailure Value} :
    Call.Asks ⟨serving answer, ⟨false, none⟩, orderDiagram⟩ orderQuery where
  query := rfl
  stub := rfl
  ready := rfl
  prompt := ⟨_, rfl⟩

theorem recovered_draws : recovered.Draws orderQuery orderReply where
  toAsks := asks_orderQuery
  answer := ⟨_, rfl, rfl⟩
  ne_empty := by decide +kernel

theorem returned_failing : Returned orderQuery.key [failing]
    (standIn .class "plantuml" "fallback" "rate limited" [("error", .text "rate limited")]) :=
  ⟨[], failing, [], rfl, asks_orderQuery.key?, asks_orderQuery.outcome_of_miss rfl⟩

theorem answerAfter_drawn_iff_recovered : recovered.Draws orderQuery orderReply ∧
    (∃ w, Returned orderQuery.key [failing] w) ∧
      ((answerAfter [failing] recovered = .ok (orderQuery.drawn orderReply) ↔
        ∀ w, ¬ Returned orderQuery.key [failing] w) ∧
        ∀ w, Returned orderQuery.key [failing] w → answerAfter [failing] recovered = .ok (relabelled w)) :=
  ⟨recovered_draws, ⟨_, returned_failing⟩,
    answerAfter_drawn_iff [failing] recovered orderQuery orderReply recovered_draws⟩

/-- A diagram that stood in while the service failed is given again once the service has recovered, in place of the one
that the service would draw. -/
theorem answerAfter_failing_repeats : recovered.Draws orderQuery orderReply ∧ recovered.request = failing.request ∧
    ∃ w, answerAfter [] failing = .ok w ∧ w.field? "source" = some (.text "fallback") ∧
      answerAfter [failing] recovered = .ok (relabelled w) ∧
      answerAfter [failing] recovered ≠ .ok (orderQuery.drawn orderReply) := by
  have hagain := answerAfter_of_returned asks_orderQuery.key? returned_failing (c := recovered)
  refine ⟨recovered_draws, rfl, _, asks_orderQuery.outcome_of_miss rfl, rfl, hagain, ?_⟩
  rw [hagain]
  exact fun heq => relabelled_ne_drawn returned_failing orderQuery orderReply (Except.ok.inj heq)

end Draft

end CodeAtlas
