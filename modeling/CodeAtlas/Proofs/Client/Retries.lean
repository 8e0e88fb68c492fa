import CodeAtlas.Proofs.Client.Breaker

/-!
# Retries

A call posts again and again until it is answered.  Trying again is of no use after a response that is *final*: a
success, a status that lays the failure on the request, or a body that cannot be read.  A disciplined call posts up to
the first final response and no further.  The client stops at fewer responses: an error status and a body that cannot be
read are tried again, whatever the status says.  On the other hand a pause that cannot be made ends a call early.

* `ClientState.tries_cases`, `ClientState.tries_spec`: what one attempt can do, and what all attempts come to;
* **`ClientState.disciplined_iff`**: exactly when a call is disciplined.
-/

namespace CodeAtlas

open List

namespace Response

/-- What a response holds: what its body says, where the status is no error. -/
def data? : Response → Option Value
  | answer status _ body => if 400 ≤ status ∧ status < 600 then none else (Json.parse body).toOption
  | lost _ => none
  | senseless _ => none

/-- Whether a response is a failure that trying again does not mend: the status says that the request is at fault, or
what was sent cannot be read. -/
def isRefusal : Response → Bool
  | answer status _ body =>
    if 400 ≤ status ∧ status < 500 then true
    else if 500 ≤ status ∧ status < 600 then false
    else (Json.parse body).toOption.isNone
  | lost _ => false
  | senseless _ => true

/-- Whether trying again is of no use after a response. -/
def isFinal (r : Response) : Bool := r.data?.isSome || r.isRefusal

def stops : Response → Bool
  | senseless _ => true
  | r => r.data?.isSome

theorem stops_of_data? {r : Response} (h : r.data?.isSome) : r.stops := by
  cases r with
  | answer status reason body => exact h
  | lost m => exact h
  | senseless m => rfl

theorem data?_eq_none {r : Response} (h : r.stops = false) : r.data? = none := by
  rw [← Option.not_isSome_iff_eq_none]
  intro hdata
  rw [stops_of_data? hdata] at h
  cases h

theorem isFinal_of_stops {r : Response} (h : r.stops) : r.isFinal := by
  cases r with
  | answer status reason body => exact Bool.or_eq_true_iff.mpr (.inl h)
  | lost m => cases h
  | senseless m => rfl

theorem attempt_cases (url : String) (r : Response) :
    (∃ v, r.attempt url = .success v ∧ r.data? = some v ∧ r.stops) ∨
    (∃ m, r.attempt url = .never m ∧ r.data? = none ∧ r.stops) ∨
    ∃ m, r.attempt url = .again m ∧ r.stops = false := by
  cases r with
  | lost m => exact .inr (.inr ⟨m, rfl, rfl⟩)
  | senseless m => exact .inr (.inl ⟨m, rfl, rfl, rfl⟩)
  | answer status reason body =>
    by_cases herror : 400 ≤ status ∧ status < 600
    · have hdata : (answer status reason body).data? = none := if_pos herror
      obtain ⟨m, hm⟩ : ∃ m, statusError? url status reason = some m := by
        by_cases hclient : status < 500
        · exact ⟨_, if_pos (by simp [herror.1, hclient])⟩
        · refine ⟨_, (if_neg (by simp [hclient])).trans (if_pos ?_)⟩
          simp [Int.not_lt.mp hclient, herror.2]
      refine .inr (.inr ⟨m, ?_, ?_⟩)
      · rw [attempt, hm]
      · rw [stops, hdata]
        · rfl
        · simp
    · have hnone : statusError? url status reason = none := by
        refine (if_neg ?_).trans (if_neg ?_)
        · simp only [Bool.and_eq_true, decide_eq_true_eq]
          omega
        · simp only [Bool.and_eq_true, decide_eq_true_eq]
          omega
      have hdata : (answer status reason body).data? = (Json.parse body).toOption := if_neg herror
      cases hbody : Json.parse body with
      | ok v =>
        rw [hbody] at hdata
        refine .inl ⟨v, ?_, hdata, stops_of_data? (by rw [hdata]; rfl)⟩
        rw [attempt, hnone]
        simp only [hbody]
      | error e =>
        rw [hbody] at hdata
        refine .inr (.inr ⟨e.message body, ?_, ?_⟩)
        · rw [attempt, hnone]
          simp only [hbody]
        · rw [stops, hdata]
          · rfl
          · simp

end Response

def TryOutcome.data? : TryOutcome → Option Value
  | answered v => some v
  | failed _ => none
  | overrun _ => none

namespace ClientState

/-! ### Attempts -/

variable {s : ClientSettings} {refusal? : Binary64 → Option String}

/-- The answers that a server gives to so many posts. -/
def answersTo : Nat → List Response → List Response
  | 0, _ => []
  | n + 1, rs => (nextResponse rs).1 :: answersTo n (nextResponse rs).2

theorem length_answersTo (n : Nat) (rs : List Response) : (answersTo n rs).length = n := by
  induction n generalizing rs with
  | zero => rfl
  | succ n ih => exact congrArg Nat.succ (ih _)

/-- Whether a call is broken off after an attempt that does not end it: a pause is due and cannot be made. -/
def breaksOff (s : ClientSettings) (refusal? : Binary64 → Option String) (attempt : Nat) : Bool :=
  Binary64.zero.lt s.backoff && !(pause s refusal? attempt).isOk

/-- Of so many attempts, the first one of which has a number, how many can be made: they end with the first one after
which the call would be broken off. -/
def budget (s : ClientSettings) (refusal? : Binary64 → Option String) : Nat → Nat → Nat
  | 0, _ => 0
  | left + 1, attempt => if breaksOff s refusal? attempt then 1 else budget s refusal? left (attempt + 1) + 1

theorem budget_le (left attempt : Nat) : budget s refusal? left attempt ≤ left := by
  induction left generalizing attempt with
  | zero => exact Nat.le_refl 0
  | succ left ih =>
    rw [budget]
    split
    · exact Nat.succ_le_succ (Nat.zero_le left)
    · exact Nat.succ_le_succ (ih (attempt + 1))

theorem exists_budget_succ (left attempt : Nat) : ∃ k, budget s refusal? (left + 1) attempt = k + 1 := by
  rw [budget]
  split
  · exact ⟨0, rfl⟩
  · exact ⟨_, rfl⟩

/-- What the next attempt can do: the client stops at the response, or the call is broken off, or there is another
attempt. -/
theorem tries_cases (left attempt : Nat) (last : Option String) (responses : List Response) (t : CallTrace) :
    ((nextResponse responses).1.stops ∧
      (tries s refusal? (left + 1) attempt last responses t).2.posts = t.posts + 1 ∧
      (tries s refusal? (left + 1) attempt last responses t).1.data? = (nextResponse responses).1.data?) ∨
    ((nextResponse responses).1.stops = false ∧ 0 < left ∧ breaksOff s refusal? attempt ∧
      (tries s refusal? (left + 1) attempt last responses t).2.posts = t.posts + 1 ∧
      (tries s refusal? (left + 1) attempt last responses t).1.data? = none) ∨
    ((nextResponse responses).1.stops = false ∧ (0 < left → breaksOff s refusal? attempt = false) ∧
      ∃ last' t', t'.posts = t.posts + 1 ∧ tries s refusal? (left + 1) attempt last responses t =
        tries s refusal? left (attempt + 1) last' (nextResponse responses).2 t') := by
  rw [tries]
  dsimp only
  rcases Response.attempt_cases s.url (nextResponse responses).1 with
    ⟨v, hattempt, hdata, hstops⟩ | ⟨m, hattempt, hdata, hstops⟩ | ⟨m, hattempt, hgoes⟩
  · rw [hattempt, hdata]
    exact .inl ⟨hstops, rfl, rfl⟩
  · rw [hattempt, hdata]
    exact .inl ⟨hstops, rfl, rfl⟩
  · rw [hattempt]
    dsimp only
    split
    next hpause =>
      obtain ⟨hleft, hbackoff⟩ := Bool.and_eq_true_iff.mp hpause
      have hleft : 0 < left := of_decide_eq_true hleft
      cases hp : pause s refusal? attempt with
      | error message =>
        have hbreaks : breaksOff s refusal? attempt := by
          rw [breaksOff, hbackoff, hp]
          rfl
        exact .inr (.inl ⟨hgoes, hleft, hbreaks, rfl, rfl⟩)
      | ok p =>
        have hgoesOn : breaksOff s refusal? attempt = false := by
          rw [breaksOff, hp]
          exact Bool.and_false _
        exact .inr (.inr ⟨hgoes, fun _ => hgoesOn, some m, _, rfl, rfl⟩)
    next hpause =>
      refine .inr (.inr ⟨hgoes, fun hleft => ?_, some m, _, rfl, rfl⟩)
      rw [decide_eq_true hleft, Bool.true_and, Bool.not_eq_true] at hpause
      rw [breaksOff, hpause, Bool.false_and]

/-- **How attempts end.** They go on up to the first answer at which the client stops, as far as the budget allows. -/
theorem tries_spec (left attempt : Nat) (last : Option String) (responses : List Response) (t : CallTrace) :
    (tries s refusal? left attempt last responses t).2.posts =
      t.posts + min ((answersTo left responses).findIdx (·.stops) + 1) (budget s refusal? left attempt) ∧
    (tries s refusal? left attempt last responses t).1.data? =
      (((answersTo left responses).take (budget s refusal? left attempt)).find? (·.stops)).bind (·.data?) := by
  induction left generalizing attempt last responses t with
  | zero => simp [tries, budget, answersTo, TryOutcome.data?]
  | succ left ih =>
    rw [answersTo, findIdx_cons]
    rcases tries_cases left attempt last responses t with
      ⟨hstops, hposts, hdata⟩ | ⟨hgoes, _, hbreaks, hposts, hdata⟩ | ⟨hgoes, hnext, last', t', hposts, htries⟩
    · obtain ⟨k, hk⟩ := @exists_budget_succ s refusal? left attempt
      rw [hposts, hdata, hstops, hk, take_succ_cons, find?_cons_of_pos hstops, cond_true]
      exact ⟨by omega, rfl⟩
    · rw [hposts, hdata, hgoes, budget, if_pos hbreaks, take_succ_cons, take_zero, find?_cons_of_neg (by simp [hgoes]),
        cond_false]
      exact ⟨by omega, rfl⟩
    · -- after the last attempt no pause is due, so that it does not matter whether one could be made
      have hbudget : budget s refusal? (left + 1) attempt = budget s refusal? left (attempt + 1) + 1 := by
        rcases Nat.eq_zero_or_pos left with rfl | hleft
        · rw [budget, budget]
          split <;> rfl
        · rw [budget, hnext hleft, if_neg Bool.false_ne_true]
      obtain ⟨hmore, hlater⟩ := ih (attempt + 1) last' (nextResponse responses).2 t'
      rw [htries, hgoes, hbudget, take_succ_cons, find?_cons_of_neg (by simp [hgoes]), cond_false]
      refine ⟨?_, hlater⟩
      rw [hmore, hposts]
      omega

/-! ### Calls -/

/-- Whether an answer that comes at a time can be kept, or need not be. -/
def canKeep (s : ClientSettings) (now : Binary64) : Bool :=
  !s.cacheEnabled || (now.addInt? s.cacheLifetime).isSome

theorem toOption_settle (c : ClientState) (now : Binary64) (key : String) (outcome : TryOutcome) :
    (c.settle now key outcome).1.toOption = if canKeep c.settings now then outcome.data? else none := by
  cases outcome with
  | answered v =>
    unfold settle keep? canKeep
    cases hcache : c.settings.cacheEnabled with
    | false => simp [hcache, Except.toOption, TryOutcome.data?]
    | true =>
      cases hadd : now.addInt? c.settings.cacheLifetime with
      | none => simp [hcache, hadd, Except.toOption]
      | some expires => simp [hcache, hadd, Except.toOption, TryOutcome.data?]
  | failed last =>
    unfold settle
    simp [Except.toOption, TryOutcome.data?]
  | overrun m =>
    unfold settle
    simp [Except.toOption, TryOutcome.data?]

def attemptsOf (s : ClientSettings) : Nat := (s.maxRetries + 1).toNat

/-- How many attempts a call can make under a clock. -/
def limitOf (s : ClientSettings) (clock : CallClock) : Nat := budget s clock.refusal? (attemptsOf s) 0

/-- Whether nothing is found for a request in the cache. -/
def misses (c : ClientState) (q : CallRequest) : Prop :=
  (c.cached? q.clock.looked (requestKey q.payload)).1.filter (!·.isNull) = none

theorem record_of_misses {c : ClientState} {q : CallRequest} (havailable : c.isAvailable q.clock.begun)
    (hmisses : c.misses q) :
    (c.record q).trace = (tries c.settings q.clock.refusal? (attemptsOf c.settings) 0 none q.responses {}).2 ∧
    (c.record q).result = ((c.afterLookup q).settle (c.record q).ended (requestKey q.payload)
      (tries c.settings q.clock.refusal? (attemptsOf c.settings) 0 none q.responses {}).1).1 := by
  have hsettings := settings_afterLookup c q
  obtain ⟨hon, hpaused⟩ := Bool.and_eq_true_iff.mp havailable
  obtain ⟨henabled, hkey⟩ := Bool.and_eq_true_iff.mp hon
  have hpaused : c.isPaused q.clock.begun = false := by simpa using hpaused
  have hcall : c.call q.clock q.payload q.responses =
      let p := tries c.settings q.clock.refusal? (attemptsOf c.settings) 0 none q.responses {}
      let settled := (c.afterLookup q).settle (q.clock.ended p.2.pauses) (requestKey q.payload) p.1
      (settled.1, p.2, settled.2) := by
    unfold call
    rw [if_neg (by simp [henabled]), if_neg (by simp [hkey]), if_neg (by simp [hpaused])]
    unfold afterLookup at hsettings ⊢
    dsimp only
    rw [hmisses, hsettings]
    rfl
  constructor
  · rw [record, hcall]
  · rw [CallRecord.ended, record, hcall]

/-- A call is disciplined, where the server has given answers to as many posts as there may be attempts: it posts up to
the first final answer, it returns what this answer holds, and it raises where the answer holds nothing or there is no
such answer. -/
structure IsDisciplined (answers : List Response) (r : CallRecord) : Prop where
  posts : r.trace.posts = min (answers.findIdx (·.isFinal) + 1) answers.length
  result : r.result.toOption = (answers.find? (·.isFinal)).bind (·.data?)

section First

variable {α : Type} {p : α → Bool} {before rest : List α} {a : α}

theorem findIdx_append_cons (hbefore : ∀ x ∈ before, p x = false) :
    (before ++ a :: rest).findIdx p = if p a then before.length else before.length + 1 + rest.findIdx p := by
  have hnone : before.findIdx p = before.length := findIdx_eq_length.mpr hbefore
  rw [findIdx_append, hnone, if_neg (Nat.lt_irrefl _), findIdx_cons]
  cases p a with
  | true => simp
  | false =>
    simp only [cond_false, Bool.false_eq_true, if_false]
    omega

theorem find?_append_cons (hbefore : ∀ x ∈ before, p x = false) (ha : p a) :
    (before ++ a :: rest).find? p = some a :=
  find?_eq_some_iff_append.mpr ⟨ha, before, rest, rfl, fun x hx => by simp [hbefore x hx]⟩

theorem find?_take_append_cons (hbefore : ∀ x ∈ before, p x = false) (extra : Nat) :
    ((before ++ a :: rest).take (before.length + (extra + 1))).find? p =
      if p a then some a else (rest.take extra).find? p := by
  have hnone : before.find? p = none := find?_eq_none.mpr fun x hx => by simp [hbefore x hx]
  rw [take_length_add_append, find?_append, hnone, Option.none_or, take_succ_cons, find?_cons]
  cases p a <;> rfl

end First

theorem isDisciplined_append_cons {r : CallRecord} {before rest : List Response} {a : Response}
    (hbefore : ∀ x ∈ before, x.isFinal = false) (ha : a.isFinal) :
    IsDisciplined (before ++ a :: rest) r ↔ r.trace.posts = before.length + 1 ∧ r.result.toOption = a.data? := by
  have hdue : min ((before ++ a :: rest).findIdx (·.isFinal) + 1) (before ++ a :: rest).length = before.length + 1 := by
    rw [findIdx_append_cons hbefore, if_pos ha, length_append, length_cons]
    omega
  have hfirst : ((before ++ a :: rest).find? (·.isFinal)).bind (·.data?) = a.data? := by
    rw [find?_append_cons hbefore ha]
    rfl
  exact ⟨fun h => ⟨h.posts.trans hdue, h.result.trans hfirst⟩,
    fun h => ⟨h.1.trans hdue.symm, h.2.trans hfirst.symm⟩⟩

theorem goes_of_not_isFinal {answers : List Response} (h : ∀ x ∈ answers, x.isFinal = false) :
    ∀ x ∈ answers, x.stops = false := by
  intro x hx
  rw [Bool.eq_false_iff]
  intro hstops
  have hfinal := Response.isFinal_of_stops hstops
  rw [h x hx] at hfinal
  cases hfinal

section Discipline

variable {r : CallRecord} {limit : Nat} {kept : Bool} {answers before rest : List Response} {a : Response}
  (hposts : r.trace.posts = min (answers.findIdx (·.stops) + 1) limit)
  (hresult : r.result.toOption = if kept then ((answers.take limit).find? (·.stops)).bind (·.data?) else none)

include hposts hresult

theorem isDisciplined_of_not_isFinal (hnone : ∀ x ∈ answers, x.isFinal = false) :
    IsDisciplined answers r ↔ min (answers.length + 1) limit = answers.length := by
  have hgoes := goes_of_not_isFinal hnone
  have hfinal : answers.findIdx (·.isFinal) = answers.length := findIdx_eq_length.mpr hnone
  have hstops : answers.findIdx (·.stops) = answers.length := findIdx_eq_length.mpr hgoes
  have hlost : answers.find? (·.isFinal) = none := find?_eq_none.mpr fun x hx => by simp [hnone x hx]
  have hlost' : (answers.take limit).find? (·.stops) = none :=
    find?_eq_none.mpr fun x hx => by simp [hgoes x (mem_of_mem_take hx)]
  have hmin : min (answers.length + 1) answers.length = answers.length := Nat.min_eq_right (Nat.le_succ _)
  rw [hstops] at hposts
  rw [hlost'] at hresult
  constructor
  · rintro ⟨h, _⟩
    rwa [hposts, hfinal, hmin] at h
  · intro h
    refine ⟨?_, ?_⟩
    · rw [hposts, hfinal, hmin, h]
    · rw [hresult, hlost]
      simp

/-- Where the client stops at the first final answer, this answer has to be reached, and what it holds has to be
kept. -/
theorem isDisciplined_of_stops (hanswers : answers = before ++ a :: rest)
    (hbefore : ∀ x ∈ before, x.isFinal = false) (ha : a.stops) :
    IsDisciplined answers r ↔ before.length + 1 ≤ limit ∧ (a.data?.isSome → kept) := by
  subst hanswers
  have hgoes := goes_of_not_isFinal hbefore
  have hreached : min (before.length + 1) limit = before.length + 1 ↔ before.length + 1 ≤ limit := by omega
  rw [isDisciplined_append_cons hbefore (Response.isFinal_of_stops ha), hposts, hresult, findIdx_append_cons hgoes,
    if_pos ha, hreached]
  refine and_congr_right fun hle => ?_
  obtain ⟨extra, rfl⟩ := Nat.exists_eq_add_of_le hle
  rw [Nat.add_assoc, Nat.add_comm 1, find?_take_append_cons hgoes, if_pos ha]
  cases kept with
  | true => simp
  | false => cases a.data? <;> simp

theorem isDisciplined_of_goes (hanswers : answers = before ++ a :: rest)
    (hbefore : ∀ x ∈ before, x.isFinal = false) (hfinal : a.isFinal) (ha : a.stops = false) :
    IsDisciplined answers r ↔ limit = before.length + 1 := by
  subst hanswers
  have hgoes := goes_of_not_isFinal hbefore
  have hne : ¬ a.stops := by simp [ha]
  rw [isDisciplined_append_cons hbefore hfinal, hposts, hresult, findIdx_append_cons hgoes, if_neg hne,
    Response.data?_eq_none ha]
  constructor
  · rintro ⟨h, _⟩
    omega
  · intro hlimit
    refine ⟨by omega, ?_⟩
    rw [hlimit, find?_take_append_cons hgoes 0, if_neg hne]
    simp

/-- When a call is disciplined that posts up to the first answer at which the client stops, as far as a limit allows,
and returns what this answer holds if it can be kept. -/
theorem isDisciplined_iff (hlimit : limit ≤ answers.length) :
    IsDisciplined answers r ↔
      min (answers.findIdx (·.isFinal) + 1) answers.length ≤ limit ∧
      ∀ a, answers.find? (·.isFinal) = some a →
        (a.stops = false → limit ≤ answers.findIdx (·.isFinal) + 1) ∧ (a.data?.isSome → kept) := by
  cases hfind : answers.find? (·.isFinal) with
  | none =>
    have hnone : ∀ x ∈ answers, x.isFinal = false := fun x hx => by simpa using find?_eq_none.mp hfind x hx
    rw [isDisciplined_of_not_isFinal hposts hresult hnone, findIdx_eq_length.mpr hnone]
    simp only [reduceCtorEq, false_imp_iff, implies_true, and_true]
    omega
  | some a =>
    obtain ⟨hfinal, before, rest, rfl, hbefore⟩ := find?_eq_some_iff_append.mp hfind
    have hbefore : ∀ x ∈ before, x.isFinal = false := fun x hx => by simpa using hbefore x hx
    have hidx : (before ++ a :: rest).findIdx (·.isFinal) = before.length := by
      rw [findIdx_append_cons hbefore, if_pos hfinal]
    have hmin : min (before.length + 1) (before ++ a :: rest).length = before.length + 1 := by
      rw [length_append, length_cons]
      omega
    simp only [hidx, hmin, Option.some.injEq, forall_eq']
    cases ha : a.stops with
    | true =>
      rw [isDisciplined_of_stops hposts hresult rfl hbefore ha]
      simp
    | false =>
      rw [isDisciplined_of_goes hposts hresult rfl hbefore hfinal ha, Response.data?_eq_none ha]
      simp only [Option.isSome_none, Bool.false_eq_true, false_imp_iff, forall_const, and_true]
      omega

end Discipline

def answers (c : ClientState) (q : CallRequest) : List Response := answersTo (attemptsOf c.settings) q.responses

/-- **When a call is disciplined.**  For every client that is on, every request whose answer is not in the cache, every
sequence of answers and every clock, whatever pauses it refuses: the call posts up to the first answer at which the
client stops, if the attempts that the pauses allow reach that far, and gets what this answer holds.  It is disciplined
if and only if these attempts reach up to the first final answer, and not beyond it where the client does not stop at
it, and what that answer holds can be kept. -/
theorem disciplined_iff {c : ClientState} {q : CallRequest} (havailable : c.isAvailable q.clock.begun = true)
    (hmisses : c.misses q) :
    (c.record q).trace.posts = min ((c.answers q).findIdx (·.stops) + 1) (limitOf c.settings q.clock) ∧
    (c.record q).result.toOption =
      (if canKeep c.settings (c.record q).ended
        then (((c.answers q).take (limitOf c.settings q.clock)).find? (·.stops)).bind (·.data?) else none) ∧
    (IsDisciplined (c.answers q) (c.record q) ↔
      min ((c.answers q).findIdx (·.isFinal) + 1) (attemptsOf c.settings) ≤ limitOf c.settings q.clock ∧
      ∀ a, (c.answers q).find? (·.isFinal) = some a →
        (a.stops = false → limitOf c.settings q.clock ≤ (c.answers q).findIdx (·.isFinal) + 1) ∧
        (a.data?.isSome = true → canKeep c.settings (c.record q).ended = true)) := by
  obtain ⟨htrace, hsettle⟩ := record_of_misses havailable hmisses
  have hsettings := settings_afterLookup c q
  have hspec := @tries_spec c.settings q.clock.refusal? (attemptsOf c.settings) 0 none q.responses {}
  have hposts : (c.record q).trace.posts = min ((c.answers q).findIdx (·.stops) + 1) (limitOf c.settings q.clock) := by
    rw [htrace, hspec.1, Nat.zero_add]
    rfl
  have hresult : (c.record q).result.toOption =
      (if canKeep c.settings (c.record q).ended
        then (((c.answers q).take (limitOf c.settings q.clock)).find? (·.stops)).bind (·.data?) else none) := by
    rw [hsettle, toOption_settle, hsettings, hspec.2]
    rfl
  have hlength : (c.answers q).length = attemptsOf c.settings := length_answersTo ..
  refine ⟨hposts, hresult, ?_⟩
  rw [isDisciplined_iff hposts hresult (by rw [hlength]; exact budget_le _ _), hlength]

def asking (responses : List Response) : CallRequest := ⟨.record [], responses, .still (.ofInt 1000)⟩

def readable : Response := .answer 200 "OK" "{}"

/-- A client that may try again twice tries again after a server error and returns the next answer. -/
theorem disciplined_iff_recovered :
    ClientSettings.ofEnvironment (environmentWith "2" "5" "300") = .ok (settingsWith 2 5 300) ∧
    (afterCalls (settingsWith 2 5 300) []).isAvailable (.ofInt 1000) = true ∧
    (afterCalls (settingsWith 2 5 300) []).misses (asking [.answer 503 "Service Unavailable" "", readable]) ∧
    ((afterCalls (settingsWith 2 5 300) []).record
      (asking [.answer 503 "Service Unavailable" "", readable])).trace.posts = 2 ∧
    IsDisciplined [.answer 503 "Service Unavailable" "", readable, readable]
      ((afterCalls (settingsWith 2 5 300) []).record (asking [.answer 503 "Service Unavailable" "", readable])) := by
  have havailable : (afterCalls (settingsWith 2 5 300) []).isAvailable (.ofInt 1000) = true := by decide +kernel
  have hmisses :
      (afterCalls (settingsWith 2 5 300) []).misses (asking [.answer 503 "Service Unavailable" "", readable]) := rfl
  obtain ⟨hposts, _, hdisciplined⟩ := disciplined_iff havailable hmisses
  refine ⟨ofEnvironment_half (a := 2) (b := 5) (d := 300) (by rfl) (by rfl) (by rfl), havailable, hmisses,
    hposts.trans (by decide +kernel), hdisciplined.mpr ⟨by decide +kernel, fun a ha => ?_⟩⟩
  obtain rfl : readable = a := Option.some.inj ha
  exact ⟨fun h => absurd h (by decide +kernel), fun _ => by decide +kernel⟩

/-- A client posts again after an error that the request is to blame for, and after a body that cannot be read. -/
theorem refusals_retried :
    ClientSettings.ofEnvironment (environmentWith "1" "5" "300") = .ok (settingsWith 1 5 300) ∧
    ∀ refused ∈ [Response.answer 404 "Not Found" "", .answer 200 "OK" "<html>"],
      refused.isFinal = true ∧
      ((afterCalls (settingsWith 1 5 300) []).record (asking [refused, readable])).trace.posts = 2 ∧
      ((afterCalls (settingsWith 1 5 300) []).record (asking [refused, readable])).result.toOption =
        some (.record []) ∧
      ¬ IsDisciplined [refused, readable]
        ((afterCalls (settingsWith 1 5 300) []).record (asking [refused, readable])) := by
  refine ⟨ofEnvironment_half (a := 1) (b := 5) (d := 300) (by rfl) (by rfl) (by rfl), ?_⟩
  simp only [List.forall_mem_cons]
  refine ⟨⟨by decide +kernel, by decide +kernel, rfl, fun h => absurd h.posts (by decide +kernel)⟩,
    ⟨by decide +kernel, by decide +kernel, rfl, fun h => absurd h.posts (by decide +kernel)⟩, by simp⟩

end ClientState

end CodeAtlas
