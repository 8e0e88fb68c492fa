import CodeAtlas.Client.State
import CodeAtlas.Proofs.Number.Binary64
import CodeAtlas.Proofs.Value.Loose

/-!
# Histories of calls

A client is called again and again, by arbitrary requests, with arbitrary responses and under an arbitrary clock, which
may refuse pauses.  What one call can do is said once: it is refused, its answer is recalled, it is answered, it fails,
or it breaks off.

* `ClientState.afterCalls`, `ClientState.history`: the client after some calls, and the records of these calls;
* `ClientState.tries_answered_iff`, `ClientState.posts_lt_tries`, `ClientState.tries_ne_overrun`: the attempts of a
  call;
* **`ClientState.ending_record`**: the ways in which a call can end.
-/

namespace CodeAtlas

/-- A call that is made: what is asked, what the server sends back, and what the clock shows. -/
structure CallRequest where
  payload : Value
  responses : List Response
  clock : CallClock

structure CallRecord where
  clock : CallClock
  result : Except CallFailure Value
  trace : CallTrace
  after : ClientState

namespace CallRecord

def ended (r : CallRecord) : Binary64 := r.clock.ended r.trace.pauses

def fails (r : CallRecord) : Bool := decide (0 < r.trace.posts) && !r.trace.answered

end CallRecord

namespace ClientSettings

theorem bounds_of_ofEnvironment {env : Environment} {s : ClientSettings} (h : ofEnvironment env = .ok s) :
    0 ≤ s.maxRetries ∧ 1 ≤ s.cacheCapacity := by
  unfold ofEnvironment at h
  obtain ⟨timeout, _, h⟩ := Loose.of_bind h
  obtain ⟨retries, _, h⟩ := Loose.of_bind h
  obtain ⟨backoff, _, h⟩ := Loose.of_bind h
  obtain ⟨threshold, _, h⟩ := Loose.of_bind h
  obtain ⟨cooldown, _, h⟩ := Loose.of_bind h
  obtain ⟨lifetime, _, h⟩ := Loose.of_bind h
  obtain ⟨capacity, _, h⟩ := Loose.of_bind h
  obtain rfl := Loose.of_pure h
  exact ⟨Int.le_max_right .., Int.le_max_right ..⟩

/-- The times with which a call computes are not too large for a number, and the clock refuses none of the pauses that
may come between attempts. -/
def IsInRange (s : ClientSettings) (clock : CallClock) : Prop :=
  (Binary64.ofInt? s.cooldown).isSome = true ∧ (Binary64.zero.lt s.backoff = true →
    ∀ attempt : Nat, (attempt : Int) < s.maxRetries → (ClientState.pause s clock.refusal? attempt).isOk = true)

end ClientSettings

namespace ClientState

/-! ### Attempts -/

variable {s : ClientSettings} {refusal? : Binary64 → Option String} (left attempt : Nat) (last : Option String)
  (responses : List Response) (t : CallTrace)

theorem posts_le_tries : t.posts ≤ (tries s refusal? left attempt last responses t).2.posts := by
  induction left generalizing attempt last responses t with
  | zero => exact Nat.le_refl _
  | succ left ih =>
    rw [tries]
    dsimp only
    split
    · exact Nat.le_succ _
    · exact Nat.le_succ _
    · split
      · split
        · exact Nat.le_succ _
        · exact Nat.le_trans (Nat.le_succ t.posts) (ih _ _ _ { t with posts := t.posts + 1, pauses := _ })
      · exact Nat.le_trans (Nat.le_succ t.posts) (ih _ _ _ { t with posts := t.posts + 1 })

theorem posts_lt_tries : t.posts < (tries s refusal? (left + 1) attempt last responses t).2.posts := by
  rw [tries]
  dsimp only
  split
  · exact Nat.lt_succ_self _
  · exact Nat.lt_succ_self _
  · split
    · split
      · exact Nat.lt_succ_self _
      · exact posts_le_tries _ _ _ _ { t with posts := t.posts + 1, pauses := _ }
    · exact posts_le_tries _ _ _ _ { t with posts := t.posts + 1 }

theorem tries_answered_iff (ht : t.answered = false) : (tries s refusal? left attempt last responses t).2.answered ↔
    ∃ v, (tries s refusal? left attempt last responses t).1 = .answered v := by
  induction left generalizing attempt last responses t with
  | zero => simp [tries, ht]
  | succ left ih =>
    rw [tries]
    dsimp only
    split
    · simp
    · simp [ht]
    · split
      · split
        · simp [ht]
        · exact ih _ _ _ _ ht
      · exact ih _ _ _ _ ht

/-- Attempts are broken off only where a pause that is due cannot be made. -/
theorem tries_ne_overrun
    (h : Binary64.zero.lt s.backoff → ∀ a, a + 1 < attempt + left → (pause s refusal? a).isOk) (m : String) :
    (tries s refusal? left attempt last responses t).1 ≠ .overrun m := by
  induction left generalizing attempt last responses t with
  | zero => simp [tries]
  | succ left ih =>
    have hnext : Binary64.zero.lt s.backoff → ∀ a, a + 1 < attempt + 1 + left → (pause s refusal? a).isOk := by
      intro hbackoff a ha
      exact h hbackoff a (by omega)
    rw [tries]
    dsimp only
    split
    · simp
    · simp
    · split
      next hpause =>
        obtain ⟨hleft, hbackoff⟩ := Bool.and_eq_true_iff.mp hpause
        have hleft : 0 < left := of_decide_eq_true hleft
        split
        next herror =>
          have hok := h hbackoff attempt (by omega)
          rw [herror] at hok
          cases hok
        · exact ih _ _ _ _ hnext
      · exact ih _ _ _ _ hnext

/-! ### Calls -/

variable (c : ClientState) (q : CallRequest)

def record : CallRecord :=
  let r := c.call q.clock q.payload q.responses
  ⟨q.clock, r.1, r.2.1, r.2.2⟩

def afterLookup : ClientState := (c.cached? q.clock.looked (requestKey q.payload)).2

theorem afterLookup_eq : c.afterLookup q = { c with cache := (c.afterLookup q).cache } := by
  unfold afterLookup cached?
  split <;> rfl

theorem settings_afterLookup : (c.afterLookup q).settings = c.settings := by
  rw [afterLookup_eq]

/-- The ways in which a call can end, with the record that each leaves. -/
inductive Ending : CallRecord → Prop where
  | refused (m : String) : Ending ⟨q.clock, .error (.disabled m), {}, c⟩
  | recalled (v : Value) (hpaused : c.isPaused q.clock.begun = false) :
    Ending ⟨q.clock, .ok v, {}, c.afterLookup q⟩
  | answered (v : Value) (t : CallTrace) (hpaused : c.isPaused q.clock.begun = false) (hposts : 0 < t.posts)
      (ht : t.answered = true) :
    Ending ⟨q.clock, ((c.afterLookup q).settle (q.clock.ended t.pauses) (requestKey q.payload) (.answered v)).1, t,
      ((c.afterLookup q).settle (q.clock.ended t.pauses) (requestKey q.payload) (.answered v)).2⟩
  | failed (last : Option String) (t : CallTrace) (hpaused : c.isPaused q.clock.begun = false) (hposts : 0 < t.posts)
      (ht : t.answered = false) :
    Ending ⟨q.clock, .error ((c.afterLookup q).afterFailure (q.clock.ended t.pauses) last).1, t,
      ((c.afterLookup q).afterFailure (q.clock.ended t.pauses) last).2⟩
  | overrun (m : String) (t : CallTrace) (hrange : ¬ c.settings.IsInRange q.clock) :
    Ending ⟨q.clock, .error (.broken m), t, c.afterLookup q⟩

theorem ending_settle (hpaused : c.isPaused q.clock.begun = false) (outcome : TryOutcome) (t : CallTrace)
    (hposts : 0 < t.posts) (ht : t.answered ↔ ∃ v, outcome = .answered v)
    (hrange : c.settings.IsInRange q.clock → ∀ m, outcome ≠ .overrun m) :
    Ending c q ⟨q.clock, ((c.afterLookup q).settle (q.clock.ended t.pauses) (requestKey q.payload) outcome).1, t,
      ((c.afterLookup q).settle (q.clock.ended t.pauses) (requestKey q.payload) outcome).2⟩ := by
  cases outcome with
  | answered v => exact .answered v t hpaused hposts (ht.mpr ⟨v, rfl⟩)
  | failed last =>
    have hnone : t.answered = false := by
      rw [Bool.eq_false_iff, ne_eq, ht]
      simp
    exact .failed last t hpaused hposts hnone
  | overrun m => exact .overrun m t fun h => hrange h m rfl

/-- **How a call ends.** -/
theorem ending_record (hretries : 0 ≤ c.settings.maxRetries) : Ending c q (c.record q) := by
  unfold record call
  split
  · exact .refused _
  split
  · exact .refused _
  split
  · exact .refused _
  next hpaused =>
    have hpaused : c.isPaused q.clock.begun = false := Bool.not_eq_true _ ▸ hpaused
    dsimp only
    split
    · exact .recalled _ hpaused
    · have hsettings := settings_afterLookup c q
      -- there is at least one attempt
      obtain ⟨left, hleft⟩ : ∃ left, (c.settings.maxRetries + 1).toNat = left + 1 :=
        ⟨c.settings.maxRetries.toNat, by omega⟩
      unfold afterLookup at hsettings
      refine ending_settle c q hpaused _ _ ?_ (tries_answered_iff _ _ _ _ {} rfl) ?_
      · rw [hsettings, hleft]
        exact posts_lt_tries _ _ _ _ {}
      · rintro ⟨_, hrange⟩
        rw [hsettings, hleft]
        exact tries_ne_overrun _ _ _ _ _ fun hbackoff a ha => hrange hbackoff a (by omega)

/-! ### Runs -/

def afterCalls (s : ClientSettings) : List CallRequest → ClientState
  | [] => { settings := s }
  | q :: qs => ((afterCalls s qs).record q).after

def history (s : ClientSettings) : List CallRequest → List CallRecord
  | [] => []
  | q :: qs => (afterCalls s qs).record q :: history s qs

theorem settings_afterFailure (now : Binary64) (last : Option String) :
    (c.afterFailure now last).2.settings = c.settings := by
  unfold afterFailure
  dsimp only
  split
  · split <;> rfl
  · rfl

theorem settings_settle (now : Binary64) (key : String) (outcome : TryOutcome) :
    (c.settle now key outcome).2.settings = c.settings := by
  cases outcome with
  | answered v =>
    unfold settle keep?
    dsimp only
    split
    next h =>
      split at h
      · obtain ⟨_, _, rfl⟩ := Option.map_eq_some_iff.mp h
        rfl
      · cases h
        rfl
    · rfl
  | failed last => exact settings_afterFailure ..
  | overrun m => rfl

theorem settings_record (hretries : 0 ≤ c.settings.maxRetries) : (c.record q).after.settings = c.settings := by
  have hlookup := settings_afterLookup c q
  have h := ending_record c q hretries
  generalize c.record q = r at h
  cases h with
  | refused => rfl
  | recalled => exact hlookup
  | answered => rw [settings_settle, hlookup]
  | failed => rw [settings_afterFailure, hlookup]
  | overrun => exact hlookup

theorem settings_afterCalls {s : ClientSettings} (hretries : 0 ≤ s.maxRetries) (qs : List CallRequest) :
    (afterCalls s qs).settings = s := by
  induction qs with
  | nil => rfl
  | cons q qs ih =>
    rw [afterCalls, settings_record _ _ (by rw [ih]; exact hretries), ih]

end ClientState

end CodeAtlas
