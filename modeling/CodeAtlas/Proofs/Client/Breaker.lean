import CodeAtlas.Proofs.Client.History

/-!
# The breaker

A client counts the calls that failed since one was answered.  When the count reaches a threshold the breaker opens: the
client is off until a time, and the count starts again.

* **`ClientState.opens_iff_threshold`**: exactly when the breaker opens, in every history.

The times that a client computes have to be numbers and its pauses must not be refused (`ClientSettings.IsInRange`);
`ClientState.breaker_limits` shows what happens otherwise.
-/

namespace CodeAtlas

namespace CallRecord

/-- Whether a call says that the client is off after too many failures. -/
def tellsPause (r : CallRecord) : Bool :=
  match r.result with
  | .error (.disabled m) => m == ClientState.pausedMessage
  | _ => false

theorem tellsPause_iff {r : CallRecord} :
    r.tellsPause ↔ r.result = .error (.disabled ClientState.pausedMessage) := by
  unfold tellsPause
  split
  next m h => rw [h, beq_iff_eq, Except.error.injEq, CallFailure.disabled.injEq]
  next h =>
    constructor
    · simp
    · exact fun heq => absurd heq (h _)

/-- Whether a call opened the breaker: something was posted, the client is off from the end of the call on for the time
that its settings say, and the call tells so. -/
def opens (r : CallRecord) : Bool :=
  decide (0 < r.trace.posts) && r.tellsPause &&
    (r.ended.addInt? r.after.settings.cooldown == some r.after.disabledUntil)

def resets (r : CallRecord) : Bool := r.trace.answered || r.opens

/-- How many calls failed since the last one after which failures are counted anew; the last call comes first. -/
def failuresSince (rs : List CallRecord) : Nat := (rs.takeWhile fun r => !r.resets).countP (·.fails)

theorem failuresSince_cons (r : CallRecord) (rs : List CallRecord) :
    failuresSince (r :: rs) =
      if r.resets = true then 0 else failuresSince rs + if r.fails = true then 1 else 0 := by
  unfold failuresSince
  by_cases h : r.resets = true
  · simp [h]
  · simp [h, List.countP_cons]

end CallRecord

namespace ClientState

/-! ### One call -/

variable {c : ClientState} {s : ClientSettings}

theorem afterFailure_of_eq (now : Binary64) (last : Option String)
    (hpos : 0 < c.settings.failureThreshold) (heq : (c.failures : Int) + 1 = c.settings.failureThreshold)
    (hcooldown : (Binary64.ofInt? c.settings.cooldown).isSome) :
    ∃ d, now.addInt? c.settings.cooldown = some d ∧
      c.afterFailure now last = (.disabled pausedMessage, { c with failures := 0, disabledUntil := d }) := by
  obtain ⟨x, hx⟩ := Option.isSome_iff_exists.mp hcooldown
  have hadd : now.addInt? c.settings.cooldown = some (now.add x) := by rw [Binary64.addInt?, hx, Option.map_some]
  have hmet : c.settings.failureThreshold ≠ 0 ∧ c.settings.failureThreshold ≤ ((c.failures + 1 : Nat) : Int) := by omega
  refine ⟨now.add x, hadd, ?_⟩
  rw [afterFailure]
  simp only [if_pos hmet, hadd]

theorem afterFailure_of_lt (now : Binary64) (last : Option String)
    (hlt : (c.failures : Int) + 1 < c.settings.failureThreshold) :
    ∃ m, c.afterFailure now last = (.failed m, { c with failures := c.failures + 1 }) := by
  have hnot : ¬ (c.settings.failureThreshold ≠ 0 ∧ c.settings.failureThreshold ≤ ((c.failures + 1 : Nat) : Int)) := by
    omega
  refine ⟨last.getD "Unknown Groq request failure", ?_⟩
  rw [afterFailure]
  simp only [if_neg hnot]

theorem settle_answered (c : ClientState) (now : Binary64) (key : String) (v : Value) :
    (c.settle now key (.answered v)).2.failures = 0 ∧
      ∀ m, (c.settle now key (.answered v)).1 ≠ .error (.disabled m) := by
  unfold settle keep?
  dsimp only
  split
  next h =>
    split at h
    · obtain ⟨_, _, rfl⟩ := Option.map_eq_some_iff.mp h
      exact ⟨rfl, by simp⟩
    · cases h
      exact ⟨rfl, by simp⟩
  · exact ⟨rfl, by simp [overflow]⟩

/-- **What a call does to the count of failures**, and when it opens the breaker. -/
theorem record_step (c : ClientState) (q : CallRequest) (hretries : 0 ≤ c.settings.maxRetries)
    (hrange : c.settings.IsInRange q.clock) (hcount : (c.failures : Int) < c.settings.failureThreshold) :
    ((c.record q).opens ↔
        (c.record q).fails ∧ (c.failures : Int) + 1 = c.settings.failureThreshold) ∧
      (c.record q).after.failures =
        if (c.record q).resets = true then 0 else c.failures + if (c.record q).fails = true then 1 else 0 := by
  have hend := ending_record c q hretries
  have hlookup := afterLookup_eq c q
  generalize c.record q = r at hend
  cases hend with
  | refused m =>
    refine ⟨by simp [CallRecord.opens, CallRecord.fails], ?_⟩
    simp [CallRecord.resets, CallRecord.opens, CallRecord.fails]
  | recalled v hpaused =>
    have hfailures : (c.afterLookup q).failures = c.failures := by rw [hlookup]
    refine ⟨by simp [CallRecord.opens, CallRecord.fails], ?_⟩
    simp [CallRecord.resets, CallRecord.opens, CallRecord.fails, hfailures]
  | answered v t hpaused hposts ht =>
    obtain ⟨hfailures, hother⟩ := settle_answered (c.afterLookup q) (q.clock.ended t.pauses) (requestKey q.payload) v
    refine ⟨⟨fun hopens => ?_, fun hfails => ?_⟩, ?_⟩
    · have htells := (Bool.and_eq_true_iff.mp (Bool.and_eq_true_iff.mp hopens).1).2
      exact absurd (CallRecord.tellsPause_iff.mp htells) (hother _)
    · simp [CallRecord.fails, ht] at hfails
    · simp [CallRecord.resets, ht, hfailures]
  | failed last t hpaused hposts ht =>
    have hfailures : (c.afterLookup q).failures = c.failures := by rw [hlookup]
    have hsettings := settings_afterLookup c q
    by_cases heq : (c.failures : Int) + 1 = c.settings.failureThreshold
    · obtain ⟨d, hd, hafter⟩ := afterFailure_of_eq (c := c.afterLookup q) (q.clock.ended t.pauses) last
        (by rw [hsettings]; omega) (by rw [hsettings, hfailures]; exact heq) (by rw [hsettings]; exact hrange.1)
      rw [hafter]
      simp [CallRecord.resets, CallRecord.opens, CallRecord.fails, CallRecord.tellsPause, CallRecord.ended, hposts, ht,
        hd, heq]
    · obtain ⟨m, hafter⟩ := afterFailure_of_lt (c := c.afterLookup q) (q.clock.ended t.pauses) last
        (by rw [hsettings, hfailures]; omega)
      rw [hafter]
      simp [CallRecord.resets, CallRecord.opens, CallRecord.fails, CallRecord.tellsPause, hposts, ht, hfailures, heq]
  | overrun m t hout => exact absurd hrange hout

theorem record_of_isPaused (c : ClientState) (q : CallRequest) (hpaused : c.isPaused q.clock.begun) :
    (c.record q).trace.posts = 0 ∧ (c.record q).after = c ∧ ∃ m, (c.record q).result = .error (.disabled m) := by
  unfold record call
  split
  · exact ⟨rfl, rfl, _, rfl⟩
  split
  · exact ⟨rfl, rfl, _, rfl⟩
  · exact ⟨rfl, rfl, _, rfl⟩

/-! ### Histories -/

/-- **The count of failures after a run of calls.** -/
theorem failures_afterCalls (hretries : 0 ≤ s.maxRetries) (hpos : 0 < s.failureThreshold)
    (qs : List CallRequest) (hrange : ∀ q ∈ qs, s.IsInRange q.clock) :
    ((afterCalls s qs).failures : Int) < s.failureThreshold ∧
      (afterCalls s qs).failures = CallRecord.failuresSince (history s qs) := by
  induction qs with
  | nil => exact ⟨hpos, rfl⟩
  | cons q qs ih =>
    rw [List.forall_mem_cons] at hrange
    obtain ⟨hlt, hcount⟩ := ih hrange.2
    have hsettings := settings_afterCalls hretries qs
    obtain ⟨hopens, hafter⟩ := record_step (afterCalls s qs) q (by rw [hsettings]; exact hretries)
      (by rw [hsettings]; exact hrange.1) (by rw [hsettings]; exact hlt)
    rw [hsettings] at hopens
    rw [afterCalls, history, CallRecord.failuresSince_cons, hafter, hcount]
    refine ⟨?_, rfl⟩
    split
    · exact hpos
    next hreset =>
      split
      next hfails =>
        -- the last failure that is allowed would have opened the breaker
        have hne : ((afterCalls s qs).failures : Int) + 1 ≠ s.failureThreshold := by
          intro heq
          apply hreset
          rw [CallRecord.resets, hopens.mpr ⟨hfails, heq⟩, Bool.or_true]
        omega
      · omega

/-- **When the breaker opens.**  In every history of calls on a new client with a threshold, under every clock that
refuses none of its pauses: the client counts the calls that failed since the last answer or opening, and fewer than the
threshold; a call opens the breaker exactly if it fails and reaches the threshold; and as long as the clock shows less
than the time until which the client is off, it posts nothing and does not change. -/
theorem opens_iff_threshold {env : Environment} {s : ClientSettings} (hs : ClientSettings.ofEnvironment env = .ok s)
    (hpos : 0 < s.failureThreshold) (qs : List CallRequest) (q : CallRequest)
    (hrange : ∀ r ∈ q :: qs, s.IsInRange r.clock) :
    ((afterCalls s qs).failures : Int) < s.failureThreshold ∧
      (afterCalls s qs).failures = CallRecord.failuresSince (history s qs) ∧
      (((afterCalls s qs).record q).opens = true ↔ ((afterCalls s qs).record q).fails = true ∧
        (CallRecord.failuresSince (history s qs) : Int) + 1 = s.failureThreshold) ∧
      ((afterCalls s qs).disabledUntil.nonzero = true →
        q.clock.begun.lt (afterCalls s qs).disabledUntil = true →
          ((afterCalls s qs).record q).trace.posts = 0 ∧ ((afterCalls s qs).record q).after = afterCalls s qs ∧
            ∃ m, ((afterCalls s qs).record q).result = .error (.disabled m)) := by
  have hretries := (ClientSettings.bounds_of_ofEnvironment hs).1
  have hsettings := settings_afterCalls hretries qs
  rw [List.forall_mem_cons] at hrange
  obtain ⟨hlt, hcount⟩ := failures_afterCalls hretries hpos qs hrange.2
  obtain ⟨hopens, _⟩ := record_step (afterCalls s qs) q (by rw [hsettings]; exact hretries)
    (by rw [hsettings]; exact hrange.1) (by rw [hsettings]; exact hlt)
  rw [hsettings] at hopens
  refine ⟨hlt, hcount, ?_, ?_⟩
  · rw [← hcount]
    exact hopens
  · intro hset hbefore
    refine record_of_isPaused _ q ?_
    rw [isPaused, hset, hbefore, Bool.and_true]

def unanswered (now : Int) : CallRequest := ⟨.record [], [], .still (.ofInt now)⟩

/-- An environment that sets a key, a number of retries, a threshold, a cooldown and the first pause. -/
def environmentWith (retries threshold cooldown : String) (backoff : String := ClientSettings.half) : Environment :=
  [("GROQ_API_KEY", "k"), ("GROQ_MAX_RETRIES", retries), ("GROQ_DISABLE_AFTER_FAILURES", threshold),
    ("GROQ_DISABLE_COOLDOWN", cooldown), ("GROQ_RETRY_BACKOFF", backoff)]

/-- The settings that such an environment stands for. -/
def settingsWith (retries threshold cooldown : Int) (backoff : Binary64 := .finite false 1 (-1)) : ClientSettings where
  enabled := true
  key := .text "k"
  url := ClientSettings.defaultUrl
  timeout := .ofInt 120
  maxRetries := retries
  backoff := backoff
  failureThreshold := threshold
  cooldown := cooldown
  cacheEnabled := false
  cacheLifetime := 900
  cacheCapacity := 50

theorem ofEnvironment_environmentWith {retries threshold cooldown backoff : String} {a b d : Int} {x : Binary64}
    (ha : Environment.intOf retries = .ok a) (hb : Environment.intOf threshold = .ok b)
    (hd : Environment.intOf cooldown = .ok d) (hx : Environment.floatOf backoff = .ok x) (hmax : x.max2 .zero = x) :
    ClientSettings.ofEnvironment (environmentWith retries threshold cooldown backoff) =
      .ok (settingsWith (max a 0) (max b 0) (max d 0) x) := by
  have htimeout : Environment.floatOf "120" = .ok (.ofInt 120) := by rfl
  have hlifetime : Environment.intOf "900" = .ok 900 := by rfl
  have hcapacity : Environment.intOf "50" = .ok 50 := by rfl
  have hon : Switch.isOn "true" := by decide +kernel
  have hoff : Switch.isOn "false" = false := by decide +kernel
  show (do
    let timeout ← Environment.floatOf "120"
    let retries ← Environment.intOf retries
    let backoff ← Environment.floatOf backoff
    let threshold ← Environment.intOf threshold
    let cooldown ← Environment.intOf cooldown
    let lifetime ← Environment.intOf "900"
    let capacity ← Environment.intOf "50"
    return (⟨Switch.isOn "true" && true, .text "k", ClientSettings.defaultUrl, timeout.max2 (.ofInt 1), max retries 0,
      backoff.max2 .zero, max threshold 0, max cooldown 0, Switch.isOn "false", max lifetime 1, max capacity 1⟩ :
        ClientSettings) : Loose ClientSettings) = _
  rw [htimeout, ha, hx, hb, hd, hlifetime, hcapacity, hon, hoff]
  show Except.ok (settingsWith (max a 0) (max b 0) (max d 0) (x.max2 .zero)) = _
  rw [hmax]

theorem ofEnvironment_half {retries threshold cooldown : String} {a b d : Int}
    (ha : Environment.intOf retries = .ok a) (hb : Environment.intOf threshold = .ok b)
    (hd : Environment.intOf cooldown = .ok d) :
    ClientSettings.ofEnvironment (environmentWith retries threshold cooldown) =
      .ok (settingsWith (max a 0) (max b 0) (max d 0)) :=
  ofEnvironment_environmentWith ha hb hd (by rfl) (by decide +kernel)

theorem opens_iff_threshold_outage :
    ClientSettings.ofEnvironment (environmentWith "0" "2" "300") = .ok (settingsWith 0 2 300) ∧
      (∀ clock, (settingsWith 0 2 300).IsInRange clock) ∧
      ((afterCalls (settingsWith 0 2 300) [unanswered 1000]).record (unanswered 1001)).opens = true ∧
      ((afterCalls (settingsWith 0 2 300) [unanswered 1001, unanswered 1000]).record (unanswered 1300)).trace.posts =
        0 ∧
      ((afterCalls (settingsWith 0 2 300) [unanswered 1001, unanswered 1000]).record (unanswered 1301)).opens =
        false := by
  have hs : ClientSettings.ofEnvironment (environmentWith "0" "2" "300") = .ok (settingsWith 0 2 300) :=
    ofEnvironment_half (a := 0) (b := 2) (d := 300) (by rfl) (by rfl) (by rfl)
  -- there are no retries, and so no pauses
  have hrange : ∀ clock, (settingsWith 0 2 300).IsInRange clock := fun clock =>
    ⟨by decide +kernel, fun _ a ha => absurd ha (Int.not_lt.mpr (Int.natCast_nonneg a))⟩
  refine ⟨hs, hrange, ?_, ?_, ?_⟩
  · obtain ⟨_, _, hopens, _⟩ :=
      opens_iff_threshold hs (by decide) [unanswered 1000] (unanswered 1001) fun r _ => hrange r.clock
    exact hopens.mpr ⟨by decide +kernel, by decide +kernel⟩
  · obtain ⟨_, _, _, hquiet⟩ := opens_iff_threshold hs (by decide) [unanswered 1001, unanswered 1000] (unanswered 1300)
      fun r _ => hrange r.clock
    exact (hquiet (by decide +kernel) (by decide +kernel)).1
  · obtain ⟨_, _, hopens, _⟩ := opens_iff_threshold hs (by decide) [unanswered 1001, unanswered 1000] (unanswered 1301)
      fun r _ => hrange r.clock
    rw [Bool.eq_false_iff, ne_eq, hopens]
    exact fun h => absurd h.2 (by decide +kernel)

theorem intOf_ofList {cs : List Char} {n : Int} (h : Number.readInt? 10 cs = some n) :
    Environment.intOf (String.ofList cs) = .ok n := by
  rw [Environment.intOf, String.toList_ofList, h]

/-- Where nothing is sent back, the first pause that cannot be made ends the attempts. -/
theorem tries_nil_overrun {refusal? : Binary64 → Option String} (hbackoff : Binary64.zero.lt s.backoff) {n : Nat}
    (hnone : (pause s refusal? n).isOk = false) (left attempt : Nat) (last : Option String) (t : CallTrace)
    (hle : attempt ≤ n) (hleft : n + 1 < attempt + left) :
    ∃ m, (tries s refusal? left attempt last [] t).1 = .overrun m := by
  induction left generalizing attempt last t with
  | zero => omega
  | succ left ih =>
    have hgo : (decide (left > 0) && Binary64.zero.lt s.backoff) := by
      rw [hbackoff, Bool.and_true]
      exact decide_eq_true (by omega)
    rw [tries]
    dsimp only [nextResponse, Response.attempt]
    rw [if_pos hgo]
    split
    next m _ => exact ⟨m, rfl⟩
    next p hp =>
      have hne : attempt ≠ n := by
        rintro rfl
        rw [hp] at hnone
        cases hnone
      exact ih _ _ _ (by omega) (by omega)

theorem record_of_overrun {q : CallRequest} (henabled : c.settings.enabled)
    (hkey : c.hasKey) (hpaused : c.isPaused q.clock.begun = false) (hcache : c.settings.cacheEnabled = false)
    {left : Nat} (hleft : (c.settings.maxRetries + 1).toNat = left + 1) {m : String}
    (hover : (tries c.settings q.clock.refusal? (left + 1) 0 none q.responses {}).1 = .overrun m) :
    (c.record q).fails ∧ (c.record q).after = c := by
  have hposts : 0 < (tries c.settings q.clock.refusal? (left + 1) 0 none q.responses {}).2.posts :=
    posts_lt_tries _ _ _ _ {}
  have hanswered : (tries c.settings q.clock.refusal? (left + 1) 0 none q.responses {}).2.answered = false := by
    rw [Bool.eq_false_iff, ne_eq, tries_answered_iff _ _ _ _ {} rfl, hover]
    simp
  have hcached : c.cached? q.clock.looked (requestKey q.payload) = (none, c) := by simp [cached?, hcache]
  simp [record, call, henabled, hkey, hpaused, hcached, hleft, hover, settle, CallRecord.fails, hposts, hanswered]

/-- The digits of a time that is too large for a number. -/
def endless : List Char := '1' :: List.replicate 309 '0'

/-- A clock that refuses pauses of more than about three centuries. -/
def mortalClock : CallClock :=
  { CallClock.still (.ofInt 1000) with
    refusal? := fun p => if (Binary64.ofInt 9223372036).lt p then some "timestamp too large" else none }

/-- **Where the breaker fails.**  Before the time zero a client posts although the time until which it is off is still
to come; a cooldown that is too large for a number leaves the breaker closed when the threshold is reached; and a pause
that is too large for a number, or that the clock refuses, leaves a failure uncounted, even the one that reaches the
threshold. -/
theorem breaker_limits :
    (ClientSettings.ofEnvironment (environmentWith "0" "5" "300") = .ok (settingsWith 0 5 300) ∧
      (unanswered (-1000)).clock.begun.lt (afterCalls (settingsWith 0 5 300) []).disabledUntil = true ∧
      ((afterCalls (settingsWith 0 5 300) []).record (unanswered (-1000))).trace.posts = 1) ∧
    (ClientSettings.ofEnvironment (environmentWith "0" "1" (String.ofList endless)) =
        .ok (settingsWith 0 1 (Int.ofNat (Nat.pow 10 309))) ∧
      (afterCalls (settingsWith 0 1 (Int.ofNat (Nat.pow 10 309))) [unanswered 1000]).failures = 1 ∧
      ((afterCalls (settingsWith 0 1 (Int.ofNat (Nat.pow 10 309))) []).record (unanswered 1000)).opens = false) ∧
    (ClientSettings.ofEnvironment (environmentWith "1025" "5" "300") = .ok (settingsWith 1025 5 300) ∧
      ((afterCalls (settingsWith 1025 5 300) []).record (unanswered 1000)).fails = true ∧
      (afterCalls (settingsWith 1025 5 300) [unanswered 1000]).failures = 0) ∧
    (ClientSettings.ofEnvironment (environmentWith "1" "1" "300" "1e10") =
        .ok (settingsWith 1 1 300 (.ofInt 10000000000)) ∧
      ((afterCalls (settingsWith 1 1 300 (.ofInt 10000000000)) []).record ⟨.record [], [], mortalClock⟩).trace.posts =
        1 ∧
      ((afterCalls (settingsWith 1 1 300 (.ofInt 10000000000)) []).record ⟨.record [], [], mortalClock⟩).fails = true ∧
      ((afterCalls (settingsWith 1 1 300 (.ofInt 10000000000)) []).record ⟨.record [], [], mortalClock⟩).opens = false ∧
      (afterCalls (settingsWith 1 1 300 (.ofInt 10000000000)) [⟨.record [], [], mortalClock⟩]).failures = 0) := by
  refine ⟨⟨ofEnvironment_half (a := 0) (b := 5) (d := 300) (by rfl) (by rfl) (by rfl), by decide +kernel,
    by decide +kernel⟩, ⟨?_, by decide +kernel, by decide +kernel⟩,
    ⟨ofEnvironment_half (a := 1025) (b := 5) (d := 300) (by rfl) (by rfl) (by rfl), ?_⟩,
    ofEnvironment_environmentWith (a := 1) (b := 1) (d := 300) (by rfl) (by rfl) (by rfl) (by rfl) (by decide +kernel),
    by decide +kernel, by decide +kernel, by decide +kernel, by decide +kernel⟩
  · have hread : Number.readInt? 10 endless = some (Int.ofNat (Nat.pow 10 309)) := by decide +kernel
    have hzero : Environment.intOf "0" = .ok 0 := by rfl
    have hone : Environment.intOf "1" = .ok 1 := by rfl
    have hmax : max (Int.ofNat (Nat.pow 10 309)) 0 = Int.ofNat (Nat.pow 10 309) :=
      Int.max_eq_left (Int.natCast_nonneg _)
    have henv := ofEnvironment_half hzero hone (intOf_ofList hread)
    rwa [hmax] at henv
  · obtain ⟨m, hover⟩ :
        ∃ m, (tries (settingsWith 1025 5 300) (unanswered 1000).clock.refusal? (1025 + 1) 0 none [] {}).1 =
        .overrun m :=
          tries_nil_overrun (n := 1024) (by decide +kernel) (by decide +kernel) _ _ _ _ (by decide) (by decide)
    obtain ⟨hfails, hafter⟩ := record_of_overrun (c := afterCalls (settingsWith 1025 5 300) []) (q := unanswered 1000)
      rfl (by decide) (by decide) rfl (by decide) hover
    refine ⟨hfails, ?_⟩
    rw [afterCalls, hafter]
    rfl

end ClientState

end CodeAtlas
