import CodeAtlas.Client.Settings
import CodeAtlas.Digest.Sha256
import CodeAtlas.Value.JsonReader
import CodeAtlas.Value.JsonWriter

/-!
# Calls of the model service

A client tries a call several times with growing pauses, counts the calls that failed, and is off for a while
after too many of them. Answers may be kept in a cache. A time that is too large for a number breaks a call off, and so
does a pause that the clock refuses.

* `AnswerCache`: answers by key, the one used longest ago first; setting and finding one make it the last;
* `Response.attempt`: what a response means for a client;
* `ClientState.tries`: the attempts of one call;
* `ClientState.settle`: what the attempts mean for the client;
* `ClientState.call`: a call with all that happens around it.

## Scope

The server is a list of responses and the clock is a `CallClock`: what it shows and which pauses it refuses are
parameters of every call.  Calls come one after the other; what two calls at the same time would do is not said, and
neither is what is written to a log.
-/

namespace CodeAtlas

structure CachedAnswer where
  key : String
  expires : Binary64
  answer : Value

/-- The answers kept, the one used longest ago first. -/
abbrev AnswerCache := List CachedAnswer

namespace AnswerCache

def keys (c : AnswerCache) : List String := c.map (·.key)

def erase (c : AnswerCache) (key : String) : AnswerCache := c.filter (·.key != key)

def get? (c : AnswerCache) (now : Binary64) (key : String) : Option Value × AnswerCache :=
  match c.find? (·.key == key) with
  | none => (none, c)
  | some e => if e.expires.lt now then (none, c.erase key) else (some e.answer, c.erase key ++ [e])

def put (c : AnswerCache) (capacity : Nat) (e : CachedAnswer) : AnswerCache :=
  let all := c.erase e.key ++ [e]
  all.drop (all.length - capacity)

end AnswerCache

inductive Response where
  | answer (status : Int) (reason body : String)
  /-- The connection failed or took too long. -/
  | lost (message : String)
  | senseless (message : String)

inductive Attempt where
  | success (data : Value)
  | again (message : String)
  | never (message : String)

namespace Response

def statusError? (url : String) (status : Int) (reason : String) : Option String :=
  let text := fun side => s!"{status} {side} Error: {reason} for url: {url}"
  if 400 ≤ status && status < 500 then some (text "Client")
  else if 500 ≤ status && status < 600 then some (text "Server")
  else none

def attempt (url : String) : Response → Attempt
  | lost m => .again m
  | senseless m => .never m
  | answer status reason body =>
    match statusError? url status reason with
    | some m => .again m
    | none =>
      match Json.parse body with
      | .ok v => .success v
      | .error e => .again (e.message body)

end Response

/-- A client: its settings, and what it keeps. It is off before the time `disabledUntil`, unless that is zero. -/
structure ClientState where
  settings : ClientSettings
  cache : AnswerCache := []
  failures : Nat := 0
  disabledUntil : Binary64 := .zero

/-- What a clock shows during a call: when the call begins, when an answer is looked up, and at the end, after some
pauses. A pause that is too long for the clock is refused with a message. -/
structure CallClock where
  begun : Binary64
  looked : Binary64
  ended : List Binary64 → Binary64
  refusal? : Binary64 → Option String := fun _ => none

def CallClock.still (now : Binary64) : CallClock := { begun := now, looked := now, ended := (·.foldl Binary64.add now) }

/-- What one call did: how often it posted, whether the last post was answered, and how long it paused each time. -/
structure CallTrace where
  posts : Nat := 0
  answered : Bool := false
  pauses : List Binary64 := []

inductive TryOutcome where
  | answered (data : Value)
  | failed (message : Option String)
  /-- A pause was too long for a number, or refused. -/
  | overrun (message : String)

namespace ClientState

def requestKey (payload : Value) : String := Sha256.hexDigest (Json.canonical payload)

def isPaused (c : ClientState) (now : Binary64) : Bool := c.disabledUntil.nonzero && now.lt c.disabledUntil

def hasKey (c : ClientState) : Bool := c.settings.key.truthy

def isAvailable (c : ClientState) (now : Binary64) : Bool := c.settings.enabled && c.hasKey && !c.isPaused now

def cached? (c : ClientState) (now : Binary64) (key : String) : Option Value × ClientState :=
  if c.settings.cacheEnabled then
    let (v, cache) := c.cache.get? now key
    (v, { c with cache })
  else (none, c)

def keep? (c : ClientState) (now : Binary64) (key : String) (answer : Value) : Option ClientState :=
  if c.settings.cacheEnabled then
    (now.addInt? c.settings.cacheLifetime).map fun expires =>
      { c with cache := c.cache.put c.settings.cacheCapacity.toNat ⟨key, expires, answer⟩ }
  else some c

def overflowMessage : String := "int too large to convert to float"

/-- Backoff times `2 ^ attempt`, unless that is too long. -/
def pause (s : ClientSettings) (refusal? : Binary64 → Option String) (attempt : Nat) : Except String Binary64 :=
  match Binary64.ofInt? (Int.ofNat (Nat.pow 2 attempt)) with
  | none => .error overflowMessage
  | some factor =>
    match refusal? (s.backoff.mul factor) with
    | some message => .error message
    | none => .ok (s.backoff.mul factor)

def nextResponse : List Response → Response × List Response
  | [] => (.lost "no response", [])
  | [r] => (r, [r])
  | r :: rs => (r, rs)

/-- The attempts of a call, until one of them ends it. -/
def tries (s : ClientSettings) (refusal? : Binary64 → Option String) :
    Nat → Nat → Option String → List Response → CallTrace → TryOutcome × CallTrace
  | 0, _, last, _, t => (.failed last, t)
  | left + 1, attempt, _, responses, t =>
    let (response, rest) := nextResponse responses
    let t := { t with posts := t.posts + 1 }
    match response.attempt s.url with
    | .success v => (.answered v, { t with answered := true })
    | .never m => (.failed (some m), t)
    | .again m =>
      if left > 0 && Binary64.zero.lt s.backoff then
        match pause s refusal? attempt with
        | .error message => (.overrun message, t)
        | .ok p => tries s refusal? left (attempt + 1) (some m) rest { t with pauses := t.pauses ++ [p] }
      else tries s refusal? left (attempt + 1) (some m) rest t

def pausedMessage : String := "Groq client temporarily disabled after repeated failures"

def overflow : CallFailure := .broken overflowMessage

/-- A failure counts, and enough of them in a row disable the client for a while. -/
def afterFailure (c : ClientState) (now : Binary64) (last : Option String) : CallFailure × ClientState :=
  let failures := c.failures + 1
  if c.settings.failureThreshold ≠ 0 ∧ c.settings.failureThreshold ≤ failures then
    match now.addInt? c.settings.cooldown with
    | some disabledUntil => (.disabled pausedMessage, { c with failures := 0, disabledUntil })
    | none => (overflow, { c with failures })
  else (.failed (last.getD "Unknown Groq request failure"), { c with failures })

/-- What attempts mean for the client. -/
def settle (c : ClientState) (now : Binary64) (key : String) : TryOutcome → Except CallFailure Value × ClientState
  | .answered v =>
    let c := { c with failures := 0, disabledUntil := .zero }
    match c.keep? now key v with
    | some c => (.ok v, c)
    | none => (.error overflow, c)
  | .failed last =>
    let (e, c) := c.afterFailure now last
    (.error e, c)
  | .overrun message => (.error (.broken message), c)

/-- A call: refused, answered from the cache, or tried. -/
def call (c : ClientState) (clock : CallClock) (payload : Value) (responses : List Response) :
    Except CallFailure Value × CallTrace × ClientState :=
  if !c.settings.enabled then (.error (.disabled "Groq client disabled by configuration"), {}, c)
  else if !c.hasKey then (.error (.disabled "Groq client disabled because GROQ_API_KEY is missing"), {}, c)
  else if c.isPaused clock.begun then (.error (.disabled pausedMessage), {}, c)
  else
    let key := requestKey payload
    let (found, c) := c.cached? clock.looked key
    match found.filter (!·.isNull) with
    | some v => (.ok v, {}, c)
    | none =>
      let attempts := (c.settings.maxRetries + 1).toNat
      let (outcome, t) := tries c.settings clock.refusal? attempts 0 none responses {}
      let (r, c) := c.settle (clock.ended t.pauses) key outcome
      (r, t, c)

end ClientState

end CodeAtlas
