import CodeAtlas.Settings.Environment

/-!
# The model service and its client

A service answers a request or fails. Where stub mode is on, no service is asked. The settings of a client say where it
calls and with which key, how often it tries again, when it gives up for a while, and how it keeps answers.
-/

namespace CodeAtlas

inductive CallFailure where
  | disabled (message : String)
  | failed (message : String)
  | broken (message : String)

/-- A service: whether it is switched on and has a key, and what it answers. -/
structure Service where
  enabled : Bool
  hasKey : Bool
  answer : Except CallFailure Value

namespace Service

def defaultModel : String := "meta-llama/llama-4-scout-17b-16e-instruct"

def isReady (s : Service) : Bool := s.enabled && s.hasKey

def content (answer : Value) : Loose Value := do
  let choices ← answer.getD "choices" (.list [.record []])
  let message ← (← choices.first).getD "message" (.record [])
  message.getD "content" (.text "")

end Service

/-- Whether a service is to be asked at all: a fixed choice and a setting. -/
structure StubMode where
  fixed : Bool
  setting : Option String

def StubMode.isOn (m : StubMode) : Bool :=
  match m.setting with
  | none => m.fixed
  | some s => Switch.isOn s

structure ClientSettings where
  enabled : Bool
  key : Value
  url : String
  timeout : Binary64
  maxRetries : Int
  backoff : Binary64
  failureThreshold : Int
  cooldown : Int
  cacheEnabled : Bool
  cacheLifetime : Int
  cacheCapacity : Int

namespace ClientSettings

def defaultUrl : String := "https://api.groq.com/openai/v1/chat/completions"

def half : String := "0.5"

def ofEnvironment (env : Environment) : Loose ClientSettings := do
  let timeoutText := ((env.nonempty? "GROQ_TIMEOUT_SECONDS").or (env.nonempty? "GROQ_TIMEOUT")).getD "120"
  let timeout ← Environment.floatOf timeoutText
  let retries ← env.int "GROQ_MAX_RETRIES" "2"
  let backoff ← env.float "GROQ_RETRY_BACKOFF" half
  let threshold ← env.int "GROQ_DISABLE_AFTER_FAILURES" "5"
  let cooldown ← env.int "GROQ_DISABLE_COOLDOWN" "300"
  let lifetime ← env.int "GROQ_CACHE_TTL" "900"
  let capacity ← env.int "GROQ_CACHE_MAX_ITEMS" "50"
  return {
    enabled := Switch.isOn (env.getD "GROQ_ENABLED" "true") && (env.nonempty? "GROQ_API_KEY").isSome
    key := ((env.get? "GROQ_API_KEY").map Value.text).getD .null
    url := env.getD "GROQ_API_URL" defaultUrl
    timeout := timeout.max2 (.ofInt 1)
    maxRetries := max retries 0
    backoff := backoff.max2 .zero
    failureThreshold := max threshold 0
    cooldown := max cooldown 0
    cacheEnabled := Switch.isOn (env.getD "GROQ_CACHE_ENABLED" "false")
    cacheLifetime := max lifetime 1
    cacheCapacity := max capacity 1 }

end ClientSettings

end CodeAtlas
