import CodeAtlas.Settings.Environment

/-!
# Reports of failures

A failure has a kind, which fixes the status that is answered, a message and details. What goes wrong for other
causes becomes a failure with a fixed message.

What is written down about a failure has a field for the message. Its name is one that a record of the log keeps
for itself, so that this cannot be done for a failure that was raised on purpose.
-/

namespace CodeAtlas

inductive FailureKind where
  | validation
  | notFound
  | timeout
  | payloadTooLarge
  | externalService
  | internal
  | security
  | resourceLimit
  deriving DecidableEq, Repr

namespace FailureKind

def all : List FailureKind :=
  [validation, notFound, timeout, payloadTooLarge, externalService, internal, security, resourceLimit]

def name : FailureKind → String
  | validation => "VALIDATION"
  | notFound => "NOT_FOUND"
  | timeout => "TIMEOUT"
  | payloadTooLarge => "PAYLOAD_TOO_LARGE"
  | externalService => "EXTERNAL_SERVICE"
  | internal => "INTERNAL"
  | security => "SECURITY"
  | resourceLimit => "RESOURCE_LIMIT"

def ofName? (s : String) : Option FailureKind := all.find? (·.name == s)

def status : FailureKind → Nat
  | validation => 400
  | notFound => 404
  | timeout => 408
  | payloadTooLarge => 413
  | externalService => 502
  | internal => 500
  | security => 403
  | resourceLimit => 413

end FailureKind

structure Failure where
  message : Value
  kind : FailureKind := .internal
  details : Value := .record []

/-- What went wrong when nobody raised a failure on purpose. -/
inductive Mishap where
  | resource
  | memory
  | input
  | other
  deriving DecidableEq, Repr

def Mishap.failure : Mishap → Failure
  | resource => ⟨.text "Resource not found", .notFound, .record []⟩
  | memory => ⟨.text "Insufficient memory", .resourceLimit, .record []⟩
  | input => ⟨.text "Invalid input data", .validation, .record []⟩
  | other => ⟨.text "Internal server error", .internal, .record []⟩

inductive Problem where
  | raised (f : Failure)
  | mishap (m : Mishap)

def Problem.failure : Problem → Failure
  | raised f => f
  | mishap m => m.failure

namespace Failure

def inProduction (env : Environment) : Bool :=
  env.get? "FLASK_ENV" == some "production" || env.get? "ENVIRONMENT" == some "production"

def body (f : Failure) (production : Bool) (requestId : Value) : Value :=
  let message := if production && f.kind == .internal then .text "Internal server error" else f.message
  .ofFields [("success", .bool false), ("error", .ofFields ([("message", message), ("type", .text f.kind.name)] ++
    (if f.details.truthy && !production then [("details", f.details)] else []) ++
    (if requestId.truthy then [("requestId", requestId)] else [])))]

def detail (name : String) (v : Value) : Value := if v.truthy then .ofFields [(name, v)] else .record []

def ofValidation (message field : Value) : Failure := ⟨message, .validation, detail "field" field⟩

def ofSecurity (message threat : Value) : Failure := ⟨message, .security, detail "threat_type" threat⟩

def ofTimeout (operation seconds : Value) : Failure :=
  ⟨.text (operation.display ++ " timed out"), .timeout, detail "timeout_seconds" seconds⟩

def ofResourceLimit (resource limit : Value) : Failure :=
  ⟨.text (resource.display ++ " limit exceeded"), .resourceLimit, detail "limit" limit⟩

def ofExternalService (service : Value) : Failure :=
  ⟨.text (service.display ++ " service unavailable"), .externalService, .record []⟩

end Failure

def Problem.record (p : Problem) (logging : Bool) : Loose Unit :=
  match p with
  | .raised _ => if logging then .error (.reservedField "message") else .ok ()
  | .mishap _ => .ok ()

def Problem.handle (p : Problem) (logging : Bool) (env : Environment) : Loose (Value × Nat) := do
  p.record logging
  return (p.failure.body (Failure.inProduction env) .null, p.failure.kind.status)

end CodeAtlas
