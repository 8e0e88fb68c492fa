import CodeAtlas.Client.Settings
import CodeAtlas.Enrichment.Instructions
import CodeAtlas.Enrichment.Merge
import CodeAtlas.Value.JsonExtract

/-!
# Enriching a schema

A schema that was read from source text is sent to a model, and what the model answers is merged into it.

An answer that holds no schema changes nothing; one that cannot be merged takes the place of the schema.
-/

namespace CodeAtlas

inductive Enrichment where
  | schema (s : Value)
  | error (message : String)

namespace Enrichment

def toValue : Enrichment → Value
  | schema s => .ofFields [("schema", s)]
  | error m => .ofFields [("error", .text m)]

def request (model : String) (ast : Value) : Value :=
  let message := fun (role content : String) => Value.ofFields [("role", .text role), ("content", .text content)]
  .ofFields [("model", .text model),
    ("messages", .list [message "system" role,
      message "user" (instructions ++ "\n\n" ++ Json.write Json.plain ast)]),
    ("temperature", .float (.ofDecimal false 2 (-1)))]

def merged (ast ai : Value) : Value :=
  match Merge.schemas ast ai with
  | .ok s => s
  | .error _ => ai

def answered (ast answer : Value) : Loose Value := do
  let content ← Service.content answer
  let _ ← content.length
  let ai ← Json.extractFrom content
  return if ai.isRecord then merged ast ai else ast

/-- Enrich a schema, with the requests that were sent. -/
def enrich (service : Service) (stub : Bool) (model : String) (ast : Value) :
    Except CallFailure Enrichment × List Value :=
  if stub || !service.isReady then (.ok (schema ast), [])
  else
    let sent := [request model ast]
    match service.answer with
    | .error (.disabled _) => (.ok (schema ast), sent)
    | .error (.failed m) => (.ok (error m), sent)
    | .error (.broken m) => (.error (.broken m), sent)
    | .ok answer =>
      match answered ast answer with
      | .ok s => (.ok (schema s), sent)
      | .error e => (.ok (error e.message), sent)

end Enrichment

end CodeAtlas
