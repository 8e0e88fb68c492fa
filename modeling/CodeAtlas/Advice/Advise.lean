import CodeAtlas.Advice.Question
import CodeAtlas.Value.JsonReader

/-!
# Advice about a repository

A counsellor asks a chat model about a repository and reads the document out of its reply. Without a key it says
nothing; what goes wrong on the way counts as nothing said.

* `Counsellor.advise`: the whole for each topic.
-/

namespace CodeAtlas

namespace Advice

def bracketed? (opening closing : Char) (s : List Char) : Option (List Char) :=
  match Chars.find? [opening] s, Chars.findLast? [closing] s with
  | some a, some b => some ((s.drop a).take (b + 1 - a))
  | _, _ => none

def documentIn (opening closing : Char) (default : Value) (reply : Value) : Loose Value := do
  let s ← reply.textFor "find"
  match bracketed? opening closing s.toList with
  | none => return default
  | some part =>
    match Json.parse (String.ofList part) with
    | .ok v => return v
    | .error _ => return default

def listIn (reply : Value) : Loose Value := documentIn '[' ']' (.list []) reply

def recordIn (reply : Value) : Loose Value := documentIn '\x7b' '\x7d' (.record []) reply

def marked (r : Value) : Loose Value :=
  match r with
  | .record fs => .ok (.record (Record.put (.text "source") (.text "ai-inferred") fs))
  | v => .error (.mismatch s!"'{v.kindName}' object does not support item assignment")

def relationsIn (reply : Value) : Loose Value := do
  return .list (← (← (← listIn reply).items).mapM marked)

end Advice

inductive Topic where
  | relations
  | patterns
  | refactoring
  | architecture
  deriving DecidableEq, Repr

/-- How a chat model behaves: it cannot be reached at all, it fails, or it replies. -/
inductive ChatModel where
  | absent
  | failing
  | replying (reply : String)

structure Counsellor where
  key : Value := .null
  model : Value := .text "gpt-4"
  chat : ChatModel

namespace Counsellor

def ask (c : Counsellor) (question : Value) : String × List Value :=
  if !c.key.truthy then ("", [])
  else match c.chat with
    | .absent => ("", [])
    | .failing => ("", [question])
    | .replying r => (r, [question])

def question (topic : Topic) (classes relations sources : Value) : Loose String := do
  match topic with
  | .relations => Advice.relationsQuestion (← Advice.relationsContext classes relations sources)
  | .patterns => Advice.patternsQuestion (← Advice.patternsContext classes relations)
  | .refactoring => Advice.refactoringQuestion (← Advice.refactoringContext classes relations)
  | .architecture => Advice.architectureQuestion (← Advice.architectureContext classes relations)

def readReply (topic : Topic) (reply : Value) : Loose Value :=
  match topic with
  | .relations => Advice.relationsIn reply
  | .patterns => Advice.listIn reply
  | .refactoring => Advice.listIn reply
  | .architecture => Advice.recordIn reply

def nothing : Topic → Value
  | .architecture => .record []
  | _ => .list []

/-- What a model says on a topic; nothing if it cannot be asked. -/
def advise (c : Counsellor) (topic : Topic) (classes relations sources : Value) : Value × List Value :=
  if !c.key.truthy then (nothing topic, [])
  else match question topic classes relations sources with
    | .error _ => (nothing topic, [])
    | .ok q =>
      let (reply, sent) := c.ask (.text q)
      match readReply topic (.text reply) with
      | .ok v => (v, sent)
      | .error _ => (nothing topic, sent)

end Counsellor

end CodeAtlas
