/-!
# Reading a list of tokens

A reader takes tokens off the front of a list and gives a result, or fails and takes nothing. Readers are
combined with `do` and with `<|>`, which tries its second side on the same tokens when the first one fails.
-/

namespace CodeAtlas

abbrev Reader (τ : Type) := StateT (List τ) Option

namespace Reader

variable {τ α β : Type}

def next (f : τ → Option α) : Reader τ α := fun ts =>
  match ts with
  | t :: rest => (f t).map fun a => (a, rest)
  | [] => none

def ahead (p : τ → Bool) : Reader τ Bool := fun ts =>
  some ((ts.head?.map p).getD false, ts)

def ahead2 (p : τ → Bool) : Reader τ Bool := fun ts =>
  some ((ts[1]?.map p).getD false, ts)

def peek? : Reader τ (Option τ) := fun ts => some (ts.head?, ts)

def fail : Reader τ α := fun _ => none

def require (b : Bool) : Reader τ Unit := if b then pure () else fail

def option (r : Reader τ α) : Reader τ (Option α) := (some <$> r) <|> pure none

def manyUpTo (r : Reader τ α) : Nat → Reader τ (List α)
  | 0 => pure []
  | n + 1 => fun ts =>
    match r ts with
    | none => some ([], ts)
    | some (a, rest) => (manyUpTo r n rest).map fun p => (a :: p.1, p.2)

def many (r : Reader τ α) : Reader τ (List α) := fun ts => manyUpTo r ts.length ts

def some1 (r : Reader τ α) : Reader τ (List α) := do
  let a ← r
  let as ← many r
  return a :: as

def sepBy (r : Reader τ α) (sep : Reader τ β) : Reader τ (List α) := do
  let a ← r
  let as ← many (do let _ ← sep; r)
  return a :: as

def whileUpTo (p : τ → Bool) (r : Reader τ α) : Nat → Reader τ (List α)
  | 0 => fail
  | n + 1 => do
    if ← ahead p then
      let a ← r
      let as ← whileUpTo p r n
      return a :: as
    else return []

def whileAhead (p : τ → Bool) (r : Reader τ α) : Reader τ (List α) := fun ts =>
  whileUpTo p r (ts.length + 1) ts

def accept (r : Reader τ Unit) : Reader τ Bool := (do r; return true) <|> pure false

def acceptIf (b : Bool) (r : Reader τ Unit) : Reader τ Bool := if b then accept r else pure false

end Reader

end CodeAtlas
