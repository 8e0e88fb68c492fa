import CodeAtlas.Settings.Environment

/-!
# Limits of an analysis

The limits come from settings, each cut to a safe range. If one of them is no number, all have their defaults.
-/

namespace CodeAtlas

structure SafeLimits where
  maxFiles : Int := 5000
  maxBytes : Int := 500000
  cloneDepth : Int := 1
  timeout : Int := 300
  deriving DecidableEq, Repr

namespace SafeLimits

def asked (env : Environment) : Loose SafeLimits := do
  let files ← env.int "MAX_FILES" "5000"
  let bytes ← env.int "MAX_FILE_BYTES" "500000"
  let depth ← env.int "GIT_CLONE_DEPTH" "1"
  let timeout ← env.int "ANALYZE_TIMEOUT" "300"
  return { maxFiles := min files 10000, maxBytes := min bytes 2000000, cloneDepth := max 1 (min depth 10),
           timeout := min timeout 600 }

def ofEnvironment (env : Environment) : SafeLimits :=
  match asked env with
  | .ok l => l
  | .error _ => {}

def toValue (l : SafeLimits) : Value :=
  .ofFields [("max_files", .int l.maxFiles), ("max_bytes", .int l.maxBytes), ("clone_depth", .int l.cloneDepth),
    ("timeout", .int l.timeout)]

end SafeLimits

end CodeAtlas
