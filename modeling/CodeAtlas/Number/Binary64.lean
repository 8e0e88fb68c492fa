/-!
# Binary floating-point numbers, exactly

A number of the 64-bit binary format is kept as a sign, an odd significand and a power of two, so that
two finite numbers other than zero are equal exactly when their representations are. All arithmetic is
exact arithmetic on naturals followed by one rounding.

* `roundQuotient n d`: the natural nearest to `n / d`, a half going to the even neighbour;
* `Binary64.add`, `Binary64.mul`, `Binary64.div`: the exact result, rounded once.
-/

namespace CodeAtlas

def roundQuotient (n d : Nat) : Nat :=
  let q := n / d
  let r := n % d
  if 2 * r < d then q
  else if d < 2 * r then q + 1
  else if q % 2 = 0 then q else q + 1

/-- A number of the 64-bit binary format. A finite number is `mant * 2 ^ exp`, negated when `neg`
holds; `mant` is odd, or zero together with `exp`. -/
inductive Binary64 where
  | finite (neg : Bool) (mant : Nat) (exp : Int)
  | infinite (neg : Bool)
  | nan
  deriving DecidableEq, Repr, Inhabited

namespace Binary64

def oddPart : Nat → Nat → Int → Nat × Int
  | 0, m, e => (m, e)
  | fuel + 1, m, e => if m % 2 = 0 then oddPart fuel (m / 2) (e + 1) else (m, e)

def normal (neg : Bool) (m : Nat) (e : Int) : Binary64 :=
  if m = 0 then finite neg 0 0
  else
    let p := oddPart (Nat.log2 m + 1) m e
    finite neg p.1 p.2

def zero : Binary64 := finite false 0 0

def scale (n d : Nat) (e : Int) : Nat × Nat :=
  match e with
  | .ofNat k => (n * Nat.pow 2 k, d)
  | .negSucc k => (n, d * Nat.pow 2 (k + 1))

def ratioExponent (n d : Nat) : Int :=
  let b : Int := (Nat.log2 n : Int) - (Nat.log2 d : Int)
  let s := scale d n b
  if s.1 ≤ s.2 then b else b - 1

def ofRatio (neg : Bool) (n d : Nat) : Binary64 :=
  if n = 0 then finite neg 0 0
  else
    let q := max (ratioExponent n d - 52) (-1074)
    let s := scale n d (-q)
    let m := roundQuotient s.1 s.2
    if (Nat.log2 m : Int) + q ≥ 1024 then infinite neg
    else normal neg m q

def ofInt (i : Int) : Binary64 := ofRatio (i < 0) i.natAbs 1

def ofInt? (i : Int) : Option Binary64 :=
  match ofInt i with
  | infinite _ => none
  | x => some x

def ofDyadic (neg : Bool) (m : Nat) (e : Int) : Binary64 :=
  let s := scale m 1 e
  ofRatio neg s.1 s.2

def ofDecimal (neg : Bool) (digits : Nat) (e : Int) : Binary64 :=
  if digits = 0 then finite neg 0 0
  else if e > 400 then infinite neg
  else if e + (Nat.log2 digits : Int) < -1500 then finite neg 0 0
  else match e with
    | .ofNat k => ofRatio neg (digits * Nat.pow 10 k) 1
    | .negSucc k => ofRatio neg digits (Nat.pow 10 (k + 1))

def signed (neg : Bool) (m : Nat) : Int := if neg then -(m : Int) else (m : Int)

def add : Binary64 → Binary64 → Binary64
  | nan, _ => nan
  | _, nan => nan
  | infinite a, infinite b => if a = b then infinite a else nan
  | infinite a, finite _ _ _ => infinite a
  | finite _ _ _, infinite b => infinite b
  | finite a m e, finite b n f =>
    if m = 0 ∧ n = 0 then finite (a && b) 0 0
    else
      let g := min e f
      let t := signed a (m * Nat.pow 2 (e - g).toNat) + signed b (n * Nat.pow 2 (f - g).toNat)
      if t = 0 then zero else ofDyadic (t < 0) t.natAbs g

def addInt? (x : Binary64) (i : Int) : Option Binary64 := (ofInt? i).map x.add

def mul : Binary64 → Binary64 → Binary64
  | nan, _ => nan
  | _, nan => nan
  | infinite a, infinite b => infinite (a != b)
  | infinite a, finite b n _ => if n = 0 then nan else infinite (a != b)
  | finite a m _, infinite b => if m = 0 then nan else infinite (a != b)
  | finite a m e, finite b n f =>
    if m * n = 0 then finite (a != b) 0 0 else ofDyadic (a != b) (m * n) (e + f)

def div? : Binary64 → Binary64 → Option Binary64
  | nan, finite _ n _ => if n = 0 then none else some nan
  | nan, _ => some nan
  | _, nan => some nan
  | infinite _, infinite _ => some nan
  | infinite a, finite b n _ => if n = 0 then none else some (infinite (a != b))
  | finite a _ _, infinite b => some (finite (a != b) 0 0)
  | finite a m e, finite b n f =>
    if n = 0 then none
    else if m = 0 then some (finite (a != b) 0 0)
    else
      let s := scale m n (e - f)
      some (ofRatio (a != b) s.1 s.2)

def negate : Binary64 → Binary64
  | nan => nan
  | infinite a => infinite (!a)
  | finite a m e => finite (!a) m e

def compareFinite (a : Bool) (m : Nat) (e : Int) (b : Bool) (n : Nat) (f : Int) : Ordering :=
  let g := min e f
  compare (signed a (m * Nat.pow 2 (e - g).toNat)) (signed b (n * Nat.pow 2 (f - g).toNat))

def compare? : Binary64 → Binary64 → Option Ordering
  | nan, _ => none
  | _, nan => none
  | infinite a, infinite b => some (if a = b then .eq else if a then .lt else .gt)
  | infinite a, finite _ _ _ => some (if a then .lt else .gt)
  | finite _ _ _, infinite b => some (if b then .gt else .lt)
  | finite a m e, finite b n f => some (compareFinite a m e b n f)

def compareInt? (i : Int) : Binary64 → Option Ordering
  | nan => none
  | infinite b => some (if b then .gt else .lt)
  | finite b n f => some (compareFinite (i < 0) i.natAbs 0 b n f)

def eq (x y : Binary64) : Bool := compare? x y == some .eq

def lt (x y : Binary64) : Bool := compare? x y == some .lt

def le (x y : Binary64) : Bool := lt x y || eq x y

def max2 (x y : Binary64) : Binary64 := if lt x y then y else x

def nonzero : Binary64 → Bool
  | finite _ m _ => m != 0
  | _ => true

def grid (m : Nat) (e : Int) : Nat × Int :=
  let q := max (e + (Nat.log2 m : Int) - 52) (-1074)
  (m * Nat.pow 2 (e - q).toNat, q)

end Binary64

end CodeAtlas
