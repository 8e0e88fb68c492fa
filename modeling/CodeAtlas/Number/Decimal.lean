import CodeAtlas.Number.Binary64

/-!
# Decimal text of binary numbers
-/

namespace CodeAtlas.Binary64

/-- The reals that round to `m * 2 ^ q`, all over the common denominator: lower end, number, upper end,
denominator. Below a power of two the grid is twice as fine. -/
structure Span where
  low : Nat
  mid : Nat
  high : Nat
  den : Nat
  /-- The ends themselves round to the number too. -/
  closed : Bool

def span (m : Nat) (q : Int) : Span :=
  let fine : Bool := m = Nat.pow 2 52 && decide (q > -1074)
  let s := scale 1 1 (q - 2)
  { low := (4 * m - (if fine then 1 else 2)) * s.1
    mid := 4 * m * s.1
    high := (4 * m + 2) * s.1
    den := s.2
    closed := m % 2 = 0 }

def Span.holds (s : Span) (c : Nat) (e : Int) : Bool :=
  let v : Nat × Nat := match e with
    | .ofNat k => (c * Nat.pow 10 k * s.den, 1)
    | .negSucc k => (c * s.den, Nat.pow 10 (k + 1))
  if s.closed then decide (s.low * v.2 ≤ v.1 ∧ v.1 ≤ s.high * v.2)
  else decide (s.low * v.2 < v.1 ∧ v.1 < s.high * v.2)

def Span.over (s : Span) (e : Int) : Nat × Nat :=
  match e with
  | .ofNat k => (s.mid, s.den * Nat.pow 10 k)
  | .negSucc k => (s.mid * Nat.pow 10 (k + 1), s.den)

def placeFrom : Nat → Int → Nat → Nat → Int
  | 0, k, _, _ => k
  | fuel + 1, k, n, d =>
    let below : Bool := match k with
      | .ofNat j => decide (n < d * Nat.pow 10 j)
      | .negSucc j => decide (n * Nat.pow 10 (j + 1) < d)
    if below then k else placeFrom fuel (k + 1) n d

def shortestFrom (s : Span) (k : Int) : Nat → Nat → Nat × Int
  | 0, n =>
    let e := k - n
    let v := s.over e
    (v.1 / v.2, e)
  | fuel + 1, n =>
    let e := k - n
    let v := s.over e
    let f := v.1 / v.2
    let r := v.1 % v.2
    match s.holds f e, s.holds (f + 1) e with
    | true, true => if 2 * r < v.2 ∨ (2 * r = v.2 ∧ f % 2 = 0) then (f, e) else (f + 1, e)
    | true, false => (f, e)
    | false, true => (f + 1, e)
    | false, false => shortestFrom s k fuel (n + 1)

def dropZeros : Nat → Nat → Int → Nat × Int
  | 0, c, e => (c, e)
  | fuel + 1, c, e => if c % 10 = 0 ∧ c ≠ 0 then dropZeros fuel (c / 10) (e + 1) else (c, e)

def shortest (m : Nat) (e : Int) : Nat × Int :=
  let g := grid m e
  let s := span g.1 g.2
  let k := placeFrom 700 (((e + (Nat.log2 m : Int)) * 3) / 10 - 2) s.mid s.den
  let p := shortestFrom s k 17 1
  dropZeros 20 p.1 p.2

def digitsOf (n : Nat) : List Char := Nat.toDigits 10 n

def exponentText (e : Int) : List Char :=
  let ds := digitsOf e.natAbs
  'e' :: (if e < 0 then '-' else '+') :: (if ds.length < 2 then '0' :: ds else ds)

def layout (c : Nat) (e : Int) : List Char :=
  let ds := digitsOf c
  let point : Int := ds.length + e
  if point ≤ -4 ∨ 16 < point then
    let mantissa := match ds with
      | [] => []
      | [d] => [d]
      | d :: r => d :: '.' :: r
    mantissa ++ exponentText (point - 1)
  else if point ≤ 0 then
    '0' :: '.' :: (List.replicate (-point).toNat '0' ++ ds)
  else if e ≥ 0 then
    ds ++ List.replicate e.toNat '0' ++ ['.', '0']
  else
    ds.take point.toNat ++ '.' :: ds.drop point.toNat

def text : Binary64 → String
  | nan => "nan"
  | infinite neg => if neg then "-inf" else "inf"
  | finite neg m e =>
    let body := if m = 0 then ['0', '.', '0'] else let p := shortest m e; layout p.1 p.2
    String.ofList (if neg then '-' :: body else body)

def splitPlaces (n places : Nat) : List Char :=
  let ds := digitsOf n
  let padded := List.replicate (places + 1 - ds.length) '0' ++ ds
  let whole := padded.take (padded.length - places)
  if places = 0 then whole else whole ++ '.' :: padded.drop (padded.length - places)

def fixed (places : Nat) : Binary64 → String
  | nan => "nan"
  | infinite neg => if neg then "-inf" else "inf"
  | finite neg m e =>
    let s := scale (m * Nat.pow 10 places) 1 e
    let body := splitPlaces (roundQuotient s.1 s.2) places
    String.ofList (if neg then '-' :: body else body)

/-! ### Rounding

A number is rounded to a decimal by its exact value, a half going to the even neighbour, and the result is the binary
number nearest to that decimal. -/

def roundTo (places : Nat) : Binary64 → Binary64
  | finite neg m e =>
    let s := scale (m * Nat.pow 10 places) 1 e
    ofDecimal neg (roundQuotient s.1 s.2) (-(places : Int))
  | x => x

def significant (digits : Nat) : Binary64 → Binary64
  | finite neg m e =>
    if m = 0 then zero
    else
      let g := grid m e
      let s := span g.1 g.2
      let k := placeFrom 700 (((e + (Nat.log2 m : Int)) * 3) / 10 - 2) s.mid s.den
      let v := s.over (k - digits)
      ofDecimal neg (roundQuotient v.1 v.2) (k - digits)
  | x => x

end CodeAtlas.Binary64
