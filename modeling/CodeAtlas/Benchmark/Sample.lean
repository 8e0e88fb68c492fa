import CodeAtlas.Digest.Sha256
import CodeAtlas.Value.Display

/-!
# What a benchmark returns

A benchmark may return more kinds of values than documents hold: tuples, sets, octets, complex numbers, and objects
without any data.

* `Sample.quoted`, `Sample.display`: the text of a sample, texts with or without quotes;
* `Sample.serial`: a sample as octets. Equal data have equal octets: a tuple counts as a list, numbers count with six
  significant digits, members of sets and fields of records have a fixed order;
* `Sample.fingerprint`: the digest of those octets.
-/

namespace CodeAtlas

inductive Sample where
  | atom (a : Atom)
  | list (items : List Sample)
  | tuple (items : List Sample)
  | set (members : List Sample)
  | octets (changeable : Bool) (bytes : List Nat)
  | complex (re im : Binary64)
  | record (fields : List (Sample × Sample))
  | object
  deriving Inhabited

namespace Sample

def kindName : Sample → String
  | atom a => (Value.atom a).kindName
  | list _ => "list"
  | tuple _ => "tuple"
  | set _ => "set"
  | octets changeable _ => if changeable then "bytearray" else "bytes"
  | complex _ _ => "complex"
  | record _ => "dict"
  | object => "object"

def octetsText (bytes : List Nat) : String :=
  let shown := bytes.flatMap fun b =>
    if b = 92 then ['\\', '\\']
    else if b = 9 then ['\\', 't']
    else if b = 10 then ['\\', 'n']
    else if b = 13 then ['\\', 'r']
    else if b < 32 ∨ 127 ≤ b then '\\' :: 'x' :: hexText 2 b
    else [Char.ofNat b]
  "b'" ++ String.ofList shown ++ "'"

def partText (x : Binary64) : String :=
  let t := x.text
  if t.endsWith ".0" then (t.dropEnd 2).toString else t

def complexText (re im : Binary64) : String :=
  let i := partText im
  if re == Binary64.zero then i ++ "j"
  else "(" ++ partText re ++ (if i.startsWith "-" then i else "+" ++ i) ++ "j)"

mutual

def quotedText : Sample → String
  | atom a => a.quotedText
  | list xs => "[" ++ quotedItems xs ++ "]"
  | tuple [x] => "(" ++ quotedText x ++ ",)"
  | tuple xs => "(" ++ quotedItems xs ++ ")"
  | set [] => "set()"
  | set xs => "\x7b" ++ quotedItems xs ++ "\x7d"
  | octets false bs => octetsText bs
  | octets true bs => "bytearray(" ++ octetsText bs ++ ")"
  | complex re im => complexText re im
  | record fs => "\x7b" ++ quotedFields fs ++ "\x7d"
  | object => "<object object>"

def quotedItems : List Sample → String
  | [] => ""
  | [x] => quotedText x
  | x :: y :: r => quotedText x ++ ", " ++ quotedItems (y :: r)

def quotedFields : List (Sample × Sample) → String
  | [] => ""
  | [(k, v)] => quotedText k ++ ": " ++ quotedText v
  | (k, v) :: f :: r => quotedText k ++ ": " ++ quotedText v ++ ", " ++ quotedFields (f :: r)

end

def display : Sample → String
  | atom (.text s) => s
  | s => s.quotedText

def ascii (s : String) : List UInt8 := s.toUTF8.toList

def floatSerial (x : Binary64) : List UInt8 := ascii (x.significant 6).text

mutual

def serial : Sample → List UInt8
  | atom (.float x) => floatSerial x
  | atom (.text s) => ascii ("s" ++ s)
  | atom a => ascii a.quotedText
  | list xs => ascii ("L" ++ toString xs.length) ++ (serials xs).flatten
  | tuple xs => ascii ("L" ++ toString xs.length) ++ (serials xs).flatten
  | set xs =>
    let digests := (serials xs).map Sha256.hexOfOctets
    ascii ("S" ++ toString xs.length) ++
      (digests.mergeSort fun a b => decide (a ≤ b)).flatMap ascii
  | octets _ bs => ascii "s" ++ bs.map UInt8.ofNat
  | complex re im => ascii "c" ++ floatSerial re ++ floatSerial im
  | record fs =>
    ascii ("D" ++ toString fs.length) ++
      ((fieldSerials fs).mergeSort fun a b => decide (a.1 ≤ b.1)).flatMap (·.2)
  | object => ascii "<builtins.object>"

def serials : List Sample → List (List UInt8)
  | [] => []
  | x :: xs => serial x :: serials xs

def fieldSerials : List (Sample × Sample) → List (String × List UInt8)
  | [] => []
  | (k, v) :: fs => (quotedText k, serial k ++ serial v) :: fieldSerials fs

end

def fingerprint (s : Sample) : String := Sha256.hexOfOctets s.serial

mutual

def same : Sample → Sample → Bool
  | atom a, atom b => a.same b
  | list xs, list ys => sameItems xs ys
  | tuple xs, tuple ys => sameItems xs ys
  | octets _ xs, octets _ ys => xs == ys
  | complex a b, complex c d => a.eq c && b.eq d
  | _, _ => false

def sameItems : List Sample → List Sample → Bool
  | [], [] => true
  | x :: xs, y :: ys => same x y && sameItems xs ys
  | _, _ => false

end

def ofMembers (members : List Sample) : Sample :=
  .set (members.foldl (fun acc m => if acc.any (same · m) then acc else acc ++ [m]) [])

def putField (k v : Sample) : List (Sample × Sample) → List (Sample × Sample)
  | [] => [(k, v)]
  | f :: fs => if same f.1 k then (f.1, v) :: fs else f :: putField k v fs

def ofFields (fields : List (Sample × Sample)) : Sample :=
  .record (fields.foldl (fun acc f => putField f.1 f.2 acc) [])

def truthy : Sample → Bool
  | atom a => a.truthy
  | list xs => !xs.isEmpty
  | tuple xs => !xs.isEmpty
  | set xs => !xs.isEmpty
  | octets _ bs => !bs.isEmpty
  | complex re im => re.nonzero || im.nonzero
  | record fs => !fs.isEmpty
  | object => true

end Sample

end CodeAtlas
