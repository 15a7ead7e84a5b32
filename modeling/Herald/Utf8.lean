import Herald.Bytes

namespace Herald.Utf8

/-- Where the decoder stands: between characters, or inside one whose octets so far give `code`,
which still owes `owed` octets, the next of them between `low` and `high`. -/
inductive Position
  | start
  | inside (code owed low high : Nat)

/-- An octet read between characters. What it settles is a list: a character, `none` for an octet
that starts no character, or nothing yet. -/
def first (b : UInt8) : List (Option Char) × Position :=
  let n := b.toNat
  if n < 0x80 then ([some (Char.ofNat n)], .start)
  else if n < 0xC2 then ([none], .start)
  else if n ≤ 0xDF then ([], .inside (n - 0xC0) 1 0x80 0xBF)
  else if n = 0xE0 then ([], .inside 0 2 0xA0 0xBF)
  else if n = 0xED then ([], .inside 0xD 2 0x80 0x9F)
  else if n ≤ 0xEF then ([], .inside (n - 0xE0) 2 0x80 0xBF)
  else if n = 0xF0 then ([], .inside 0 3 0x90 0xBF)
  else if n ≤ 0xF3 then ([], .inside (n - 0xF0) 3 0x80 0xBF)
  else if n = 0xF4 then ([], .inside 4 3 0x80 0x8F)
  else ([none], .start)

/-- An octet that cannot continue the character begun ends it as one ill-formed run, and is then
read afresh. -/
def step : Position → UInt8 → List (Option Char) × Position
  | .start, b => first b
  | .inside code owed low high, b =>
    if low ≤ b.toNat ∧ b.toNat ≤ high then
      let code := code * 64 + (b.toNat - 0x80)
      if owed = 1 then ([some (Char.ofNat code)], .start)
      else ([], .inside code (owed - 1) 0x80 0xBF)
    else (none :: (first b).1, (first b).2)

def decodeFrom : Position → Bytes → List (Option Char)
  | .start, [] => []
  | .inside .., [] => [none]
  | p, b :: bs => (step p b).1 ++ decodeFrom (step p b).2 bs

/-- The characters of a run of octets, with `none` for each longest ill-formed run: the octets
that begin a character as far as they can. -/
def decode (bs : Bytes) : List (Option Char) := decodeFrom .start bs

def decode? (bs : Bytes) : Option String := ((decode bs).mapM id).map String.ofList

def decodeLossy (bs : Bytes) : String :=
  String.ofList ((decode bs).map (·.getD '\uFFFD'))

end Herald.Utf8
