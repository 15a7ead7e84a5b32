import Herald.Json.Basic
import Herald.Json.Form
import Herald.Text.Basic

namespace Herald.Json

/-- The characters that the pieces of a string come to. Two escapes may give one character beyond
the basic plane; half of such a pair has no value. -/
def pieces? : List Piece → Option (List Char)
  | [] => some []
  | .char c :: ps => (pieces? ps).map (c :: ·)
  | .unit h :: .unit l :: ps =>
    if 0xD800 ≤ h ∧ h < 0xDC00 then
      if 0xDC00 ≤ l ∧ l < 0xE000 then
        (pieces? ps).map (Char.ofNat (0x10000 + (h - 0xD800) * 0x400 + (l - 0xDC00)) :: ·)
      else none
    else if 0xDC00 ≤ h ∧ h < 0xE000 then none
    else (pieces? (.unit l :: ps)).map (Char.ofNat h :: ·)
  | .unit n :: ps =>
    if 0xD800 ≤ n ∧ n < 0xE000 then none else (pieces? ps).map (Char.ofNat n :: ·)

def string? (ps : List Piece) : Option String := (pieces? ps).map String.ofList

namespace Numeral

def accumulate (n : Nat) : List Char → Nat × List Char
  | [] => (n, [])
  | c :: cs =>
    let m := 10 * n + (c.toNat - 48)
    if m < UInt64.size then accumulate m cs else (n, c :: cs)

/-- The leading digits that fit sixty-four bits, and the power of ten that they are to be scaled
by. An exponent beyond sixty-four bits counts as the next one, which is out of every range. -/
def scaled (n : Numeral) : Nat × Int :=
  let (m, dropped) := accumulate 0 n.whole
  let (m', unused) := accumulate m n.fraction
  let size (ds : List Char) : Int := (Text.valueFrom? UInt64.size 0 ds).getD UInt64.size
  let exponent : Int := match n.exponent with
    | none => 0
    | some (true, ds) => -size ds
    | some (false, ds) => size ds
  (m', dropped.length - (n.fraction.length - unused.length : Nat) + exponent)

def double? (n : Numeral) : Option Binary64 :=
  let (m, exponent) := n.scaled
  ((Binary64.ofRatio m 1).scale exponent).map fun x ↦ if n.negative then x.neg else x

/-- A number without fraction or exponent is whole, if it is in range and not a negative zero.
Every other number is a double, which has to be finite. -/
def number? (n : Numeral) : Option Number :=
  let whole := if n.fraction.isEmpty && n.exponent.isNone then
    Text.valueFrom? UInt64.size 0 n.whole else none
  match whole with
  | none => n.double?.map .double
  | some m =>
    if !n.negative then some (.int m)
    else if 0 < m && 2 * m ≤ UInt64.size then some (.int (-m))
    else n.double?.map .double

end Numeral

mutual

/-- The value of a form whose arrays and objects nest at most `depth` levels deep. In an object
the last member with a key counts. -/
def ofForm? : Nat → Form → Option Json
  | _, .null => some .null
  | _, .bool b => some (.bool b)
  | _, .num n => n.number?.map .num
  | _, .str ps => (string? ps).map .str
  | 0, .arr _ => none
  | depth + 1, .arr xs => (ofElements? depth xs).map .arr
  | 0, .obj _ => none
  | depth + 1, .obj ms => (ofMembers? depth ms []).map .obj

def ofElements? : Nat → List Form → Option (List Json)
  | _, [] => some []
  | depth, x :: xs =>
    match ofForm? depth x, ofElements? depth xs with
    | some y, some ys => some (y :: ys)
    | _, _ => none

def ofMembers? : Nat → List (List Piece × Form) → Members → Option Members
  | _, [], done => some done
  | depth, (ps, x) :: ms, done =>
    match string? ps, ofForm? depth x with
    | some key, some value => ofMembers? depth ms (done.insert key value)
    | _, _ => none

end

def maxDepth : Nat := 127

def parse? (s : String) : Option Json := (Form.parse? s).bind (ofForm? maxDepth)

end Herald.Json
