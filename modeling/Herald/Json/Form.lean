namespace Herald.Json

/-- A piece of a string as written: a character, or sixteen bits given by an escape. -/
inductive Piece
  | char (c : Char)
  | unit (n : Nat)
deriving DecidableEq, Repr

structure Numeral where
  negative : Bool
  whole : List Char
  fraction : List Char
  exponent : Option (Bool × List Char)
deriving DecidableEq, Repr

/-- A JSON value as written, whatever its numbers and escapes come to. -/
inductive Form
  | null
  | bool (value : Bool)
  | num (value : Numeral)
  | str (value : List Piece)
  | arr (elements : List Form)
  | obj (members : List (List Piece × Form))
deriving Repr

namespace Form

def isSpace (c : Char) : Bool := c == ' ' || c == '\t' || c == '\n' || c == '\r'

def skip (cs : List Char) : List Char := cs.dropWhile isSpace

def hexDigit? (c : Char) : Option Nat :=
  if c.isDigit then some (c.toNat - 48)
  else if 'a' ≤ c ∧ c ≤ 'f' then some (c.toNat - 87)
  else if 'A' ≤ c ∧ c ≤ 'F' then some (c.toNat - 55)
  else none

def unit? (a b c d : Char) : Option Nat := do
  let a ← hexDigit? a
  let b ← hexDigit? b
  let c ← hexDigit? c
  let d ← hexDigit? d
  some (((a * 16 + b) * 16 + c) * 16 + d)

def escape? (c : Char) : Option Char :=
  if c == '"' || c == '\\' || c == '/' then some c
  else if c == 'b' then some '\x08'
  else if c == 'f' then some '\x0C'
  else if c == 'n' then some '\n'
  else if c == 'r' then some '\r'
  else if c == 't' then some '\t'
  else none

def readString : List Char → Option (List Piece × List Char)
  | [] => none
  | '"' :: cs => some ([], cs)
  | '\\' :: 'u' :: a :: b :: c :: d :: cs =>
    match unit? a b c d, readString cs with
    | some n, some (ps, rest) => some (.unit n :: ps, rest)
    | _, _ => none
  | '\\' :: c :: cs =>
    match escape? c, readString cs with
    | some e, some (ps, rest) => some (.char e :: ps, rest)
    | _, _ => none
  | c :: cs =>
    if c.toNat < 32 ∨ c = '\\' then none
    else (readString cs).map fun (ps, rest) ↦ (.char c :: ps, rest)

def readFraction : List Char → Option (List Char × List Char)
  | '.' :: cs => if (cs.span Char.isDigit).1.isEmpty then none else some (cs.span Char.isDigit)
  | cs => some ([], cs)

def readExponent (cs : List Char) : Option (Option (Bool × List Char) × List Char) :=
  let digits (negative : Bool) (cs : List Char) :=
    let (ds, rest) := cs.span Char.isDigit
    if ds.isEmpty then none else some (some (negative, ds), rest)
  match cs with
  | 'e' :: '-' :: cs | 'E' :: '-' :: cs => digits true cs
  | 'e' :: '+' :: cs | 'E' :: '+' :: cs => digits false cs
  | 'e' :: cs | 'E' :: cs => digits false cs
  | cs => some (none, cs)

def readUnsigned (negative : Bool) (cs : List Char) : Option (Numeral × List Char) :=
  let (whole, cs) := cs.span Char.isDigit
  if whole.isEmpty || (whole.head? == some '0' && whole.length != 1) then none
  else
    (readFraction cs).bind fun (fraction, cs) ↦
      (readExponent cs).map fun (exponent, cs) ↦ (⟨negative, whole, fraction, exponent⟩, cs)

def readNumeral : List Char → Option (Numeral × List Char)
  | '-' :: cs => readUnsigned true cs
  | cs => readUnsigned false cs

mutual

/-- Reads a value after any blanks. The fuel bounds the nesting and the number of elements. -/
def readValue : Nat → List Char → Option (Form × List Char)
  | 0, _ => none
  | fuel + 1, cs =>
    match skip cs with
    | '\x7b' :: cs =>
      match skip cs with
      | '\x7d' :: cs => some (.obj [], cs)
      | cs => (readMembers fuel cs).map fun (ms, cs) ↦ (.obj ms, cs)
    | '[' :: cs =>
      match skip cs with
      | ']' :: cs => some (.arr [], cs)
      | cs => (readElements fuel cs).map fun (xs, cs) ↦ (.arr xs, cs)
    | '"' :: cs => (readString cs).map fun (ps, cs) ↦ (.str ps, cs)
    | 'n' :: 'u' :: 'l' :: 'l' :: cs => some (.null, cs)
    | 't' :: 'r' :: 'u' :: 'e' :: cs => some (.bool true, cs)
    | 'f' :: 'a' :: 'l' :: 's' :: 'e' :: cs => some (.bool false, cs)
    | cs => (readNumeral cs).map fun (n, cs) ↦ (.num n, cs)

def readElements : Nat → List Char → Option (List Form × List Char)
  | 0, _ => none
  | fuel + 1, cs =>
    match readValue fuel cs with
    | none => none
    | some (x, cs) =>
      match skip cs with
      | ',' :: cs => (readElements fuel cs).map fun (xs, cs) ↦ (x :: xs, cs)
      | ']' :: cs => some ([x], cs)
      | _ => none

def readMembers : Nat → List Char → Option (List (List Piece × Form) × List Char)
  | 0, _ => none
  | fuel + 1, cs =>
    match skip cs with
    | '"' :: cs =>
      match readString cs with
      | none => none
      | some (key, cs) =>
        match skip cs with
        | ':' :: cs =>
          match readValue fuel cs with
          | none => none
          | some (x, cs) =>
            match skip cs with
            | ',' :: cs => (readMembers fuel cs).map fun (ms, cs) ↦ ((key, x) :: ms, cs)
            | '\x7d' :: cs => some ([(key, x)], cs)
            | _ => none
        | _ => none
    | _ => none

end

def parse? (s : String) : Option Form :=
  match readValue (2 * s.length + 2) s.toList with
  | some (form, rest) => if (skip rest).isEmpty then some form else none
  | none => none

end Form

end Herald.Json
