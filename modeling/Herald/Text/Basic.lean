namespace Herald.Text

/-- The characters with Unicode's `White_Space` property. -/
def isBlank (c : Char) : Bool :=
  let n := c.toNat
  (9 ≤ n && n ≤ 13) || n == 32 || n == 0x85 || n == 0xA0 || n == 0x1680 ||
    (0x2000 ≤ n && n ≤ 0x200A) || n == 0x2028 || n == 0x2029 || n == 0x202F || n == 0x205F ||
    n == 0x3000

def trim (cs : List Char) : List Char :=
  ((cs.dropWhile isBlank).reverse.dropWhile isBlank).reverse

def trimmed (s : String) : String := String.ofList (trim s.toList)

def isAsciiSpace (c : Char) : Bool :=
  c == ' ' || c == '\t' || c == '\n' || c == '\x0C' || c == '\r'

/-- The first run of characters other than white space, empty if the text starts with white space,
and the runs after it. -/
def firstField : List Char → List Char × List (List Char)
  | [] => ([], [])
  | c :: cs =>
    let (field, rest) := firstField cs
    if isAsciiSpace c then ([], if field.isEmpty then rest else field :: rest)
    else (c :: field, rest)

def fields (cs : List Char) : List (List Char) :=
  let (field, rest) := firstField cs
  if field.isEmpty then rest else field :: rest

def splitOn? (sep : List Char) : List Char → Option (List Char × List Char)
  | [] => if sep.isEmpty then some ([], []) else none
  | c :: cs =>
    if sep.isPrefixOf (c :: cs) then some ([], (c :: cs).drop sep.length)
    else (splitOn? sep cs).map fun (before, after) ↦ (c :: before, after)

def splitFirst? (sep : Char) (cs : List Char) : Option (List Char × List Char) :=
  splitOn? [sep] cs

def splitLast? (sep : Char) : List Char → Option (List Char × List Char)
  | [] => none
  | c :: cs =>
    match splitLast? sep cs with
    | some (before, after) => some (c :: before, after)
    | none => if c = sep then some ([], cs) else none

/-- The number that digits write after those of `n`, if it is below `bound`. Since it only grows,
the first digit that takes it out of bounds decides. -/
def valueFrom? (bound n : Nat) : List Char → Option Nat
  | [] => some n
  | c :: cs =>
    let m := 10 * n + (c.toNat - 48)
    if m < bound then valueFrom? bound m cs else none

def digits? (bound : Nat) (cs : List Char) : Option Nat :=
  if cs.isEmpty || !cs.all Char.isDigit then none else valueFrom? bound 0 cs

def unsigned? (bound : Nat) : List Char → Option Nat
  | '+' :: cs => digits? bound cs
  | cs => digits? bound cs

def hex (n : Nat) : String := String.ofList (Nat.toDigits 16 n)

end Herald.Text
