namespace Herald

abbrev Bytes := List UInt8

namespace Bytes

def ofString (s : String) : Bytes := s.toUTF8.data.toList

def repeated (n : Nat) (bs : Bytes) : Bytes := (List.replicate n bs).flatten

/-- Space, tab, line feed, form feed and carriage return. The vertical tab is not among them. -/
def isSpace (b : UInt8) : Bool := b == 32 || b == 9 || b == 10 || b == 12 || b == 13

def isBlank (bs : Bytes) : Bool := bs.all isSpace

def crlf : Bytes := [13, 10]

def lineLength? : Bytes → Option Nat
  | 13 :: 10 :: _ => some 0
  | _ :: bs => (lineLength? bs).map (· + 1)
  | [] => none

def splitToken (bs : Bytes) : Bytes × Bytes := bs.span (!isSpace ·)

end Bytes

end Herald
