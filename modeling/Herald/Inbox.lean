import Herald.Bytes

namespace Herald.Inbox

def stem : String := "_INBOX."

def digitCount : Nat := 26

/-- The inbox with a number. Two numbers below `16 ^ 26` give two inboxes. -/
def name (n : Nat) : String :=
  stem ++ String.ofList
    ((List.range digitCount).reverse.map fun i ↦ Nat.digitChar ((n >>> (4 * i)) % 16))

def isHexDigit (c : Char) : Bool := c.isDigit || ('a' ≤ c && c ≤ 'f')

def isShaped (s : String) : Bool :=
  stem.toList.isPrefixOf s.toList &&
    (s.toList.drop stem.length).length == digitCount &&
    (s.toList.drop stem.length).all isHexDigit

def label (n : Nat) : String := "\x7binbox" ++ toString (n + 1) ++ "\x7d"

/-- Writes labels in place of the inboxes among `known`, in the order in which they are seen after
those in `seen`. The first `skip` octets belong to an inbox that has its label already. -/
def relabelFrom (known : List Bytes) (seen : List Bytes) (skip : Nat) :
    Bytes → Bytes × List Bytes
  | [] => ([], seen)
  | b :: bs =>
    match skip with
    | skip + 1 => relabelFrom known seen skip bs
    | 0 =>
      match known.find? (·.isPrefixOf (b :: bs)) with
      | none =>
        let (out, seen) := relabelFrom known seen 0 bs
        (b :: out, seen)
      | some inbox =>
        let seen := if seen.contains inbox then seen else seen ++ [inbox]
        let (out, seen') := relabelFrom known seen (inbox.length - 1) bs
        (Bytes.ofString (label (seen.idxOf inbox)) ++ out, seen')

def relabel (known seen : List Bytes) (bs : Bytes) : Bytes × List Bytes :=
  relabelFrom known seen 0 bs

end Herald.Inbox
