import Herald.Json.Basic
import Herald.Text.Basic

namespace Herald.Json

def escapeChar (c : Char) : List Char :=
  if c == '"' || c == '\\' then ['\\', c]
  else if c == '\x08' then ['\\', 'b']
  else if c == '\t' then ['\\', 't']
  else if c == '\n' then ['\\', 'n']
  else if c == '\x0C' then ['\\', 'f']
  else if c == '\r' then ['\\', 'r']
  else if c.toNat < 32 then
    ['\\', 'u', '0', '0', Nat.digitChar (c.toNat / 16), Nat.digitChar (c.toNat % 16)]
  else [c]

def quote (s : String) : List Char := '"' :: s.toList.flatMap escapeChar ++ ['"']

def Number.text : Number → List Char
  | .int i => (toString i).toList
  | .double x => x.text

mutual

def print : Json → List Char
  | null => "null".toList
  | bool b => (if b then "true" else "false").toList
  | num n => n.text
  | str s => quote s
  | arr xs => '[' :: printElements xs ++ [']']
  | obj ms => '\x7b' :: printMembers ms ++ ['\x7d']

def printElements : List Json → List Char
  | [] => []
  | [x] => print x
  | x :: y :: xs => print x ++ ',' :: printElements (y :: xs)

def printMembers : List (String × Json) → List Char
  | [] => []
  | [(k, v)] => quote k ++ ':' :: print v
  | (k, v) :: m :: ms => quote k ++ ':' :: print v ++ ',' :: printMembers (m :: ms)

end

def text (j : Json) : String := String.ofList j.print

end Herald.Json
