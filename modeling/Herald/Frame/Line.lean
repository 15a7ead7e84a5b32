import Herald.Text.Basic
import Herald.Utf8

namespace Herald

structure Message where
  subject : String
  sid : Nat
  reply : Option String
  payload : Bytes
deriving DecidableEq, Repr

def Message.text (m : Message) : String := Utf8.decodeLossy m.payload

inductive Frame
  | message (m : Message)
  | ok
  | error (text : String)
  | ping
  | pong
  | info (text : String)
  | unknown (line : String)
deriving DecidableEq, Repr

/-- The line that announces a message, whose payload of `length` octets follows. -/
structure Header where
  subject : String
  sid : Nat
  reply : Option String
  length : Nat
deriving DecidableEq, Repr

namespace Header

def maxLength : Nat := 64 * 1024 * 1024

def message (h : Header) (payload : Bytes) : Message := ⟨h.subject, h.sid, h.reply, payload⟩

def ofFields? : List (List Char) → Option Header
  | [subject, sid, length] => do
    let sid ← Text.digits? UInt64.size sid
    let length ← Text.digits? (maxLength + 1) length
    some ⟨String.ofList subject, sid, none, length⟩
  | [subject, sid, reply, length] => do
    let sid ← Text.digits? UInt64.size sid
    let length ← Text.digits? (maxLength + 1) length
    some ⟨String.ofList subject, sid, some (String.ofList reply), length⟩
  | _ => none

def read? (args : Bytes) : Option Header :=
  (Utf8.decode? args).bind fun s ↦ ofFields? (Text.fields s.toList)

end Header

inductive Line
  | header (h : Header)
  | frame (f : Frame)
deriving DecidableEq, Repr

namespace Line

/-- A text without blanks around it, and then without one pair of single quotes. -/
def unquote (s : String) : String :=
  match Text.trim s.toList with
  | '\'' :: cs =>
    if cs.getLast? = some '\'' then String.ofList cs.dropLast else String.ofList ('\'' :: cs)
  | cs => String.ofList cs

def unknown (line : Bytes) : Line := .frame (.unknown (Utf8.decodeLossy line))

/-- Reads a line by its first token. A line that is not as its token wants it is unknown. -/
def read (line : Bytes) : Line :=
  let (token, rest) := line.splitToken
  if token = Bytes.ofString "MSG" then
    match Header.read? rest with
    | some h => .header h
    | none => unknown line
  else if token = Bytes.ofString "-ERR" then .frame (.error (unquote (Utf8.decodeLossy rest)))
  else if token = Bytes.ofString "INFO" then
    if rest.isBlank then unknown line
    else .frame (.info (Text.trimmed (Utf8.decodeLossy rest)))
  else if !rest.isBlank then unknown line
  else if token = Bytes.ofString "+OK" then .frame .ok
  else if token = Bytes.ofString "PING" then .frame .ping
  else if token = Bytes.ofString "PONG" then .frame .pong
  else unknown line

end Line

end Herald
