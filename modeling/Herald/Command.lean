import Herald.Bytes
import Herald.Json.Printer

namespace Herald

structure ConnectInfo where
  verbose : Bool
  pedantic : Bool
  user : Option String
  pass : Option String
deriving DecidableEq, Repr

def ConnectInfo.json (c : ConnectInfo) : Json :=
  let text (key : String) (s : Option String) := (s.map fun s ↦ (key, Json.str s)).toList
  .obj (("verbose", .bool c.verbose) :: ("pedantic", .bool c.pedantic) ::
    text "user" c.user ++ text "pass" c.pass)

inductive Command
  | connect (info : ConnectInfo)
  | pub (subject : String) (reply : Option String) (payload : Bytes)
  | sub (subject : String) (queue : Option String) (sid : Nat)
  | unsub (sid : Nat) (max : Option Nat)
  | ping
  | pong
deriving DecidableEq, Repr

namespace Command

def line (words : List String) : Bytes :=
  Bytes.ofString (" ".intercalate words) ++ Bytes.crlf

/-- The octets of a command: words with a space between them, and the end of the line. A payload
follows its line and has an end of its own. A count of zero is not written. -/
def encode : Command → Bytes
  | connect info => line ["CONNECT", info.json.text]
  | pub subject reply payload =>
    line ("PUB" :: subject :: reply.toList ++ [toString payload.length]) ++
      payload ++ Bytes.crlf
  | sub subject queue sid => line ("SUB" :: subject :: queue.toList ++ [toString sid])
  | unsub sid max =>
    line ("UNSUB" :: toString sid :: ((max.filter (0 < ·)).map toString).toList)
  | ping => line ["PING"]
  | pong => line ["PONG"]

end Command

end Herald
