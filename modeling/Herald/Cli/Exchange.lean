import Herald.Cli.Help
import Herald.Cli.Session

namespace Herald.Cli

structure Response where
  bytes : Bytes
  close : Bool := false
deriving DecidableEq, Repr

/-- A server that reacts to the requests for a round trip and to the messages published, one after
another. Where nothing is said it answers the former and ignores the latter. -/
structure Server where
  onPing : List Response := []
  onPub : List Response := []
deriving DecidableEq, Repr

inductive Demand
  | ping
  | pub
  | other
deriving DecidableEq, Repr

namespace Demand

def payloadLength? (line : Bytes) : Option Nat :=
  let (token, rest) := line.splitToken
  if token = Bytes.ofString "PUB" then
    (Text.fields (Utf8.decodeLossy rest).toList).getLast?.bind (Text.digits? UInt64.size)
  else none

/-- What stands first, and how many octets it has. There is nothing to read before all of them are
there. -/
def first? (bs : Bytes) : Option (Demand × Nat) :=
  bs.lineLength?.bind fun n ↦
    match payloadLength? (bs.take n) with
    | some length =>
      if bs.length < n + length + 4 then none else some (pub, n + length + 4)
    | none => some (if bs.take n = Bytes.ofString "PING" then ping else other, n + 2)

end Demand

/-- A command and a server that talk to each other. `inbound` is what the server has yet to read;
`heard` is what it has read up to the last request or message that it reacted to, and `unheard`
what came after that. -/
structure Exchange where
  session : Session
  server : Server
  closed : Bool := false
  heard : Bytes := []
  unheard : Bytes := []
  inbound : Bytes := []

structure Outcome where
  exit : Nat
  printed : String
  wire : Bytes
  reason : Option String
deriving DecidableEq, Repr

namespace Exchange

def collect (x : Exchange) : Exchange :=
  { x with
    inbound := x.inbound ++ x.session.host.wire.flatMap Parcel.encode
    session := { x.session with host := { x.session.host with wire := [] } } }

/-- The server reacts. Once it has closed, it accepts no further connection. A command that has
ended takes no notice. -/
def react (x : Exchange) (r : Response) : Exchange :=
  let x := { x with closed := r.close }
  if x.session.result?.isSome then x
  else
    let session := if r.bytes.isEmpty then x.session else x.session.receive r.bytes
    if r.close then
      let session := { session with
        host := { session.host with network := { session.host.network with up := false } } }
      { x with session := session.hangUp }.collect
    else { x with session }.collect

def read (x : Exchange) (demand : Demand) (length : Nat) : Exchange :=
  let octets := x.unheard ++ x.inbound.take length
  let x := { x with inbound := x.inbound.drop length }
  let marked := { x with heard := x.heard ++ octets, unheard := [] }
  match demand with
  | .ping =>
    { marked with server := { x.server with onPing := x.server.onPing.tail } }.react
      (x.server.onPing.headD ⟨Command.pong.encode, false⟩)
  | .pub =>
    { marked with server := { x.server with onPub := x.server.onPub.tail } }.react
      (x.server.onPub.headD ⟨[], false⟩)
  | .other => { x with unheard := octets }

/-- Goes on until there is nothing left that could happen: the server reads what has been written,
as long as it has not closed, and time passes when there is nothing to read. -/
def run : Nat → Exchange → Exchange
  | 0, x => x
  | fuel + 1, x =>
    match if x.closed then none else Demand.first? x.inbound with
    | some (demand, length) => run fuel (x.read demand length)
    | none =>
      match x.session.nextDue? with
      | none => x
      | some due => run fuel { x with session := x.session.wake due }.collect

end Exchange

def firstLine (s : String) : String :=
  match Text.splitFirst? '\n' s.toList with
  | none => s
  | some (cs, _) =>
    String.ofList (if cs.getLast? = some '\r' then cs.dropLast else cs)

def converse (env : String → Option String) (network : Network) (server : Server)
    (request : Request) (address : String) : Option Outcome :=
  let options := ({} : ClientOptions).overlay env
  let session := Session.start { client := { options }, network } request address
  let x := Exchange.run UInt64.size ({ session, server : Exchange }).collect
  x.session.result?.map fun (exit, reason) ↦
    let inboxes := (List.range x.session.host.inboxes).map (Bytes.ofString ∘ Inbox.name)
    { exit, printed := x.session.printed
      wire := (Inbox.relabel inboxes [] x.heard).1
      reason := reason.map firstLine }

def execute (env : String → Option String) (network : Network) (server : Server)
    (args : List String) : Option Outcome :=
  match invocation env args with
  | .run request address => converse env network server request address
  | .help topic => some ⟨0, helpText env topic, [], none⟩
  | .version => some ⟨0, versionText, [], none⟩
  | .usage => some ⟨2, "", [], none⟩

end Herald.Cli
