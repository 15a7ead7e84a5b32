import Herald.Scenario.Basic

namespace Herald

inductive Move
  | act (a : Action)
  | start (uri : String) (during : List Move)

def Move.name : Move → String
  | act a => a.name
  | start .. => "start"

inductive Step
  | move (m : Move)
  | serverUp
  | serverDown
  | serverSend (bs : Bytes)
  | serverClose (bs : Bytes)
  | advance (ms : Nat)

structure Report where
  phase : Phase
  subs : Nat
  pending : Nat
  live : Bool
  pongs : Nat
  inFlight : Nat
  reply : Option Reply
  notices : List (Nat × Notice)
  wire : Bytes
  closed : List Nat

namespace Scenario

def new (options : ClientOptions) (network : Network) : Scenario :=
  { host := { client := { options }, network } }

def refuse (s : Scenario) (uri : ServerUri) (kind : IoErrorKind) : Reply × Scenario :=
  (.failed (.io (.ofKind kind)), s.handle (.connectFailed uri))

def conclude (s : Scenario) (uri : ServerUri) : Reply × Scenario :=
  if s.host.network.up then
    let (due, host) := s.host.connect uri
    (.started, { s with host }.call due)
  else s.refuse uri .connectionRefused

mutual

/-- Makes a move. Without a route, a start fails before any move is made during its connect. -/
def make (s : Scenario) : Move → Option Reply × Scenario
  | .act a => s.act none a
  | .start uri during =>
    match ServerUri.parse? uri with
    | .error e => (some (.failed e), s)
    | .ok uri =>
      match s.host.handle (.begin uri) with
      | (.accepted true, _, host) =>
        let s := { s with host }
        let (reply, s) :=
          if s.host.network.routed then (s.makeDuring during).conclude uri
          else s.refuse uri .networkUnreachable
        (some reply, s)
      | _ => (some (.failed .alreadyStarted), s)

def makeDuring (s : Scenario) : List Move → Scenario
  | [] => s
  | m :: ms =>
    match (s.note (.during m.name s.host.client.phase.name)).make m with
    | (some reply, s) => (s.note (.did m.name reply)).makeDuring ms
    | (none, s) => s.makeDuring ms

end

def proceed (s : Scenario) : Step → Option Reply × Scenario
  | .move m => s.make m
  | .serverUp =>
    (none, { s with host := { s.host with network := { s.host.network with up := true } } })
  | .serverDown =>
    (none, { s with host := { s.host with network := { s.host.network with up := false } } })
  | .serverSend bs =>
    match s.host.link with
    | none => (some .noConnection, s)
    | some link => (none, s.receive link bs)
  | .serverClose bs =>
    match s.host.link with
    | none => (some .noConnection, s)
    | some link =>
      (none, (if bs.isEmpty then s else s.receive link bs).handle (.lost link.generation))
  | .advance ms => (none, s.advance ms)

def report (s : Scenario) (reply : Option Reply) : Report × Scenario :=
  let c := s.host.client
  let known := (List.range s.host.inboxes).map fun n ↦ Bytes.ofString (Inbox.name n)
  let (wire, seen) := Inbox.relabel known s.seen (s.host.wire.flatMap Parcel.encode)
  ({ phase := c.phase
     subs := c.registry.subs.length
     pending := c.outbox.pending.length
     live := c.outbox.writer.isSome
     pongs := c.outbox.pongs.length
     inFlight := c.outbox.inFlight
     reply, wire
     notices := s.notices
     closed := s.host.closed },
    { host := { s.host with wire := [], closed := [] }, notices := [], seen })

def step (s : Scenario) (e : Step) : Report × Scenario :=
  let (reply, s) := s.proceed e
  (s.runTimers s.host.now UInt64.size).report reply

def run (s : Scenario) : List Step → List Report
  | [] => []
  | e :: es =>
    let (report, s) := s.step e
    report :: s.run es

end Scenario

end Herald
