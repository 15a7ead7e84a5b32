import Herald.Client.Api
import Herald.Frame.Line

namespace Herald.Client

variable {κ : Type}

/-- A message goes to its subscription. If it is the last one that the cap allows, the server is
told before the callback hears of the message. -/
def deliver (c : Client κ) (m : Message) : Reaction κ :=
  match c.registry.dispatch m with
  | (.unknown, registry) => { client := { c with registry } }
  | (.dropped, registry) => { c with registry }.send (.unsub m.sid none)
  | (.deliver callback m finished, registry) =>
    let c := { c with registry }
    let told : Reaction κ := if finished then c.send (.unsub m.sid none) else { client := c }
    { told with call := some (.message callback m) }

def established (c : Client κ) (generation : Nat) : Reaction κ :=
  if c.generation = generation ∧ c.phase = .connected then
    { client := c, call := c.onConnect.map .connected }
  else { client := c }

def pong (c : Client κ) : Reaction κ :=
  match c.outbox.complete with
  | (none, _) => { client := c }
  | (some (.handshake generation), outbox) => { c with outbox }.established generation
  | (some (.user callback), outbox) =>
    { client := { c with outbox }, call := some (.acked callback) }

def receive (c : Client κ) (generation : Nat) (f : Frame) : Reaction κ :=
  if c.generation ≠ generation then { client := c }
  else
    match f with
    | .message m => c.deliver m
    | .ok => { client := c }
    | .error text => c.raise (.protocol text)
    | .ping => c.send .pong
    | .pong => c.pong
    | .info text =>
      match ServerInfo.parse? text with
      | some info => { client := { c with serverInfo := some info } }
      | none => { client := c }
    | .unknown line => c.raise (.unknownProtocol line)

def expire (c : Client κ) (sid token : Nat) (callback : κ) : Reaction κ :=
  match c.registry.claim sid token with
  | (none, _) => { client := c }
  | (some auto, registry) =>
    let c := { c with registry }
    let r : Reaction κ := if auto then c.unsubscribe sid 0 else { client := c }
    { r with call := some (.timeout callback sid) }

end Herald.Client
