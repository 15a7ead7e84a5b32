import Herald.Host
import Herald.Scenario.Action

namespace Herald

/-- An application at work: a client and its surroundings, what the application has seen since it
was last asked with the time of each, and the inboxes seen on the wire so far. -/
structure Scenario where
  host : Host Callback
  notices : List (Nat × Notice) := []
  seen : List Bytes := []

namespace Scenario

def note (s : Scenario) (n : Notice) : Scenario :=
  { s with notices := s.notices ++ [(s.host.now, n)] }

def tell (s : Scenario) (e : Event Callback) : Scenario :=
  { s with host := (s.host.handle e).2.2 }

def ask (s : Scenario) (e : Event Callback) : Option Reply × Scenario :=
  let (answer, _, host) := s.host.handle e
  (match answer with
    | .sid n => some (.sid n)
    | _ => none, { s with host })

def act (s : Scenario) (message : Option Message) : Action → Option Reply × Scenario
  | .onError script => (none, s.tell (.setErrorHandler ⟨.null, script⟩))
  | .onConnect script => (none, s.tell (.setConnectHandler ⟨.null, script⟩))
  | .publish subject payload => (none, s.tell (.publish subject none payload))
  | .publishReply subject reply payload => (none, s.tell (.publish subject (some reply) payload))
  | .publishAck subject payload id script =>
    (none, s.tell (.publishAcked subject payload ⟨id, script⟩))
  | .flush id script => (none, s.tell (.flush ⟨id, script⟩))
  | .subscribe subject queue max tag script =>
    s.ask (.subscribe subject queue max ⟨tag, script⟩)
  | .request subject payload queue max tag script =>
    let (inbox, host) := s.host.newInbox
    { s with host }.ask (.request inbox subject payload queue max ⟨tag, script⟩)
  | .unsubscribe sid => (none, s.tell (.unsubscribe sid 0))
  | .unsubscribeAfter sid max => (none, s.tell (.unsubscribe sid max))
  | .timeout sid afterMs expected auto id script =>
    (none, s.tell (.setTimeout sid afterMs expected auto ⟨id, script⟩))
  | .stop => (none, s.tell .stop)
  | .serverInfo => (some (.serverInfo s.host.client.serverInfo), s)
  | .lastError => (some (.lastError s.host.client.lastError), s)
  | .options => (some (.options s.host.client.options), s)
  | .echo subject =>
    match message with
    | some m => (none, s.tell (.publish subject none m.payload))
    | none => (none, s)
  | .respond payload =>
    match message.bind (·.reply) with
    | some reply => (none, s.tell (.publish reply none payload))
    | none => (none, s)

def play (message : Option Message) (s : Scenario) (script : List Action) : Scenario :=
  script.foldl (fun s a ↦
    match s.act message a with
    | (some reply, s) => s.note (.did a.name reply)
    | (none, s) => s) s

def call (s : Scenario) : Option (Call Callback) → Scenario
  | none => s
  | some (.message callback m) => (s.note (.message callback.label m)).play (some m) callback.script
  | some (.error callback e) => (s.note (.error e)).play none callback.script
  | some (.connected callback) => (s.note .connected).play none callback.script
  | some (.acked callback) => (s.note (.acked callback.label)).play none callback.script
  | some (.timeout callback sid) =>
    (s.note (.timeout callback.label sid)).play none callback.script

def handle (s : Scenario) (e : Event Callback) : Scenario :=
  let (_, due, host) := s.host.handle e
  { s with host }.call due

def receive (s : Scenario) (link : Link) (bs : Bytes) : Scenario :=
  let (frames, parser) := link.parser.feed bs
  frames.foldl (fun s f ↦ s.handle (.frame link.generation f))
    { s with host := { s.host with link := some { link with parser } } }

/-- Runs the timers due by a given time, in the order of their times. Every timer is taken out
before it runs, and the fuel is more than any application sets. -/
def runTimers (deadline : Nat) : Nat → Scenario → Scenario
  | 0, s => s
  | fuel + 1, s =>
    match s.host.nextTimer? deadline with
    | none => s
    | some (t, host) =>
      let (due, host) := host.ring t.alarm
      runTimers deadline fuel ({ s with host }.call due)

def advance (s : Scenario) (ms : Nat) : Scenario :=
  let deadline := s.host.now + ms
  let s := s.runTimers deadline UInt64.size
  { s with host := { s.host with now := deadline } }

end Scenario

end Herald
