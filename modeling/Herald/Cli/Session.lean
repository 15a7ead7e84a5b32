import Herald.Cli.Arguments
import Herald.Host

namespace Herald.Cli

inductive Hook
  | failed
  | delivered
  | acked
  | expired
deriving DecidableEq, Repr

inductive News
  | message (m : Message)
  | failed (reason : String)
  | timedOut
deriving DecidableEq, Repr

/-- Where the command stands. It waits until the server has dealt with what was published or with
the subscription, then for messages or for the answer, and at the end it has a reason if it
failed. -/
inductive Stage
  | publishing
  | subscribing
  | listening (printed : Nat)
  | awaiting
  | finished (failure : Option String)
deriving DecidableEq, Repr

/-- The command at work. `deadline` is the time until which it waits for the server, and `printed`
is what it has printed. -/
structure Session where
  request : Request
  host : Host Hook
  stage : Stage
  deadline : Nat := 0
  acked : Bool := false
  news : List News := []
  printed : String := ""

def ackTimeoutMs : Nat := 5000

namespace Session

def handle (s : Session) (e : Event Hook) : Answer × Option (Call Hook) × Session :=
  let (answer, due, host) := s.host.handle e
  (answer, due, { s with host })

/-- Takes in a callback that is due. Of errors only those of the connection count. -/
def call (s : Session) : Option (Call Hook) → Session
  | some (.message _ m) => { s with news := s.news ++ [.message m] }
  | some (.error _ e) =>
    if e.isConnection then { s with news := s.news ++ [.failed e.message] } else s
  | some (.acked _) => { s with acked := true }
  | some (.timeout ..) => { s with news := s.news ++ [.timedOut] }
  | some (.connected _) | none => s

def tell (s : Session) (e : Event Hook) : Session :=
  let (_, due, s) := s.handle e
  s.call due

def finish (s : Session) (failure : Option String) : Session :=
  { s.tell .stop with stage := .finished failure }

def fail (s : Session) (reason : String) : Session := { s with stage := .finished (some reason) }

def print (s : Session) (line : String) : Session :=
  { s with printed := s.printed ++ line ++ "\n" }

def printMessage (s : Session) (m : Message) : Session :=
  s.print ("[" ++ m.subject ++ "] " ++
    ((m.reply.map fun r ↦ "(reply: " ++ r ++ ") ").getD "") ++ m.text)

def takeNews (s : Session) : List News → Session
  | [] => { s with news := [] }
  | n :: ns =>
    match s.stage, n, s.request with
    | .listening printed, .message m, .sub _ _ count =>
      let s := s.printMessage m
      if count.any (· ≤ printed + 1) then s.finish none
      else { s with stage := .listening (printed + 1) }.takeNews ns
    | .listening _, .failed reason, _ => s.finish (some reason)
    | .listening _, .timedOut, _ => s.finish none
    | .awaiting, .message m, _ => (s.printMessage m).finish none
    | .awaiting, .failed reason, _ => s.finish (some reason)
    | .awaiting, .timedOut, .request subject _ timeoutMs =>
      s.finish (some ("No reply on [" ++ subject ++ "] within " ++ toString timeoutMs ++ "ms"))
    | _, _, _ => s

def proceed (s : Session) : Session :=
  match s.stage, s.acked, s.request with
  | .publishing, true, .pub subject payload _ =>
    (s.print ("Published [" ++ subject ++ "] : '" ++ payload ++ "'")).finish none
  | .subscribing, true, _ => { s with stage := .listening 0 }.takeNews s.news
  | .listening _, _, _ | .awaiting, _, _ => s.takeNews s.news
  | _, _, _ => s

def awaitAck (s : Session) (stage : Stage) : Session :=
  { s.tell (.flush .acked) with stage, deadline := s.host.now + ackTimeoutMs }

def submit (s : Session) : Session :=
  match s.request with
  | .pub subject payload reply =>
    (s.tell (.publish subject reply (Bytes.ofString payload))).awaitAck .publishing
  | .sub subject queue count =>
    (s.tell (.subscribe subject queue count .delivered)).awaitAck .subscribing
  | .request subject payload timeoutMs =>
    let (inbox, host) := s.host.newInbox
    match handle { s with host }
        (.request inbox subject (Bytes.ofString payload) none (some 1) .delivered) with
    | (.sid sid, _, s) =>
      { s.tell (.setTimeout sid timeoutMs 1 true .expired) with stage := .awaiting }
    | (_, _, s) => s

/-- Connects to the server and sends what the request asks for. A request without a subject does
not get that far. -/
def start (host : Host Hook) (request : Request) (server : String) : Session :=
  let s : Session := { request, host, stage := .publishing }
  let failure := "Failed to connect to " ++ server
  match request, ServerUri.parse? server with
  | .request "" .., _ => s.fail "Subject must not be empty"
  | _, .error _ => s.fail failure
  | _, .ok uri =>
    let s := (s.tell (.setErrorHandler .failed)).tell (.begin uri)
    if s.host.network.routed && s.host.network.up then
      let (due, host) := s.host.connect uri
      ({ s with host }.call due).submit
    else (s.tell (.connectFailed uri)).fail failure

def receive (s : Session) (bs : Bytes) : Session :=
  match s.host.link with
  | none => s
  | some link =>
    let (frames, parser) := link.parser.feed bs
    let s := { s with host := { s.host with link := some { link with parser } } }
    (frames.foldl (fun s f ↦ s.tell (.frame link.generation f)) s).proceed

def hangUp (s : Session) : Session :=
  match s.host.link with
  | none => s
  | some link => (s.tell (.lost link.generation)).proceed

def nextDue? (s : Session) : Option Nat :=
  let timer := (Timer.first? s.host.timers).map (·.1.due)
  match s.stage with
  | .publishing | .subscribing => some (min s.deadline (timer.getD s.deadline))
  | .listening _ | .awaiting => timer
  | .finished _ => none

/-- Lets time pass until a given time, which is not later than the next time at which something is
due. -/
def wake (s : Session) (now : Nat) : Session :=
  match s.host.nextTimer? now with
  | some (t, host) =>
    let (due, host) := host.ring t.alarm
    ({ s with host }.call due).proceed
  | none =>
    let s := { s with host := { s.host with now } }
    match s.stage with
    | .publishing | .subscribing =>
      if s.deadline ≤ now then s.fail "Timed out waiting for the server" else s
    | _ => s

def result? (s : Session) : Option (Nat × Option String) :=
  match s.stage with
  | .finished none => some (0, none)
  | .finished (some reason) => some (1, some reason)
  | _ => none

end Session

end Herald.Cli
