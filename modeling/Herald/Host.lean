import Herald.Client.Event
import Herald.Frame.Parser
import Herald.Inbox

namespace Herald

/-- What lies between a client and its server. Without a route no connect gets under way; with one
it is accepted while the server is up. -/
structure Network where
  routed : Bool := true
  up : Bool := true
deriving DecidableEq, Repr

/-- The connection in use, by its number among all that were established and its generation. -/
structure Link where
  number : Nat
  generation : Nat
  parser : Parser := {}

inductive Alarm (κ : Type)
  | expire (sid token : Nat) (callback : κ)
  | wake (loop : Nat)

structure Timer (κ : Type) where
  due : Nat
  alarm : Alarm κ

/-- The timer that is due first, of those for one time the one set first, and the others. -/
def Timer.first? {κ : Type} : List (Timer κ) → Option (Timer κ × List (Timer κ))
  | [] => none
  | t :: ts =>
    match first? ts with
    | some (u, us) => if u.due < t.due then some (u, t :: us) else some (t, ts)
    | none => some (t, ts)

/-- A client with its surroundings: a clock, timers, and a network that has at most one connection
open. `wire` and `closed` tell what was written and which connections were closed since they were
last asked for. -/
structure Host (κ : Type) where
  client : Client κ
  network : Network := {}
  now : Nat := 0
  timers : List (Timer κ) := []
  link : Option Link := none
  established : Nat := 0
  inboxes : Nat := 0
  wire : List (Parcel Command) := []
  closed : List Nat := []

def Parcel.encode : Parcel Command → Bytes
  | .command c => c.encode
  | .ping => Command.ping.encode

namespace Host

variable {κ : Type}

def setTimer (h : Host κ) (afterMs : Nat) (alarm : Alarm κ) : Host κ :=
  { h with timers := h.timers ++ [⟨h.now + afterMs, alarm⟩] }

def perform (h : Host κ) : Output κ → Host κ
  | .write sent => { h with wire := h.wire ++ [sent.parcel] }
  | .hangUp generation =>
    match h.link with
    | some link =>
      if link.generation = generation then
        { h with link := none, closed := h.closed ++ [link.number] }
      else h
    | none => h
  | .sleep loop => h.setTimer h.client.options.reconnectWaitMs (.wake loop)
  | .abort loop =>
    { h with timers := h.timers.filter fun t ↦
        match t.alarm with
        | .wake other => other != loop
        | .expire .. => true }
  | .watch sid token afterMs callback => h.setTimer afterMs (.expire sid token callback)

def handle (h : Host κ) (e : Event κ) : Answer × Option (Call κ) × Host κ :=
  let (answer, r) := h.client.step e
  (answer, r.call, r.outputs.foldl perform { h with client := r.client })

def connect (h : Host κ) (uri : ServerUri) : Option (Call κ) × Host κ :=
  let number := h.established + 1
  let (answer, call, h) := { h with established := number }.handle (.connected uri)
  match answer with
  | .accepted true => (call, { h with link := some { number, generation := h.client.generation } })
  | _ => (call, { h with closed := h.closed ++ [number] })

def wake (h : Host κ) (loop : Nat) : Option (Call κ) × Host κ :=
  let (answer, call, h) := h.handle (.wake loop)
  match answer with
  | .dial (some uri) =>
    if h.network.routed && h.network.up then h.connect uri
    else (h.handle (.attemptFailed loop)).2
  | _ => (call, h)

def ring (h : Host κ) : Alarm κ → Option (Call κ) × Host κ
  | .expire sid token callback => (h.handle (.expire sid token callback)).2
  | .wake loop => h.wake loop

def nextTimer? (h : Host κ) (deadline : Nat) : Option (Timer κ × Host κ) :=
  match Timer.first? h.timers with
  | some (t, timers) =>
    if t.due ≤ deadline then some (t, { h with timers, now := max h.now t.due }) else none
  | none => none

def newInbox (h : Host κ) : String × Host κ :=
  (Inbox.name h.inboxes, { h with inboxes := h.inboxes + 1 })

end Host

end Herald
