import Herald.Client.Api

namespace Herald.Client

variable {κ : Type}

def uriText (c : Client κ) : String := (c.uri.map (·.text)).getD ""

def begin? (c : Client κ) (uri : ServerUri) : Option (Client κ) :=
  match c.phase with
  | .connecting | .connected | .reconnecting => none
  | .disconnected | .closed =>
    some { c with
      phase := .connecting
      uri := some uri
      closing := false
      everConnected := false
      attempts := 0 }

def connectFailed (c : Client κ) (uri : ServerUri) : Reaction κ :=
  let c := if c.phase = .connecting then { c with phase := .disconnected } else c
  match c.closing, c.onError with
  | false, .user callback =>
    { client := c, call := some (.error callback (.couldNotConnect uri.text)) }
  | _, _ => { client := c }

def handshake (c : Client κ) (uri : ServerUri) : List Command :=
  .connect ⟨c.options.verbose, c.options.pedantic, uri.user, uri.pass⟩ ::
    c.registry.announcements.flatMap fun a ↦
      .sub a.subject a.queue a.sid :: (a.remaining.map fun n ↦ .unsub a.sid (some n)).toList

def wantsConnection (c : Client κ) : Bool :=
  !c.closing && (c.phase = .connecting || c.phase = .reconnecting)

/-- Takes a new connection, if it is wanted, under the next generation: the handshake, then all
that was waiting, then a round trip that tells when the server has dealt with them. -/
def bind? (c : Client κ) : Option (Reaction κ) :=
  match c.wantsConnection, c.uri with
  | true, some uri =>
    let generation := c.generation + 1
    let onError := match c.everConnected, c.onError with
      | false, .unset => .fallback
      | _, handler => handler
    let c := { c with
      generation, onError
      everConnected := true
      attempts := 0
      loop := none
      phase := .connected
      reader := some generation }
    some ((c.withOutbox (c.outbox.attach ⟨generation, true⟩ (c.handshake uri))).andThen
      (·.roundTrip (.handshake generation)))
  | _, _ => none

def lost (c : Client κ) (generation : Nat) : Reaction κ :=
  if c.generation ≠ generation ∨ c.phase ≠ .connected then { client := c }
  else
    let released := c.outbox.writer.toList.map fun w ↦ Output.hangUp w.number
    let c := { c with outbox := c.outbox.detach, reader := none }
    if !c.closing && c.options.reconnect then
      { outputs := released ++ [.sleep c.loops]
        client := { c with
          phase := .reconnecting
          attempts := 0
          loop := some c.loops
          loops := c.loops + 1 } }
    else
      let c := { c with phase := .disconnected }
      if c.closing then { outputs := released, client := c }
      else
        let r := c.raise (.disconnected c.uriText)
        { r with outputs := released ++ r.outputs }

/-- A reconnect loop wakes up. It ends if the client no longer reconnects or all attempts are
used up, and otherwise gives the server to try. -/
def wake (c : Client κ) : Option ServerUri × Reaction κ :=
  if c.closing ∨ c.phase ≠ .reconnecting then (none, { client := c })
  else
    let c := { c with attempts := c.attempts + 1 }
    if c.options.maxReconnectAttempts < c.attempts then
      let c := { c with phase := .disconnected, loop := none }
      (none, c.raise (.disconnected c.uriText))
    else (c.uri, { client := c })

def attemptFailed (c : Client κ) (loop : Nat) : Reaction κ :=
  { outputs := [.sleep loop], client := c }

end Herald.Client
