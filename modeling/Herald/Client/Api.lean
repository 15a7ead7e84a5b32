import Herald.Client.Basic

namespace Herald.Client

variable {κ : Type}

def setErrorHandler (c : Client κ) (callback : κ) : Client κ :=
  { c with onError := .user callback }

def setConnectHandler (c : Client κ) (callback : κ) : Client κ :=
  { c with onConnect := some callback }

def flush (c : Client κ) (callback : κ) : Reaction κ := c.roundTrip (.user callback)

/-- Publishes, unless the subject is empty. An empty reply subject is none. -/
def publish (c : Client κ) (subject : String) (reply : Option String) (payload : Bytes) :
    Reaction κ :=
  if subject = "" then { client := c }
  else c.send (.pub subject (reply.filter (· ≠ "")) payload)

def publishAcked (c : Client κ) (subject : String) (payload : Bytes) (callback : κ) :
    Reaction κ :=
  if subject = "" then { client := c }
  else (c.publish subject none payload).andThen (·.flush callback)

/-- Ends a subscription after `max` messages in all, or at once if `max` is zero. The server is
told even of one that the client does not know. -/
def unsubscribe (c : Client κ) (sid max : Nat) : Reaction κ :=
  (c.send (.unsub sid (some max))).andThen fun c ↦
    { client := { c with registry := (c.registry.unsubscribe sid max).2 } }

/-- Subscribes, unless the subject is empty, and gives the number of the subscription or zero.
Without a connection the next handshake announces it. -/
def subscribe (c : Client κ) (subject : String) (queue : Option String) (max : Option Nat)
    (callback : κ) : Nat × Reaction κ :=
  if subject = "" then (0, { client := c })
  else
    let queue := queue.filter (· ≠ "")
    let (sid, registry) := c.registry.insert subject queue callback
    let announced : Reaction κ :=
      { outputs := (c.outbox.sendIfLive (.command (.sub subject queue sid))).map .write
        client := { c with registry } }
    (sid, match max with
      | none => announced
      | some max => announced.andThen (·.unsubscribe sid max))

def request (c : Client κ) (inbox subject : String) (payload : Bytes) (queue : Option String)
    (max : Option Nat) (callback : κ) : Nat × Reaction κ :=
  if subject = "" then (0, { client := c })
  else
    let (sid, r) := c.subscribe inbox queue max callback
    (sid, r.andThen (·.publish subject (some inbox) payload))

def setTimeout (c : Client κ) (sid afterMs expected : Nat) (auto : Bool) (callback : κ) :
    Reaction κ :=
  match c.registry.nextToken sid with
  | (none, _) => { client := c }
  | (some token, registry) =>
    { outputs := [.watch sid token afterMs callback]
      client := { c with registry := registry.arm sid ⟨expected, auto, token⟩ } }

/-- Stops the client. What was handed over is still written, and the rest is forgotten; the
subscriptions stay for the next start. -/
def stop (c : Client κ) : Reaction κ :=
  if c.closing then { client := c }
  else
    { outputs := c.outbox.writer.toList.map (.hangUp ·.number) ++ c.loop.toList.map .abort
      client := { c with
        closing := true
        phase := .closed
        generation := c.generation + 1
        outbox := {}
        registry := c.registry.cancelAll
        reader := none
        loop := none } }

def raise (c : Client κ) (e : ClientError) : Reaction κ :=
  match c.onError with
  | .unset => { client := c }
  | .fallback => { c with lastError := some e }.stop
  | .user callback => { client := c, call := some (.error callback e) }

end Herald.Client
