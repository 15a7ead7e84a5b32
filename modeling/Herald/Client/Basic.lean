import Herald.ClientOptions
import Herald.Command
import Herald.Outbox
import Herald.Registry
import Herald.ServerInfo
import Herald.ServerUri

namespace Herald

inductive Phase
  | disconnected
  | connecting
  | connected
  | reconnecting
  | closed
deriving DecidableEq, Repr

def Phase.name : Phase → String
  | disconnected => "Disconnected"
  | connecting => "Connecting"
  | connected => "Connected"
  | reconnecting => "Reconnecting"
  | closed => "Closed"

/-- Who hears of errors: nobody, a handler that notes the error and stops the client, or the
application. -/
inductive ErrorHandler (κ : Type)
  | unset
  | fallback
  | user (callback : κ)

inductive RoundTrip (κ : Type)
  | handshake (generation : Nat)
  | user (callback : κ)

/-- A client, with callbacks of whatever type the application has for them. Each connection has a
generation, and so does the time after each stop. `reader` is the generation that is being read
and `loop` the reconnect loop that runs, of the `loops` begun so far. -/
structure Client (κ : Type) where
  options : ClientOptions := {}
  phase : Phase := .disconnected
  uri : Option ServerUri := none
  generation : Nat := 0
  everConnected : Bool := false
  closing : Bool := false
  attempts : UInt32 := 0
  outbox : Outbox Command (RoundTrip κ) := {}
  registry : Registry κ := {}
  serverInfo : Option ServerInfo := none
  onError : ErrorHandler κ := .unset
  onConnect : Option κ := none
  lastError : Option ClientError := none
  reader : Option Nat := none
  loop : Option Nat := none
  loops : Nat := 0

inductive Call (κ : Type)
  | message (callback : κ) (m : Message)
  | error (callback : κ) (e : ClientError)
  | connected (callback : κ)
  | acked (callback : κ)
  | timeout (callback : κ) (sid : Nat)

/-- What a client asks of its surroundings: to write, to close the sending side of a connection
once all is written, to wake a reconnect loop after the usual wait, to end one, and to report
after a time that a timeout is due. -/
inductive Output (κ : Type)
  | write (sent : Sent Command)
  | hangUp (generation : Nat)
  | sleep (loop : Nat)
  | abort (loop : Nat)
  | watch (sid token afterMs : Nat) (callback : κ)

/-- What a client does at one moment. At most one callback comes due, after all the rest. -/
structure Reaction (κ : Type) where
  outputs : List (Output κ) := []
  client : Client κ
  call : Option (Call κ) := none

variable {κ : Type}

def Reaction.andThen (r : Reaction κ) (f : Client κ → Reaction κ) : Reaction κ :=
  let s := f r.client
  { s with outputs := r.outputs ++ s.outputs }

namespace Client

def withOutbox (c : Client κ) (r : List (Sent Command) × Outbox Command (RoundTrip κ)) :
    Reaction κ :=
  { outputs := r.1.map .write, client := { c with outbox := r.2 } }

def send (c : Client κ) (command : Command) : Reaction κ :=
  c.withOutbox (c.outbox.send (.command command))

def roundTrip (c : Client κ) (purpose : RoundTrip κ) : Reaction κ :=
  c.withOutbox (c.outbox.roundTrip purpose)

end Client

end Herald
