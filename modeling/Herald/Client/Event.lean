import Herald.Client.Dispatch
import Herald.Client.Lifecycle

namespace Herald

/-- Whatever can happen to a client. The application calls it, a connect that it has begun comes to
an end, a connection brings frames or ends, and timers run out. Several connects may be under way
at once, and each event names the address or the connection that it belongs to. -/
inductive Event (κ : Type)
  | setErrorHandler (callback : κ)
  | setConnectHandler (callback : κ)
  | publish (subject : String) (reply : Option String) (payload : Bytes)
  | publishAcked (subject : String) (payload : Bytes) (callback : κ)
  | flush (callback : κ)
  | subscribe (subject : String) (queue : Option String) (max : Option Nat) (callback : κ)
  | request (inbox subject : String) (payload : Bytes) (queue : Option String)
      (max : Option Nat) (callback : κ)
  | unsubscribe (sid max : Nat)
  | setTimeout (sid afterMs expected : Nat) (auto : Bool) (callback : κ)
  | stop
  | begin (uri : ServerUri)
  | connected (uri : ServerUri)
  | connectFailed (uri : ServerUri)
  | frame (generation : Nat) (f : Frame)
  | lost (generation : Nat)
  | wake (loop : Nat)
  | attemptFailed (loop : Nat)
  | expire (sid token : Nat) (callback : κ)

inductive Answer
  | done
  | sid (n : Nat)
  | accepted (yes : Bool)
  | dial (uri : Option ServerUri)
deriving DecidableEq, Repr

variable {κ : Type}

namespace Client

def step (c : Client κ) : Event κ → Answer × Reaction κ
  | .setErrorHandler callback => (.done, { client := c.setErrorHandler callback })
  | .setConnectHandler callback => (.done, { client := c.setConnectHandler callback })
  | .publish subject reply payload => (.done, c.publish subject reply payload)
  | .publishAcked subject payload callback => (.done, c.publishAcked subject payload callback)
  | .flush callback => (.done, c.flush callback)
  | .subscribe subject queue max callback =>
    let (n, r) := c.subscribe subject queue max callback
    (.sid n, r)
  | .request inbox subject payload queue max callback =>
    let (n, r) := c.request inbox subject payload queue max callback
    (.sid n, r)
  | .unsubscribe sid max => (.done, c.unsubscribe sid max)
  | .setTimeout sid afterMs expected auto callback =>
    (.done, c.setTimeout sid afterMs expected auto callback)
  | .stop => (.done, c.stop)
  | .begin uri =>
    match c.begin? uri with
    | some c => (.accepted true, { client := c })
    | none => (.accepted false, { client := c })
  | .connected _ =>
    match c.bind? with
    | some r => (.accepted true, r)
    | none => (.accepted false, { client := c })
  | .connectFailed uri => (.done, c.connectFailed uri)
  | .frame generation f => (.done, c.receive generation f)
  | .lost generation => (.done, c.lost generation)
  | .wake _ =>
    let (uri, r) := c.wake
    (.dial uri, r)
  | .attemptFailed loop => (.done, c.attemptFailed loop)
  | .expire sid token callback => (.done, c.expire sid token callback)

def run (c : Client κ) : List (Event κ) → List (Reaction κ) × Client κ
  | [] => ([], c)
  | e :: es =>
    let r := (c.step e).2
    let (rs, c) := r.client.run es
    (r :: rs, c)

end Client

end Herald
