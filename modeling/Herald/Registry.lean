import Herald.Frame.Line

namespace Herald

/-- Zero is the number of no subscription. -/
def Sid.isValid (sid : Nat) : Bool := sid != 0

/-- A timeout waits for a subscription to have received `expected` messages. Its token tells it
from every other timeout. -/
structure Timeout where
  expected : Nat
  auto : Bool
  token : Nat
deriving DecidableEq, Repr

/-- A live subscription. A `max` of zero is no cap. -/
structure Subscription (κ : Type) where
  sid : Nat
  subject : String
  queue : Option String
  callback : κ
  received : Nat := 0
  max : Nat := 0
  timeout : Option Timeout := none

structure Announcement where
  sid : Nat
  subject : String
  queue : Option String
  remaining : Option Nat
deriving DecidableEq, Repr

structure Registry (κ : Type) where
  subs : List (Subscription κ) := []
  lastSid : Nat := 0
  lastToken : Nat := 0

inductive Dispatch (κ : Type)
  | unknown
  | deliver (callback : κ) (message : Message) (finished : Bool)
  | dropped

variable {κ : Type}

def Subscription.announcement (s : Subscription κ) : Announcement :=
  ⟨s.sid, s.subject, s.queue, if 0 < s.max then some (s.max - s.received) else none⟩

namespace Registry

def find? (r : Registry κ) (sid : Nat) : Option (Subscription κ) :=
  r.subs.find? (·.sid == sid)

def update (r : Registry κ) (sid : Nat) (f : Subscription κ → Subscription κ) : Registry κ :=
  { r with subs := r.subs.map fun s ↦ if s.sid = sid then f s else s }

def erase (r : Registry κ) (sid : Nat) : Registry κ :=
  { r with subs := r.subs.filter (·.sid != sid) }

def insert (r : Registry κ) (subject : String) (queue : Option String) (callback : κ) :
    Nat × Registry κ :=
  let sid := r.lastSid + 1
  (sid, { r with subs := r.subs ++ [{ sid, subject, queue, callback }], lastSid := sid })

/-- Ends a subscription once it has received `max` messages in all, which may be now, and tells
whether it is. -/
def unsubscribe (r : Registry κ) (sid max : Nat) : Bool × Registry κ :=
  match r.find? sid with
  | none => (false, r)
  | some s =>
    if max = 0 ∨ max ≤ s.received then (true, r.erase sid)
    else (false, r.update sid fun s ↦ { s with max })

/-- Counts a message and decides what becomes of it. A timeout that has waited for it is off. -/
def dispatch (r : Registry κ) (m : Message) : Dispatch κ × Registry κ :=
  match r.find? m.sid with
  | none => (.unknown, r)
  | some s =>
    let received := s.received + 1
    if 0 < s.max ∧ s.max < received then (.dropped, r.erase m.sid)
    else if 0 < s.max ∧ received = s.max then
      (.deliver s.callback m true, r.erase m.sid)
    else
      (.deliver s.callback m false, r.update m.sid fun s ↦
        { s with received, timeout := s.timeout.filter (received < ·.expected) })

def nextToken (r : Registry κ) (sid : Nat) : Option Nat × Registry κ :=
  if (r.find? sid).isSome then
    (some (r.lastToken + 1), { r with lastToken := r.lastToken + 1 })
  else (none, r)

def arm (r : Registry κ) (sid : Nat) (timeout : Timeout) : Registry κ :=
  r.update sid fun s ↦ { s with timeout := some timeout }

def claim (r : Registry κ) (sid token : Nat) : Option Bool × Registry κ :=
  match (r.find? sid).bind (·.timeout) with
  | none => (none, r)
  | some t =>
    if t.token = token then (some t.auto, r.update sid fun s ↦ { s with timeout := none })
    else (none, r)

def cancelAll (r : Registry κ) : Registry κ :=
  { r with subs := r.subs.map fun s ↦ { s with timeout := none } }

def announcements (r : Registry κ) : List Announcement := r.subs.map (·.announcement)

inductive Op (κ : Type)
  | insert (subject : String) (queue : Option String) (callback : κ)
  | unsubscribe (sid max : Nat)
  | dispatch (m : Message)
  | token (sid : Nat)
  | arm (sid : Nat) (timeout : Timeout)
  | claim (sid token : Nat)
  | cancelAll

inductive Answer (κ : Type)
  | inserted (sid : Nat)
  | removed (now : Bool)
  | dispatched (d : Dispatch κ)
  | token (t : Option Nat)
  | claimed (auto : Option Bool)
  | done

def apply (r : Registry κ) : Op κ → Answer κ × Registry κ
  | .insert subject queue callback =>
    let (sid, r) := r.insert subject queue callback
    (.inserted sid, r)
  | .unsubscribe sid max =>
    let (now, r) := r.unsubscribe sid max
    (.removed now, r)
  | .dispatch m =>
    let (d, r) := r.dispatch m
    (.dispatched d, r)
  | .token sid =>
    let (t, r) := r.nextToken sid
    (.token t, r)
  | .arm sid timeout => (.done, r.arm sid timeout)
  | .claim sid token =>
    let (auto, r) := r.claim sid token
    (.claimed auto, r)
  | .cancelAll => (.done, r.cancelAll)

end Registry

end Herald
