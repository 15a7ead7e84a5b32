namespace Herald

inductive Parcel (α : Type)
  | command (c : α)
  | ping
deriving DecidableEq, Repr

/-- The writing side of a connection. What is handed to one that is not open is lost or refused. -/
structure Writer where
  number : Nat
  isOpen : Bool := true
deriving DecidableEq, Repr

structure Sent (α : Type) where
  writer : Nat
  parcel : Parcel α
deriving DecidableEq, Repr

/-- Parcels without a connection to go to, the connection if there is one, and the round trips not
yet completed, the oldest `inFlight` of which have been asked for on this connection. -/
structure Outbox (α κ : Type) where
  pending : List (Parcel α) := []
  writer : Option Writer := none
  pongs : List κ := []
  inFlight : Nat := 0

namespace Outbox

variable {α κ : Type}

def target (o : Outbox α κ) : Option Writer := o.writer.filter (·.isOpen)

def send (o : Outbox α κ) (p : Parcel α) : List (Sent α) × Outbox α κ :=
  match o.target with
  | some w => ([⟨w.number, p⟩], o)
  | none => ([], { o with pending := o.pending ++ [p] })

def sendIfLive (o : Outbox α κ) (p : Parcel α) : List (Sent α) :=
  (o.target.map fun w ↦ ⟨w.number, p⟩).toList

def roundTrip (o : Outbox α κ) (callback : κ) : List (Sent α) × Outbox α κ :=
  let (sent, o) := { o with pongs := o.pongs ++ [callback] }.send .ping
  (sent, { o with inFlight := o.inFlight + sent.length })

def complete (o : Outbox α κ) : Option κ × Outbox α κ :=
  match o.pongs with
  | [] => (none, o)
  | callback :: pongs => (some callback, { o with pongs, inFlight := o.inFlight - 1 })

/-- Makes a writer the one in use. It is handed the preamble and then all that was waiting. -/
def attach (o : Outbox α κ) (w : Writer) (preamble : List α) : List (Sent α) × Outbox α κ :=
  let parcels := preamble.map .command ++ o.pending
  (if w.isOpen then parcels.map (⟨w.number, ·⟩) else [],
    { o with pending := [], writer := some w, inFlight := o.pongs.length })

/-- Forgets the writer. The round trips asked for on it are asked for again before all else. -/
def detach (o : Outbox α κ) : Outbox α κ :=
  { o with
    pending := List.replicate o.inFlight .ping ++ o.pending
    writer := none
    inFlight := 0 }

def breakWriter (o : Outbox α κ) : Outbox α κ :=
  { o with writer := o.writer.map fun w ↦ { w with isOpen := false } }

inductive Op (α κ : Type)
  | send (c : α)
  | sendIfLive (c : α)
  | roundTrip (callback : κ)
  | complete
  | attach (w : Writer) (preamble : List α)
  | detach
  | breakWriter
  | close

inductive Answer (κ : Type)
  | handed (now : Bool)
  | completed (callback : Option κ)
  | count (n : Nat)
  | done

def apply (o : Outbox α κ) : Op α κ → Answer κ × List (Sent α) × Outbox α κ
  | .send c =>
    let (sent, o) := o.send (.command c)
    (.handed !sent.isEmpty, sent, o)
  | .sendIfLive c =>
    let sent := o.sendIfLive (.command c)
    (.handed !sent.isEmpty, sent, o)
  | .roundTrip callback =>
    let (sent, o) := o.roundTrip callback
    (.done, sent, o)
  | .complete =>
    let (callback, o) := o.complete
    (.completed callback, [], o)
  | .attach w preamble =>
    let (sent, o') := o.attach w preamble
    (.count o.pending.length, sent, o')
  | .detach => (.count o.inFlight, [], o.detach)
  | .breakWriter => (.done, [], o.breakWriter)
  | .close => (.done, [], {})

end Outbox

end Herald
