import Herald.Proofs.Outbox.Requests

namespace Herald

/-- An outbox that remembers. Every parcel and every round trip bears the number of the use that it
comes from, and a request that is sent again keeps the number of its round trip. `sent` is all that
was handed over so far, `answered` the round trips completed, each with the writer in use then, and
`attached` and `dropped` the writers put to use and given up. -/
structure Ledger (α κ : Type) where
  time : Nat := 0
  pending : List (Nat × Parcel α) := []
  writer : Option Writer := none
  trips : List (Nat × κ) := []
  inFlight : Nat := 0
  sent : List (Nat × Sent α) := []
  answered : List (Nat × Nat × κ) := []
  attached : List Nat := []
  dropped : List Nat := []

namespace Ledger

variable {α κ : Type}

def outbox (l : Ledger α κ) : Outbox α κ where
  pending := l.pending.map (·.2)
  writer := l.writer
  pongs := l.trips.map (·.2)
  inFlight := l.inFlight

def log (l : Ledger α κ) : List (Sent α) := l.sent.map (·.2)

def target (l : Ledger α κ) : Option Writer := l.writer.filter (·.isOpen)

def handed (w : Writer) (ps : List (Nat × Parcel α)) : List (Nat × Sent α) :=
  ps.map fun p ↦ (p.1, ⟨w.number, p.2⟩)

def put (l : Ledger α κ) (p : Parcel α) : Ledger α κ :=
  { l with
    pending := l.pending ++ if l.target.isSome then [] else [(l.time, p)]
    sent := l.sent ++ l.target.toList.flatMap (handed · [(l.time, p)]) }

def complete (l : Ledger α κ) : Ledger α κ :=
  match l.trips with
  | [] => l
  | t :: trips =>
    { l with
      trips
      inFlight := l.inFlight - 1
      answered := l.answered ++ l.writer.toList.map fun w ↦ (w.number, t) }

def attach (l : Ledger α κ) (w : Writer) (preamble : List α) : Ledger α κ :=
  let parcels := preamble.map (fun c ↦ (l.time, .command c)) ++ l.pending
  { l with
    pending := []
    writer := some w
    inFlight := l.trips.length
    sent := l.sent ++ if w.isOpen then handed w parcels else []
    attached := l.attached ++ [w.number] }

def detach (l : Ledger α κ) : Ledger α κ :=
  { l with
    pending := (l.trips.take l.inFlight).map (fun t ↦ (t.1, .ping)) ++ l.pending
    writer := none
    inFlight := 0
    dropped := l.dropped ++ l.writer.toList.map (·.number) }

def use (l : Ledger α κ) : Outbox.Op α κ → Ledger α κ
  | .send c => l.put (.command c)
  | .sendIfLive c =>
    { l with sent := l.sent ++ l.target.toList.flatMap (handed · [(l.time, .command c)]) }
  | .roundTrip callback =>
    { l.put .ping with
      trips := l.trips ++ [(l.time, callback)]
      inFlight := l.inFlight + l.target.toList.length }
  | .complete => l.complete
  | .attach w preamble => l.attach w preamble
  | .detach => l.detach
  | .breakWriter => { l with writer := l.writer.map fun w ↦ { w with isOpen := false } }
  | .close => { l with pending := [], writer := none, trips := [], inFlight := 0 }

def apply (l : Ledger α κ) (op : Outbox.Op α κ) : Ledger α κ :=
  let l := l.use op
  { l with time := l.time + 1 }

def run (l : Ledger α κ) (ops : List (Outbox.Op α κ)) : Ledger α κ := ops.foldl apply l

@[simp] theorem run_nil (l : Ledger α κ) : l.run [] = l := rfl

@[simp] theorem run_cons (l : Ledger α κ) (op : Outbox.Op α κ) (ops : List (Outbox.Op α κ)) :
    l.run (op :: ops) = (l.apply op).run ops := rfl

@[simp] theorem use_time (l : Ledger α κ) (op : Outbox.Op α κ) : (l.use op).time = l.time := by
  cases op with
  | complete => simp only [use, complete]; split <;> rfl
  | _ => rfl

theorem apply_time (l : Ledger α κ) (op : Outbox.Op α κ) : (l.apply op).time = l.time + 1 := by
  simp [apply]

theorem map_handed (w : Writer) (ps : List (Nat × Parcel α)) :
    (handed w ps).map (·.2) = (ps.map (·.2)).map (⟨w.number, ·⟩) := by
  simp [handed, Function.comp_def]

theorem put_of_target {l : Ledger α κ} {w : Writer} (h : l.target = some w) (p : Parcel α) :
    l.put p = { l with sent := l.sent ++ handed w [(l.time, p)] } := by
  simp [put, h]

theorem put_of_no_target {l : Ledger α κ} (h : l.target = none) (p : Parcel α) :
    l.put p = { l with pending := l.pending ++ [(l.time, p)] } := by
  simp [put, h]

/-- Without its numbers a ledger is the outbox of the same uses, and has the same log. -/
theorem apply_erases {l : Ledger α κ} (h : l.inFlight ≤ l.trips.length) (op : Outbox.Op α κ) :
    (l.apply op).outbox = (l.outbox.apply op).2.2 ∧
      (l.apply op).log = l.log ++ (l.outbox.apply op).2.1 := by
  cases op with
  | send c =>
    simp only [Outbox.apply, apply, use]
    cases ht : l.target with
    | none =>
      have ho : l.outbox.target = none := ht
      rw [put_of_no_target ht, Outbox.send_of_no_target ho]
      simp [outbox, log]
    | some w =>
      have ho : l.outbox.target = some w := ht
      rw [put_of_target ht, Outbox.send_of_target ho]
      simp [outbox, log, handed]
  | sendIfLive c =>
    have ht : l.outbox.target = l.target := rfl
    simp only [Outbox.apply, Outbox.sendIfLive, ht]
    refine ⟨rfl, ?_⟩
    cases ht : l.target <;> simp [apply, use, log, handed, ht]
  | roundTrip callback =>
    let o := { l.outbox with pongs := l.outbox.pongs ++ [callback] }
    simp only [Outbox.apply, Outbox.roundTrip, apply, use]
    cases ht : l.target with
    | none =>
      have ho : o.target = none := ht
      rw [put_of_no_target ht, Outbox.send_of_no_target ho]
      simp [outbox, log, o]
    | some w =>
      have ho : o.target = some w := ht
      rw [put_of_target ht, Outbox.send_of_target ho]
      simp [outbox, log, handed, o]
  | complete =>
    simp only [Outbox.apply, Outbox.complete, apply, use, complete]
    cases ht : l.trips <;> simp [outbox, log, ht]
  | attach w preamble =>
    simp only [Outbox.apply, Outbox.attach, apply, use, attach]
    cases hw : w.isOpen <;> simp [outbox, log, map_handed, Function.comp_def]
  | detach =>
    simp only [Outbox.apply, Outbox.detach, apply, use, detach]
    refine ⟨?_, (List.append_nil _).symm⟩
    simp [outbox, Function.comp_def, List.map_const', Nat.min_eq_left h]
  | breakWriter => exact ⟨rfl, (List.append_nil _).symm⟩
  | close => exact ⟨rfl, (List.append_nil _).symm⟩

theorem run_erases {l : Ledger α κ} (h : l.outbox.Steady) (ops : List (Outbox.Op α κ)) :
    (l.run ops).outbox = (l.outbox.run ops).2 ∧
      (l.run ops).log = l.log ++ (l.outbox.run ops).1 := by
  induction ops generalizing l with
  | nil => exact ⟨rfl, (List.append_nil _).symm⟩
  | cons op ops ih =>
    have hle : l.inFlight ≤ l.trips.length := by simpa [outbox] using h.le
    obtain ⟨ho, hl⟩ := apply_erases hle op
    obtain ⟨ho', hl'⟩ := ih (ho ▸ h.apply op)
    rw [run_cons, Outbox.run_cons, ho', hl', ho, hl, List.append_assoc]
    exact ⟨rfl, rfl⟩

end Ledger

end Herald
