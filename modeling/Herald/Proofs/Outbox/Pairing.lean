import Herald.Proofs.Along
import Herald.Proofs.Outbox.Ledger

namespace Herald.Ledger

variable {α κ : Type}

def sentOn (sent : List (Nat × Sent α)) (n : Nat) : List (Nat × Parcel α) :=
  (sent.filter (·.2.writer == n)).map fun s ↦ (s.1, s.2.parcel)

@[simp] theorem sentOn_append (as bs : List (Nat × Sent α)) (n : Nat) :
    sentOn (as ++ bs) n = sentOn as n ++ sentOn bs n := by
  simp [sentOn]

theorem sentOn_handed (w : Writer) (ps : List (Nat × Parcel α)) (n : Nat) :
    sentOn (handed w ps) n = if w.number = n then ps else [] := by
  split
  · rename_i h
    simp [sentOn, handed, List.filter_map, Function.comp_def, h]
  · rename_i h
    simp [sentOn, handed, List.filter_map, Function.comp_def, h]

theorem map_sentOn (sent : List (Nat × Sent α)) (n : Nat) :
    (sentOn sent n).map (·.2) = Sent.received (sent.map (·.2)) n := by
  simp [sentOn, Sent.received, List.filter_map, Function.comp_def]

def pings (ps : List (Nat × Parcel α)) : List Nat :=
  ps.filterMap fun p ↦ match p.2 with
    | .ping => some p.1
    | .command _ => none

@[simp] theorem pings_append (ps qs : List (Nat × Parcel α)) :
    pings (ps ++ qs) = pings ps ++ pings qs := List.filterMap_append

@[simp] theorem pings_map_command (n : Nat) (cs : List α) :
    pings (cs.map fun c ↦ (n, .command c)) = [] := by
  simp [pings]

@[simp] theorem pings_map_ping (ts : List (Nat × κ)) :
    pings (ts.map fun t ↦ (t.1, (.ping : Parcel α))) = ts.map (·.1) := by
  simp [pings]

theorem length_pings (ps : List (Nat × Parcel α)) :
    (pings ps).length = (ps.map (·.2)).countP Parcel.isPing := by
  induction ps with
  | nil => rfl
  | cons p ps ih =>
    rcases p with ⟨n, c | _⟩
    · rw [List.map_cons, List.countP_cons_of_neg (by simp [Parcel.isPing]), ← ih]
      rfl
    · rw [List.map_cons, List.countP_cons_of_pos rfl, ← ih]
      rfl

def answersOn (answered : List (Nat × Nat × κ)) (n : Nat) : List Nat :=
  (answered.filter (·.1 == n)).map (·.2.1)

@[simp] theorem answersOn_append (as bs : List (Nat × Nat × κ)) (n : Nat) :
    answersOn (as ++ bs) n = answersOn as n ++ answersOn bs n := by
  simp [answersOn]

def history (l : Ledger α κ) : List (Nat × κ) := l.answered.map (·.2) ++ l.trips

/-- The requests of the writer in use are those of the round trips completed on it and then those of
the round trips in flight, and the requests that wait are those of the other round trips. -/
structure Sound (l : Ledger α κ) : Prop where
  le : l.inFlight ≤ l.trips.length
  idle : l.writer = none → l.inFlight = 0
  flushed : l.target.isSome → l.pending = []
  waiting : pings l.pending = (l.trips.drop l.inFlight).map (·.1)
  paired : ∀ w, l.writer = some w → pings (sentOn l.sent w.number) =
    answersOn l.answered w.number ++ (l.trips.take l.inFlight).map (·.1)
  ahead : ∀ n, answersOn l.answered n <+: pings (sentOn l.sent n)
  order : (l.history.map (·.1)).Pairwise (· < ·)
  past : ∀ t ∈ l.history, t.1 < l.time
  known : ∀ s ∈ l.sent, s.2.writer ∈ l.attached
  current : ∀ w, l.writer = some w → w.number ∈ l.attached

/-- A use that a well-behaved client and server may come to. A round trip completes only on a
writer, and if that one is not open then only a round trip in flight. A writer is put to use once,
when it is open and no other is in use. -/
def Fits (l : Ledger α κ) : Outbox.Op α κ → Prop
  | .complete => ∃ w, l.writer = some w ∧ (w.isOpen ∨ 0 < l.inFlight)
  | .attach w _ => w.isOpen ∧ l.writer = none ∧ w.number ∉ l.attached
  | _ => True

theorem target_eq_some_iff {l : Ledger α κ} {w : Writer} :
    l.target = some w ↔ l.writer = some w ∧ w.isOpen :=
  Outbox.target_eq_some_iff (o := l.outbox)

namespace Sound

variable {l : Ledger α κ}

theorem steady (h : l.Sound) : l.outbox.Steady := ⟨by simpa [outbox] using h.le, h.idle⟩

theorem inFlight_eq (h : l.Sound) (ht : l.target.isSome) : l.inFlight = l.trips.length := by
  have hw := h.waiting
  rw [h.flushed ht] at hw
  have hd : l.trips.drop l.inFlight = [] := List.map_eq_nil_iff.1 hw.symm
  exact Nat.le_antisymm h.le (List.drop_eq_nil_iff.1 hd)

/-- The round trips not completed are those in flight and those whose request waits. -/
theorem length_trips (h : l.Sound) :
    l.trips.length = l.inFlight + (l.pending.map (·.2)).countP Parcel.isPing := by
  rw [← length_pings, h.waiting, List.length_map, List.length_drop]
  exact (Nat.add_sub_cancel' h.le).symm

theorem sentOn_eq_nil (h : l.Sound) {n : Nat} (hn : n ∉ l.attached) : sentOn l.sent n = [] := by
  rw [sentOn, List.filter_eq_nil_iff.2, List.map_nil]
  exact fun s hs he ↦ hn (by simpa [← beq_iff_eq.1 he] using h.known s hs)

theorem answersOn_eq_nil (h : l.Sound) {n : Nat} (hn : n ∉ l.attached) :
    answersOn l.answered n = [] := by
  have hp := h.ahead n
  rw [h.sentOn_eq_nil hn] at hp
  exact List.prefix_nil.1 hp

theorem tick (h : l.Sound) : Sound { l with time := l.time + 1 } :=
  { h with past := fun t ht ↦ Nat.lt_succ_of_lt (h.past t ht) }

theorem hand (h : l.Sound) {w : Writer} (hw : l.writer = some w) {ps : List (Nat × Parcel α)}
    (hp : pings ps = []) : Sound { l with sent := l.sent ++ handed w ps } where
  le := h.le
  idle := h.idle
  flushed := h.flushed
  waiting := h.waiting
  paired u hu := by
    have hn : pings (sentOn (handed w ps) u.number) = [] := by
      rw [sentOn_handed]
      split
      · exact hp
      · rfl
    rw [sentOn_append, pings_append, hn, List.append_nil]
    exact h.paired u hu
  ahead n := by
    rw [sentOn_append, pings_append]
    exact (h.ahead n).trans (List.prefix_append _ _)
  order := h.order
  past := h.past
  known s hs := by
    rcases List.mem_append.1 hs with hs | hs
    · exact h.known s hs
    · obtain ⟨p, -, rfl⟩ := List.mem_map.1 hs
      exact h.current w hw
  current := h.current

theorem put_command (h : l.Sound) (c : α) : (l.put (.command c)).Sound := by
  cases ht : l.target with
  | none =>
    rw [put_of_no_target ht]
    refine { h with flushed := fun hs ↦ ?_, waiting := ?_ }
    · have hs : l.target.isSome := hs
      simp [ht] at hs
    · rw [pings_append]
      exact (List.append_nil _).trans h.waiting
  | some w =>
    rw [put_of_target ht]
    exact h.hand (target_eq_some_iff.1 ht).1 rfl

theorem sendIfLive (h : l.Sound) (c : α) : (l.use (.sendIfLive c)).Sound := by
  cases ht : l.target with
  | none => simpa [use, ht] using h
  | some w =>
    have hp : pings [(l.time, .command c)] = [] := rfl
    simpa [use, ht] using h.hand (target_eq_some_iff.1 ht).1 hp

theorem order_snoc (h : l.Sound) (callback : κ) :
    ((l.history ++ [(l.time, callback)]).map (·.1)).Pairwise (· < ·) := by
  rw [List.map_append, List.pairwise_append]
  refine ⟨h.order, List.pairwise_singleton _ _, ?_⟩
  intro m hm n hn
  obtain ⟨t, ht, rfl⟩ := List.mem_map.1 hm
  rw [List.mem_singleton.1 hn]
  exact h.past t ht

theorem past_snoc (h : l.Sound) (callback : κ) :
    ∀ t ∈ l.history ++ [(l.time, callback)], t.1 < l.time + 1 := by
  intro t ht
  rcases List.mem_append.1 ht with ht | ht
  · exact Nat.lt_succ_of_lt (h.past t ht)
  · rw [List.mem_singleton.1 ht]
    exact Nat.lt_succ_self _

theorem roundTrip_queued (h : l.Sound) (ht : l.target = none) (callback : κ) :
    Sound { l with
      time := l.time + 1
      pending := l.pending ++ [(l.time, .ping)]
      trips := l.trips ++ [(l.time, callback)] } where
  le := by simpa using Nat.le_succ_of_le h.le
  idle := h.idle
  flushed hs := by
    have hs : l.target.isSome := hs
    simp [ht] at hs
  waiting := by
    rw [pings_append, h.waiting, List.drop_append_of_le_length h.le, List.map_append]
    rfl
  paired w hw := by
    rw [List.take_append_of_le_length h.le]
    exact h.paired w hw
  ahead := h.ahead
  order := by simpa [history] using h.order_snoc callback
  past := by simpa [history] using h.past_snoc callback
  known := h.known
  current := h.current

theorem roundTrip_sent (h : l.Sound) {w : Writer} (ht : l.target = some w) (callback : κ) :
    Sound { l with
      time := l.time + 1
      trips := l.trips ++ [(l.time, callback)]
      inFlight := l.inFlight + 1
      sent := l.sent ++ handed w [(l.time, .ping)] } := by
  have hw := (target_eq_some_iff.1 ht).1
  have hi := h.inFlight_eq (by simp [ht])
  have hl : (l.trips ++ [(l.time, callback)]).length = l.inFlight + 1 := by simp [hi]
  refine { h with
    le := Nat.le_of_eq hl.symm, idle := fun hn ↦ ?_, waiting := ?_
    paired := fun u hu ↦ ?_, ahead := fun n ↦ ?_
    order := ?_, past := ?_, known := fun s hs ↦ ?_ }
  · cases hw.symm.trans hn
  · rw [h.flushed (by simp [ht]), ← hl, List.drop_length]
    rfl
  · obtain rfl : w = u := Option.some.inj (hw.symm.trans hu)
    rw [← hl, List.take_length, List.map_append, sentOn_append, pings_append, h.paired w hw, hi,
      List.take_length, sentOn_handed, if_pos rfl, List.append_assoc]
    rfl
  · rw [sentOn_append, pings_append]
    exact (h.ahead n).trans (List.prefix_append _ _)
  · simpa [history] using h.order_snoc callback
  · simpa [history] using h.past_snoc callback
  · rcases List.mem_append.1 hs with hs | hs
    · exact h.known s hs
    · obtain ⟨p, -, rfl⟩ := List.mem_map.1 hs
      exact h.current w hw

theorem roundTrip (h : l.Sound) (callback : κ) : (l.apply (.roundTrip callback)).Sound := by
  unfold Ledger.apply use
  cases ht : l.target with
  | none =>
    rw [put_of_no_target ht]
    exact h.roundTrip_queued ht callback
  | some w =>
    rw [put_of_target ht]
    exact h.roundTrip_sent ht callback

theorem complete (h : l.Sound) (hf : l.Fits .complete) : l.complete.Sound := by
  obtain ⟨w, hw, hi⟩ := hf
  unfold Ledger.complete
  split
  · exact h
  · rename_i t trips ht
    -- An open writer was handed the requests of all round trips, so there is one in flight.
    have hp : 0 < l.inFlight := by
      rcases hi with ho | hi
      · rw [h.inFlight_eq (by simp [target, hw, ho]), ht]
        exact Nat.succ_pos _
      · exact hi
    obtain ⟨n, hn⟩ := Nat.exists_eq_succ_of_ne_zero (Nat.ne_of_gt hp)
    have hh : (l.answered ++ [(w.number, t)]).map (·.2) ++ trips = l.history := by
      simp [history, ht]
    have hle := h.le
    have hwait := h.waiting
    have hpair := h.paired w hw
    rw [ht, hn] at hle hwait hpair
    have hself : pings (sentOn l.sent w.number) =
        answersOn (l.answered ++ [(w.number, t)]) w.number ++ (trips.take n).map (·.1) := by
      rw [hpair, answersOn_append]
      simp [answersOn]
    have hl : l.writer.toList.map (fun w ↦ (w.number, t)) = [(w.number, t)] := by
      rw [hw]
      rfl
    rw [hl, hn]
    refine { h with
      le := ?_, idle := fun hn ↦ ?_, waiting := ?_, paired := fun u hu ↦ ?_, ahead := fun m ↦ ?_
      order := ?_, past := ?_ }
    · exact Nat.le_of_succ_le_succ hle
    · cases hw.symm.trans hn
    · exact hwait
    · obtain rfl : w = u := Option.some.inj (hw.symm.trans hu)
      exact hself
    · by_cases hm : w.number = m
      · subst hm
        exact ⟨_, hself.symm⟩
      · have hs : answersOn [(w.number, t)] m = [] := by simp [answersOn, hm]
        have ha := h.ahead m
        rw [← List.append_nil (answersOn _ _), ← hs, ← answersOn_append] at ha
        exact ha
    · exact (congrArg (List.map (·.1)) hh).symm ▸ h.order
    · exact fun t ht ↦ h.past t (hh ▸ ht)

theorem attach (h : l.Sound) {w : Writer} (preamble : List α)
    (hf : l.Fits (.attach w preamble)) : (l.attach w preamble).Sound := by
  obtain ⟨ho, hn, hw⟩ := hf
  have hi := h.idle hn
  have hwait := h.waiting
  rw [hi, List.drop_zero] at hwait
  have hnone := h.sentOn_eq_nil hw
  have ha := h.answersOn_eq_nil hw
  simp only [Ledger.attach, if_pos ho]
  refine { h with
    le := Nat.le_refl _, idle := fun hn ↦ ?_, flushed := fun _ ↦ rfl, waiting := ?_
    paired := fun u hu ↦ ?_, ahead := fun n ↦ ?_, known := fun s hs ↦ ?_, current := fun u hu ↦ ?_ }
  · cases hn
  · rw [List.drop_length]
    rfl
  · obtain rfl : w = u := Option.some.inj hu
    rw [sentOn_append, hnone, sentOn_handed, if_pos rfl, ha, List.take_length]
    simp [hwait]
  · rw [sentOn_append, pings_append]
    exact (h.ahead n).trans (List.prefix_append _ _)
  · rcases List.mem_append.1 hs with hs | hs
    · exact List.mem_append_left _ (h.known s hs)
    · obtain ⟨p, -, rfl⟩ := List.mem_map.1 hs
      simp
  · obtain rfl : w = u := Option.some.inj hu
    simp

theorem detach (h : l.Sound) : l.detach.Sound := by
  refine { h with
    le := Nat.zero_le _, idle := fun _ ↦ rfl, flushed := fun hs ↦ ?_, waiting := ?_
    paired := fun u hu ↦ ?_, current := fun u hu ↦ ?_ }
  · simp [target, Ledger.detach] at hs
  -- The requests in flight go back before those that wait, under the numbers they had.
  · simp only [Ledger.detach, pings_append, pings_map_ping, h.waiting, List.drop_zero]
    rw [← List.map_append, List.take_append_drop]
  · cases hu
  · cases hu

theorem breakWriter (h : l.Sound) : (l.use .breakWriter).Sound := by
  refine { h with
    idle := fun hn ↦ ?_, flushed := fun hs ↦ ?_, paired := fun u hu ↦ ?_, current := fun u hu ↦ ?_ }
  · exact h.idle (Option.map_eq_none_iff.1 hn)
  · simp [target, use, Option.any_map] at hs
  · obtain ⟨w, hw, rfl⟩ := Option.map_eq_some_iff.1 hu
    exact h.paired w hw
  · obtain ⟨w, hw, rfl⟩ := Option.map_eq_some_iff.1 hu
    exact h.current w hw

theorem close (h : l.Sound) : (l.use .close).Sound := by
  have hs : (l.answered.map (·.2)).Sublist l.history := List.sublist_append_left _ _
  refine { h with
    le := Nat.zero_le _, idle := fun _ ↦ rfl, flushed := fun _ ↦ rfl, waiting := rfl
    paired := fun u hu ↦ ?_, order := ?_, past := fun t ht ↦ ?_, current := fun u hu ↦ ?_ }
  · cases hu
  · simpa [history, use] using h.order.sublist (hs.map _)
  · exact h.past t (hs.subset (by simpa [history, use] using ht))
  · cases hu

/-- Every use that fits keeps requests and round trips paired. -/
theorem apply (h : l.Sound) {op : Outbox.Op α κ} (hf : l.Fits op) : (l.apply op).Sound := by
  cases op with
  | send c => exact (h.put_command c).tick
  | sendIfLive c => exact (h.sendIfLive c).tick
  | roundTrip callback => exact h.roundTrip callback
  | complete => exact (h.complete hf).tick
  | attach w preamble => exact (h.attach preamble hf).tick
  | detach => exact h.detach.tick
  | breakWriter => exact h.breakWriter.tick
  | close => exact h.close.tick

theorem new : Sound ({} : Ledger α κ) where
  le := Nat.le_refl _
  idle _ := rfl
  flushed _ := rfl
  waiting := rfl
  paired w hw := by cases hw
  ahead n := List.prefix_rfl
  order := List.Pairwise.nil
  past t ht := by cases ht
  known s hs := by cases hs
  current w hw := by cases hw

end Sound

def AllFit (l : Ledger α κ) (ops : List (Outbox.Op α κ)) : Prop := Along apply Fits l ops

theorem Sound.run {l : Ledger α κ} (h : l.Sound) {ops : List (Outbox.Op α κ)}
    (hf : l.AllFit ops) : (l.run ops).Sound := by
  obtain ⟨-, hs⟩ := Along.invariant (fun _ _ hs hop ↦ hs.apply hop) h hf
  exact hs

def number (l : Ledger α κ) : Option Nat := l.writer.map (·.number)

theorem Fits.of_plain {l : Ledger α κ} {op : Outbox.Op α κ} (h : op.Plain) : l.Fits op := by
  cases op with
  | complete | attach w preamble => exact h.elim
  | _ => trivial

theorem AllFit.of_plain {l : Ledger α κ} {ops : List (Outbox.Op α κ)}
    (h : ∀ op ∈ ops, op.Plain) : l.AllFit ops := by
  induction ops generalizing l with
  | nil => trivial
  | cons op ops ih =>
    exact ⟨.of_plain (h op List.mem_cons_self), ih fun op hop ↦ h op (List.mem_cons_of_mem _ hop)⟩

structure SameWriters (l m : Ledger α κ) : Prop where
  number : m.number = l.number
  attached : m.attached = l.attached
  dropped : m.dropped = l.dropped

theorem SameWriters.complete (l : Ledger α κ) :
    l.SameWriters (l.apply .complete) ∧ (l.apply .complete).writer = l.writer := by
  simp only [Ledger.apply, use, Ledger.complete]
  split <;> exact ⟨⟨rfl, rfl, rfl⟩, rfl⟩

theorem SameWriters.breakWriter (l : Ledger α κ) : l.SameWriters (l.apply .breakWriter) :=
  ⟨by simp [Ledger.number, Ledger.apply, use, Function.comp_def], rfl, rfl⟩

theorem run_plain (l : Ledger α κ) {ops : List (Outbox.Op α κ)} (h : ∀ op ∈ ops, op.Plain) :
    l.SameWriters (l.run ops) ∧ (l.run ops).writer = l.writer ∧
      (l.run ops).answered = l.answered := by
  induction ops generalizing l with
  | nil => exact ⟨⟨rfl, rfl, rfl⟩, rfl, rfl⟩
  | cons op ops ih =>
    obtain ⟨⟨hn, ha, hd⟩, hw, hs⟩ := ih (l.apply op) fun op hop ↦ h op (List.mem_cons_of_mem _ hop)
    have hop := h op List.mem_cons_self
    cases op with
    | send c | sendIfLive c | roundTrip callback => exact ⟨⟨hn, ha, hd⟩, hw, hs⟩
    | complete | attach w preamble | detach | breakWriter | close => exact hop.elim

theorem answered_complete {l : Ledger α κ} {w : Writer} {t : Nat × κ} {trips : List (Nat × κ)}
    (hw : l.writer = some w) (ht : l.trips = t :: trips) :
    (l.apply .complete).answered = l.answered ++ [(w.number, t)] := by
  simp [Ledger.apply, use, complete, hw, ht]

theorem attached_subset_apply (l : Ledger α κ) (op : Outbox.Op α κ) :
    l.attached ⊆ (l.apply op).attached := by
  cases op with
  | complete => exact (SameWriters.complete l).1.attached ▸ List.Subset.refl _
  | attach w preamble => exact List.subset_append_left _ _
  | _ => exact List.Subset.refl _

theorem attached_subset (l : Ledger α κ) (ops : List (Outbox.Op α κ)) :
    l.attached ⊆ (l.run ops).attached := by
  induction ops generalizing l with
  | nil => exact List.Subset.refl _
  | cons op ops ih => exact List.Subset.trans (l.attached_subset_apply op) (ih (l.apply op))

theorem complete_history {l : Ledger α κ} (h : l.writer.isSome) :
    l.complete.history = l.history := by
  obtain ⟨w, hw⟩ := Option.isSome_iff_exists.1 h
  unfold complete
  split
  · rfl
  · rename_i t trips ht
    simp [history, ht, hw]

theorem history_grows {l : Ledger α κ} {op : Outbox.Op α κ} (hf : l.Fits op) (hc : op ≠ .close) :
    l.history <+: (l.apply op).history := by
  cases op with
  | roundTrip callback =>
    have hh : (l.apply (.roundTrip callback)).history = l.history ++ [(l.time, callback)] :=
      (List.append_assoc _ _ _).symm
    exact hh ▸ List.prefix_append _ _
  | complete =>
    obtain ⟨w, hw, -⟩ := hf
    have hh : (l.apply .complete).history = l.history := complete_history (by simp [hw])
    exact hh ▸ List.prefix_rfl
  | close => exact (hc rfl).elim
  | send c | sendIfLive c | attach w preamble | detach | breakWriter => exact List.prefix_rfl

theorem history_grows_run {l : Ledger α κ} {ops : List (Outbox.Op α κ)} (hf : l.AllFit ops)
    (hc : .close ∉ ops) : l.history <+: (l.run ops).history := by
  induction ops generalizing l with
  | nil => exact List.prefix_rfl
  | cons op ops ih =>
    exact (history_grows hf.1 fun he ↦ hc (he ▸ List.mem_cons_self)).trans
      (ih hf.2 fun h ↦ hc (List.mem_cons_of_mem _ h))

end Herald.Ledger
