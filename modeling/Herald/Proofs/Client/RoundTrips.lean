import Herald.Proofs.Client.Calls
import Herald.Proofs.Client.History

namespace Herald

variable {κ : Type}

theorem Turn.pong?_eq_some {t : Turn κ} {n : Nat} :
    t.pong? = some n ↔ t = .event (.frame n .pong) := by
  constructor
  · intro h
    unfold pong? at h
    split at h
    · rw [Option.some.inj h]
    · cases h
  · rintro rfl
    rfl

def Reaction.Quiet (r : Reaction κ) : Prop :=
  match r.call with
  | some (.acked _) | some (.connected _) => False
  | _ => True

namespace Client

/-- Only an answer in the connection in use runs the callback of a round trip. -/
theorem turn_quiet (c : Client κ) {t : Turn κ} (h : t ≠ .event (.frame c.generation .pong)) :
    (c.turn t).Quiet := by
  unfold Reaction.Quiet
  split
  · rename_i hc
    exact h (turn_call hc).1
  · rename_i hc
    exact h (turn_call hc).1
  · trivial

end Client

namespace History

def Intact (h : History κ) : Prop := ∀ w, h.ledger.writer = some w → w.isOpen

structure Tallied (h : History κ) : Prop where
  known : ∀ n ∈ h.pongs, n ∈ h.ledger.attached
  count : ∀ w, h.ledger.writer = some w →
    h.pongs.count w.number = (Ledger.answersOn h.ledger.answered w.number).length

theorem Sound.connected {h : History κ} (hs : h.Sound) {f : Frame}
    (ha : h.Admits (.event (.frame h.client.generation f))) : h.client.phase = .connected :=
  (hs.tracks.live ha.1).resolve_left ha.2

theorem Sound.writer {h : History κ} (hs : h.Sound) (hp : h.client.phase = .connected) :
    ∃ w, h.ledger.writer = some w ∧ w.number = h.client.generation :=
  Option.map_eq_some_iff.1 (hs.tracks.number.trans (if_pos hp))

theorem Sound.number_of_writer {h : History κ} (hs : h.Sound) {w : Writer}
    (hw : h.ledger.writer = some w) : w.number = h.client.generation := by
  have hn := hs.tracks.number
  rw [Ledger.number, hw] at hn
  split at hn
  · exact Option.some.inj hn
  · cases hn

theorem Intact.ready {h : History κ} (hi : h.Intact) (hs : h.Sound) {t : Turn κ}
    (ha : h.Admits t) : h.Ready t := by
  intro ht
  obtain rfl := Turn.pong?_eq_some.1 ht
  obtain ⟨w, hw, -⟩ := hs.writer (hs.connected ha)
  exact ⟨w, hw, .inl (hi w hw)⟩

theorem Intact.next {h : History κ} (hi : h.Intact) {t : Turn κ} (ht : t ≠ .broken) :
    (h.next t).Intact := by
  intro w hw
  have hm := h.client.turn_moves t
  have hw : (h.ledger.run (h.client.turnUses t)).writer = some w := hw
  generalize h.client.turnUses t = ops at hm hw
  generalize (h.client.turn t).client.standing = s at hm
  cases hm with
  | stay hp => exact hi w ((h.ledger.run_plain hp).2.1 ▸ hw)
  | complete => exact hi w ((Ledger.SameWriters.complete h.ledger).2 ▸ hw)
  | snap hb => exact (ht hb).elim
  | wander => exact hi w hw
  | connect =>
    obtain rfl := Option.some.inj hw
    rfl
  | lose | stop | fall => cases hw

theorem Tallied.new (options : ClientOptions) : (new (κ := κ) options).Tallied :=
  ⟨nofun, nofun⟩

/-- An answer that is owed finds a round trip in flight, whose request comes next on the
connection. -/
theorem Tallied.pong {h : History κ} (hl : h.Tallied) (hs : h.Sound)
    (ha : h.Admits (.event (.frame h.client.generation .pong)))
    (ho : h.Owes (.event (.frame h.client.generation .pong))) :
    ∃ w t trips, h.ledger.writer = some w ∧ h.ledger.trips = t :: trips ∧
      0 < h.ledger.inFlight ∧
      (h.pingsOn h.client.generation)[h.pongs.count h.client.generation]? = some t.1 := by
  obtain ⟨w, hw, hg⟩ := hs.writer (hs.connected ha)
  have hlt : h.pongs.count h.client.generation < (h.pingsOn h.client.generation).length := ho
  have hp : h.pingsOn w.number = _ := hs.ledger.paired w hw
  rw [← hg, hl.count w hw, hp, List.length_append, List.length_map, List.length_take] at hlt
  have hi : 0 < h.ledger.inFlight := by omega
  obtain ⟨n, hn⟩ := Nat.exists_eq_succ_of_ne_zero (Nat.ne_of_gt hi)
  cases ht : h.ledger.trips with
  | nil => simp [ht] at hlt
  | cons t trips =>
    refine ⟨w, t, trips, hw, rfl, hi, ?_⟩
    rw [← hg, hl.count w hw, hp, ht, hn]
    simp

theorem Tallied.ready {h : History κ} (hl : h.Tallied) (hs : h.Sound) {t : Turn κ}
    (ha : h.Admits t) (ho : h.Owes t) : h.Ready t := by
  intro ht
  obtain rfl := Turn.pong?_eq_some.1 ht
  obtain ⟨w, -, -, hw, -, hi, -⟩ := hl.pong hs ha ho
  exact ⟨w, hw, .inr hi⟩

theorem pong_mem_attached {h : History κ} {t : Turn κ} (ha : h.Admits t) {n : Nat}
    (hn : t.pong? = some n) : n ∈ h.ledger.attached := by
  obtain rfl := Turn.pong?_eq_some.1 hn
  exact ha.1

theorem count_pongs_next {h : History κ} {t : Turn κ} {n : Nat} (hn : t.pong? ≠ some n) :
    (h.next t).pongs.count n = h.pongs.count n := by
  simp only [next, List.count_append]
  cases ht : t.pong? with
  | none => rfl
  | some m =>
    rw [ht] at hn
    simp [show m ≠ n from fun he ↦ hn (he ▸ rfl)]

theorem turnUses_pong (c : Client κ) :
    c.turnUses (.event (.frame c.generation .pong)) = [.complete] := by
  simp [Client.turnUses, Client.uses, Client.receiveUses]

theorem Tallied.next {h : History κ} (hl : h.Tallied) (hs : h.Sound) {t : Turn κ}
    (ha : h.Admits t) (ho : h.Owes t) : (h.next t).Tallied := by
  refine ⟨fun n hn ↦ ?_, fun w hw ↦ ?_⟩
  · have hg := h.ledger.attached_subset (h.client.turnUses t)
    rcases List.mem_append.1 hn with hn | hn
    · exact hg (hl.known n hn)
    · exact hg (pong_mem_attached ha (by simpa using hn))
  -- Both counts grow by an answer on the connection in use, and by nothing else.
  by_cases ht : t.pong? = some h.client.generation
  · obtain rfl := Turn.pong?_eq_some.1 ht
    obtain ⟨v, t, trips, hv, htr, -, -⟩ := hl.pong hs ha ho
    simp only [History.next, turnUses_pong, Ledger.run_cons, Ledger.run_nil] at hw ⊢
    obtain rfl : v = w := by
      rw [(Ledger.SameWriters.complete h.ledger).2, hv] at hw
      exact Option.some.inj hw
    rw [Ledger.answered_complete hv htr, Ledger.answersOn_append, List.length_append,
      List.count_append, hl.count v hv, ht, hs.number_of_writer hv]
    simp [Ledger.answersOn]
  · have hm := h.client.turn_moves t
    have hc {n : Nat} (hn : t.pong? ≠ some n) := count_pongs_next (h := h) hn
    have hw : (h.ledger.run (h.client.turnUses t)).writer = some w := hw
    show _ = (Ledger.answersOn (h.ledger.run (h.client.turnUses t)).answered w.number).length
    generalize h.client.turnUses t = ops at hm hw ⊢
    generalize (h.client.turn t).client.standing = s at hm
    cases hm with
    | stay hp =>
      obtain ⟨-, hw', ha'⟩ := h.ledger.run_plain hp
      rw [hw'] at hw
      rw [ha', hc (hs.number_of_writer hw ▸ ht), hl.count w hw]
    | complete hb => exact (ht (hb ▸ rfl)).elim
    | snap hb =>
      obtain ⟨v, hv, rfl⟩ := Option.map_eq_some_iff.1 hw
      rw [hc (hs.number_of_writer hv ▸ ht)]
      exact hl.count v hv
    | wander hp => cases (hs.tracks.writer_none hp).symm.trans hw
    | connect hp =>
      obtain rfl := Option.some.inj hw
      have hn : h.client.generation + 1 ∉ h.ledger.attached := hs.tracks.not_attached
      have hz : h.pongs.count (h.client.generation + 1) = 0 :=
        List.count_eq_zero.2 fun hm ↦ hn (hl.known _ hm)
      rw [hc (n := h.client.generation + 1) fun he ↦ hn (pong_mem_attached ha he), hz]
      exact congrArg List.length (hs.ledger.answersOn_eq_nil hn).symm
    | lose | stop | fall => cases hw

def Completes (h : History κ) (n : Nat) (t : Nat × RoundTrip κ) : Prop :=
  (h.next (.event (.frame n .pong))).ledger.answered = h.ledger.answered ++ [(n, t)]

/-- An answer on a connection completes the round trip that the next request on that connection
belongs to, and runs its callback. -/
structure Matched (h : History κ) (n : Nat) (t : Nat × RoundTrip κ) : Prop where
  request : (h.pingsOn n)[h.pongs.count n]? = some t.1
  completes : h.Completes n t
  callback : h.client.turn (.event (.frame n .pong)) =
    { h.client with outbox := h.client.outbox.complete.2 }.answer t.2

/-- An answer that is owed completes the oldest round trip. -/
theorem Tallied.matched {h : History κ} (hl : h.Tallied) (hs : h.Sound)
    (ha : h.Admits (.event (.frame h.client.generation .pong)))
    (ho : h.Owes (.event (.frame h.client.generation .pong))) :
    ∃ w t trips, h.ledger.writer = some w ∧ h.ledger.trips = t :: trips ∧
      0 < h.ledger.inFlight ∧ h.Matched h.client.generation t := by
  obtain ⟨w, t, trips, hw, ht, hi, hr⟩ := hl.pong hs ha ho
  refine ⟨w, t, trips, hw, ht, hi, hr, ?_, ?_⟩
  · simp only [Completes, History.next, turnUses_pong, Ledger.run_cons, Ledger.run_nil]
    rw [Ledger.answered_complete hw ht, hs.number_of_writer hw]
  · have hp : h.client.outbox.pongs = t.2 :: trips.map (·.2) := by
      rw [← hs.outbox, Ledger.outbox, ht]
      rfl
    simp only [Client.turn, Client.step, Client.receive]
    rw [if_neg (not_not_intro rfl), Client.pong_eq, hp, Outbox.complete, hp]

/-- What holds of the round trips of a client at any time. The ledger tells which callback a
request belongs to, by the number they share. -/
structure Paired (h : History κ) : Prop where
  exact : h.ledger.outbox = h.client.outbox
  outstanding : h.client.outbox.pongs.length =
    h.client.outbox.inFlight + h.client.outbox.pending.countP Parcel.isPing
  live : h.client.phase = .connected → h.client.outbox.pongs.length = h.client.outbox.inFlight
  ordered : (h.ledger.history.map (·.1)).Pairwise (· < ·)
  ahead : ∀ n, Ledger.answersOn h.ledger.answered n <+: h.pingsOn n
  kept : ∀ e, h.Admits (.event e) → h.client.Goes (.event e) →
    h.ledger.history <+: (h.next (.event e)).ledger.history

theorem Sound.paired {h : History κ} (hs : h.Sound) (hi : h.Intact) : h.Paired where
  exact := hs.outbox
  outstanding := by
    rw [← hs.outbox]
    simpa [Ledger.outbox] using hs.ledger.length_trips
  live hp := by
    obtain ⟨w, hw, -⟩ := hs.writer hp
    rw [← hs.outbox]
    have ht : h.ledger.target.isSome := by simp [Ledger.target, hw, hi w hw]
    simpa [Ledger.outbox] using (hs.ledger.inFlight_eq ht).symm
  ordered := hs.ledger.order
  ahead := hs.ledger.ahead
  kept _ ha hg := Ledger.history_grows_run (hs.allFit (hi.ready hs ha)) hg.not_mem_close

structure Answers (h : History κ) : Prop where
  current : h.Admits (.event (.frame h.client.generation .pong)) →
    h.Owes (.event (.frame h.client.generation .pong)) →
    ∃ t ∈ h.ledger.trips, h.Matched h.client.generation t
  old : ∀ n, n ≠ h.client.generation →
    h.client.turn (.event (.frame n .pong)) = { client := h.client }
  only : ∀ t, t ≠ .event (.frame h.client.generation .pong) → (h.client.turn t).Quiet

theorem Tallied.answers {h : History κ} (hl : h.Tallied) (hs : h.Sound) : h.Answers where
  current ha ho := by
    obtain ⟨w, t, trips, -, ht, -, hm⟩ := hl.matched hs ha ho
    exact ⟨t, ht ▸ List.mem_cons_self, hm⟩
  old n hn := by
    simp only [Client.turn, Client.step, Client.receive]
    rw [if_pos (Ne.symm hn)]
  only _ ht := h.client.turn_quiet ht

theorem Sound.of_events {h : History κ} (hs : h.Sound) (hi : h.Intact) {es : List (Event κ)}
    (ha : Along Admits h (es.map .event)) :
    (h.after (es.map .event)).Sound ∧ (h.after (es.map .event)).Intact := by
  have hb : ∀ t ∈ es.map (.event : Event κ → Turn κ), t ≠ .broken := by simp
  obtain ⟨-, hi⟩ := (ha.and (.of_forall hb h)).invariant (I := fun h ↦ h.Sound ∧ h.Intact)
    (fun h t hi hp ↦ ⟨hi.1.next (hi.2.ready hi.1 hp.1), hi.2.next hp.2⟩) ⟨hs, hi⟩
  exact hi

theorem Sound.of_owes {h : History κ} (hs : h.Sound) (hl : h.Tallied) {ts : List (Turn κ)}
    (ha : Along Admits h ts) (ho : Along Owes h ts) :
    Along (fun h t ↦ (h.Sound ∧ h.Tallied) ∧ h.Admits t ∧ h.Owes t) h ts ∧
      (h.after ts).Sound ∧ (h.after ts).Tallied :=
  (ha.and ho).invariant (I := fun h ↦ h.Sound ∧ h.Tallied)
    (fun _ _ hi hp ↦ ⟨hi.1.next (hi.2.ready hi.1 hp.1 hp.2), hi.2.next hi.1 hp.1 hp.2⟩) ⟨hs, hl⟩

/-- At any time of any run the round trips of a client are accounted for. If the server sends no
answer that it does not owe, each answer runs the callback of its own request. -/
theorem round_trips_paired (options : ClientOptions) (es : List (Event κ))
    (ha : Along Admits (new options) (es.map .event)) :
    let h := (new options).after (es.map .event)
    h.client = (Client.run { options } es).2 ∧
      h.ledger.log = (Client.run { options } es).1.flatMap Reaction.written ∧
      h.Paired ∧ (Along Owes (new options) (es.map .event) → h.Answers) := by
  obtain ⟨hs, hi⟩ := (Sound.new options).of_events nofun ha
  refine ⟨?_, ?_, hs.paired hi, fun ho ↦ ?_⟩
  · rw [after_client, Client.turns_events]
    rfl
  · rw [log_after, Client.log, Client.turns_events]
  · obtain ⟨-, -, hl⟩ := (Sound.new options).of_owes (.new options) ha ho
    exact hl.answers hs

def interruptedFlush : List (Event Nat) :=
  [.begin .localhost, .connected .localhost, .frame 1 .pong, .flush 7, .lost 1, .flush 8,
    .wake 0, .connected .localhost, .frame 2 .pong]

theorem round_trips_paired_interruptedFlush :
    Along Admits (new {}) (interruptedFlush.map .event) ∧
      Along Owes (new {}) (interruptedFlush.map .event) ∧
      ((new {}).after (interruptedFlush.map .event)).Paired ∧
      ((new {}).after (interruptedFlush.map .event)).Answers := by
  have ha : Along Admits (new {}) (interruptedFlush.map .event) := by decide
  have ho : Along Owes (new {}) (interruptedFlush.map .event) := by decide
  obtain ⟨-, -, hp, hw⟩ := round_trips_paired {} interruptedFlush ha
  exact ⟨ha, ho, hp, hw ho⟩

end History

end Herald
