import Herald.Proofs.Outbox.Pairing

namespace Herald.Ledger

variable {α κ : Type}

theorem mem_handed {w : Writer} {ps : List (Nat × Parcel α)} {s : Nat × Sent α} :
    s ∈ handed w ps ↔ (s.1, s.2.parcel) ∈ ps ∧ s.2.writer = w.number := by
  rcases s with ⟨n, m, p⟩
  simp only [handed, List.mem_map, Prod.mk.injEq, Sent.mk.injEq]
  constructor
  · rintro ⟨q, hq, rfl, rfl, rfl⟩
    exact ⟨hq, rfl⟩
  · rintro ⟨hq, rfl⟩
    exact ⟨(n, p), hq, rfl, rfl, rfl⟩

theorem mem_put_sent {l : Ledger α κ} {p : Parcel α} {s : Nat × Sent α}
    (h : s ∈ l.sent ++ l.target.toList.flatMap (handed · [(l.time, p)])) :
    s ∈ l.sent ∨ s.1 = l.time := by
  rcases List.mem_append.1 h with h | h
  · exact .inl h
  · obtain ⟨w, -, h⟩ := List.mem_flatMap.1 h
    have hp := List.mem_singleton.1 (mem_handed.1 h).1
    exact .inr (congrArg Prod.fst hp)

/-- A parcel that was handed over was so before, is new, or waited for the writer now in use. -/
theorem mem_sent_apply {l : Ledger α κ} {op : Outbox.Op α κ} {s : Nat × Sent α}
    (h : s ∈ (l.apply op).sent) : s ∈ l.sent ∨ s.1 = l.time ∨
      (s.1, s.2.parcel) ∈ l.pending ∧ ∃ w preamble, op = .attach w preamble ∧
        w.number = s.2.writer := by
  cases op with
  | send c | sendIfLive c | roundTrip callback =>
    rcases mem_put_sent h with h | h
    · exact .inl h
    · exact .inr (.inl h)
  | complete =>
    simp only [apply, use, complete] at h
    split at h <;> exact .inl h
  | attach w preamble =>
    rcases List.mem_append.1 h with h | h
    · exact .inl h
    · split at h
      · obtain ⟨hp, hw⟩ := mem_handed.1 h
        rcases List.mem_append.1 hp with hp | hp
        · obtain ⟨c, -, hc⟩ := List.mem_map.1 hp
          exact .inr (.inl (congrArg Prod.fst hc).symm)
        · exact .inr (.inr ⟨hp, w, preamble, rfl, hw.symm⟩)
      · cases h
  | detach | breakWriter | close => exact .inl h

theorem mem_pending_apply {l : Ledger α κ} {op : Outbox.Op α κ} {p : Nat × Parcel α}
    (h : p ∈ (l.apply op).pending) : p ∈ l.pending ∨ p.1 = l.time ∨ ∃ t ∈ l.trips, t.1 = p.1 := by
  cases op with
  | send c | roundTrip callback =>
    rcases List.mem_append.1 h with h | h
    · exact .inl h
    · split at h
      · cases h
      · exact .inr (.inl (congrArg Prod.fst (List.mem_singleton.1 h)))
  | complete =>
    simp only [apply, use, complete] at h
    split at h <;> exact .inl h
  | detach =>
    rcases List.mem_append.1 h with h | h
    · obtain ⟨t, ht, rfl⟩ := List.mem_map.1 h
      exact .inr (.inr ⟨t, List.mem_of_mem_take ht, rfl⟩)
    · exact .inl h
  | attach w preamble | close => cases h
  | sendIfLive c | breakWriter => exact .inl h

theorem mem_trips_apply {l : Ledger α κ} {op : Outbox.Op α κ} {t : Nat × κ}
    (h : t ∈ (l.apply op).trips) : t ∈ l.trips ∨ t.1 = l.time := by
  cases op with
  | roundTrip callback =>
    rcases List.mem_append.1 h with h | h
    · exact .inl h
    · exact .inr (congrArg Prod.fst (List.mem_singleton.1 h))
  | complete =>
    simp only [apply, use, complete] at h
    split at h
    · exact .inl h
    · rename_i u trips hu
      exact .inl (hu ▸ List.mem_cons_of_mem _ h)
  | close => cases h
  | send c | sendIfLive c | attach w preamble | detach | breakWriter => exact .inl h

theorem sent_grows (l : Ledger α κ) (op : Outbox.Op α κ) : l.sent <+: (l.apply op).sent := by
  cases op with
  | complete =>
    simp only [apply, use, complete]
    split <;> exact List.prefix_rfl
  | send c | sendIfLive c | roundTrip callback | attach w preamble => exact List.prefix_append _ _
  | detach | breakWriter | close => exact List.prefix_rfl

theorem sent_grows_run (l : Ledger α κ) (ops : List (Outbox.Op α κ)) :
    l.sent <+: (l.run ops).sent := by
  induction ops generalizing l with
  | nil => exact List.prefix_rfl
  | cons op ops ih => exact (l.sent_grows op).trans (ih (l.apply op))

theorem sentOn_grows_run (l : Ledger α κ) (ops : List (Outbox.Op α κ)) (n : Nat) :
    sentOn l.sent n <+: sentOn (l.run ops).sent n := by
  obtain ⟨more, hm⟩ := l.sent_grows_run ops
  rw [← hm, sentOn_append]
  exact List.prefix_append _ _

structure Dated (l : Ledger α κ) : Prop where
  pending : ∀ p ∈ l.pending, p.1 < l.time
  sent : ∀ s ∈ l.sent, s.1 < l.time
  trips : ∀ t ∈ l.trips, t.1 < l.time

theorem Dated.new : Dated ({} : Ledger α κ) := ⟨nofun, nofun, nofun⟩

theorem Dated.apply {l : Ledger α κ} (h : l.Dated) (op : Outbox.Op α κ) : (l.apply op).Dated := by
  refine ⟨fun p hp ↦ ?_, fun s hs ↦ ?_, fun t ht ↦ ?_⟩ <;> rw [apply_time, Nat.lt_succ_iff]
  · rcases mem_pending_apply hp with hp | hp | ⟨t, ht, hp⟩
    · exact Nat.le_of_lt (h.pending p hp)
    · exact Nat.le_of_eq hp
    · exact Nat.le_of_lt (hp ▸ h.trips t ht)
  · rcases mem_sent_apply hs with hs | hs | ⟨hp, -⟩
    · exact Nat.le_of_lt (h.sent s hs)
    · exact Nat.le_of_eq hs
    · exact Nat.le_of_lt (h.pending _ hp)
  · rcases mem_trips_apply ht with ht | ht
    · exact Nat.le_of_lt (h.trips t ht)
    · exact Nat.le_of_eq ht

theorem Dated.run {l : Ledger α κ} (h : l.Dated) (ops : List (Outbox.Op α κ)) :
    (l.run ops).Dated := by
  induction ops generalizing l with
  | nil => exact h
  | cons op ops ih => exact ih (h.apply op)

def couple (n : Nat) (c : α) : List (Nat × Parcel α) := [(n, .command c), (n + 1, .ping)]

def CarriedBy (l : Ledger α κ) (n : Nat) (c : α) (w : Nat) : Prop :=
  (couple n c).Sublist (sentOn l.sent w)

theorem CarriedBy.apply {l : Ledger α κ} {n : Nat} {c : α} {w : Nat} (h : l.CarriedBy n c w)
    (op : Outbox.Op α κ) : (l.apply op).CarriedBy n c w := by
  obtain ⟨more, hm⟩ := l.sent_grows op
  unfold CarriedBy
  rw [← hm, sentOn_append]
  exact h.trans (List.sublist_append_left _ _)

theorem CarriedBy.mem {l : Ledger α κ} {n : Nat} {c : α} {w : Nat} (h : l.CarriedBy n c w) :
    ∃ s ∈ l.sent, s.1 = n ∧ s.2.writer = w := by
  have hm : (n, Parcel.command c) ∈ sentOn l.sent w := h.subset List.mem_cons_self
  obtain ⟨s, hs, he⟩ := List.mem_map.1 hm
  obtain ⟨hs, hw⟩ := List.mem_filter.1 hs
  exact ⟨s, hs, congrArg Prod.fst he, beq_iff_eq.1 hw⟩

structure Waiting (l : Ledger α κ) (n : Nat) (c : α) : Prop where
  queued : (couple n c).Sublist l.pending
  unsent : ∀ s ∈ l.sent, s.1 ≠ n

structure Carried (l : Ledger α κ) (n : Nat) (c : α) (w : Nat) : Prop where
  handed : l.CarriedBy n c w
  once : ∀ s ∈ l.sent, s.1 = n → s.2.writer = w
  unqueued : ∀ p ∈ l.pending, p.1 ≠ n
  writer : l.number = some w ∨ w ∈ l.dropped

/-- Where a command is with the request after it, as long as the round trip is not over. -/
structure Confirms (l : Ledger α κ) (n : Nat) (c : α) : Prop where
  past : n + 1 < l.time
  apart : ∀ t ∈ l.trips, t.1 ≠ n
  fate : l.Waiting n c ∨ (∃ w, l.Carried n c w) ∨ ∀ t ∈ l.trips, t.1 ≠ n + 1

variable {l : Ledger α κ} {n : Nat} {c : α}

theorem Waiting.put (h : l.Waiting n c) (hn : n < l.time) (p : Parcel α) :
    (l.put p).Waiting n c where
  queued := h.queued.trans (List.sublist_append_left _ _)
  unsent s hs := by
    rcases mem_put_sent hs with hs | hs
    · exact h.unsent s hs
    · exact hs ▸ (Nat.ne_of_lt hn).symm

theorem Waiting.attach (h : l.Waiting n c) (hn : n < l.time) {w : Writer} (ho : w.isOpen)
    (preamble : List α) : (l.attach w preamble).Carried n c w.number where
  handed := by
    simp only [CarriedBy, Ledger.attach, if_pos ho, sentOn_append, sentOn_handed, if_pos]
    refine h.queued.trans ?_
    rw [← List.append_assoc]
    exact List.sublist_append_right _ _
  once s hs he := by
    have hs : s ∈ (l.apply (.attach w preamble)).sent := hs
    rcases mem_sent_apply hs with hs | hs | ⟨-, v, p, hv, hw⟩
    · exact (h.unsent s hs he).elim
    · exact (Nat.ne_of_lt hn (he.symm.trans hs)).elim
    · cases hv
      exact hw.symm
  unqueued := nofun
  writer := .inl rfl

theorem Waiting.apply (h : l.Waiting n c) (hn : n < l.time) {op : Outbox.Op α κ}
    (hf : l.Fits op) : (l.apply op).Waiting n c ∨ (∃ w, (l.apply op).Carried n c w) ∨
      ∀ t ∈ (l.apply op).trips, t.1 ≠ n + 1 := by
  cases op with
  | send c' => exact .inl ⟨(h.put hn _).queued, (h.put hn (.command c')).unsent⟩
  | sendIfLive c' => exact .inl ⟨h.queued, (h.put hn (.command c')).unsent⟩
  | roundTrip callback => exact .inl ⟨(h.put hn .ping).queued, (h.put hn .ping).unsent⟩
  | complete =>
    left
    simp only [Ledger.apply, use, Ledger.complete]
    split <;> exact ⟨h.queued, h.unsent⟩
  | attach w preamble =>
    obtain ⟨hh, ho, hu, hw⟩ := h.attach hn hf.1 preamble
    exact .inr (.inl ⟨w.number, hh, ho, hu, hw⟩)
  | detach => exact .inl ⟨h.queued.trans (List.sublist_append_right _ _), h.unsent⟩
  | breakWriter => exact .inl ⟨h.queued, h.unsent⟩
  | close => exact .inr (.inr fun _ ht ↦ absurd ht List.not_mem_nil)

/-- The writer that was handed a command stays in use until it is given up or the client stops. -/
theorem writer_apply {w : Nat} (h : l.number = some w ∨ w ∈ l.dropped) {op : Outbox.Op α κ}
    (hf : l.Fits op) (hc : op ≠ .close) :
    (l.apply op).number = some w ∨ w ∈ (l.apply op).dropped := by
  cases op with
  | send c | sendIfLive c | roundTrip callback => exact h
  | complete =>
    obtain ⟨⟨hn, -, hd⟩, -⟩ := SameWriters.complete l
    rwa [hn, hd]
  | attach v preamble =>
    have hn : l.number = none := by rw [number, hf.2.1]; rfl
    rw [hn] at h
    exact .inr (h.resolve_left (by rintro ⟨⟩))
  | detach =>
    refine .inr (List.mem_append.2 (h.symm.imp_right fun hw ↦ ?_))
    obtain ⟨v, hv, rfl⟩ := Option.map_eq_some_iff.1 hw
    simp [hv]
  | breakWriter =>
    obtain ⟨hn, -, hd⟩ := SameWriters.breakWriter l
    rwa [hn, hd]
  | close => exact (hc rfl).elim

theorem Carried.apply {w : Nat} (h : l.Carried n c w) (hn : n < l.time)
    (ha : ∀ t ∈ l.trips, t.1 ≠ n) {op : Outbox.Op α κ} (hf : l.Fits op) (hc : op ≠ .close) :
    (l.apply op).Carried n c w where
  handed := h.handed.apply op
  once s hs he := by
    rcases mem_sent_apply hs with hs | hs | ⟨hp, -⟩
    · exact h.once s hs he
    · exact (Nat.ne_of_lt hn (he.symm.trans hs)).elim
    · exact (h.unqueued _ hp he).elim
  unqueued p hp he := by
    rcases mem_pending_apply hp with hp | hp | ⟨t, ht, hp⟩
    · exact h.unqueued p hp he
    · exact Nat.ne_of_lt hn (he.symm.trans hp)
    · exact ha t ht (hp.trans he)
  writer := writer_apply h.writer hf hc

theorem Confirms.apply (h : l.Confirms n c) {op : Outbox.Op α κ} (hf : l.Fits op) :
    (l.apply op).Confirms n c where
  past := by
    rw [apply_time]
    exact Nat.lt_succ_of_lt h.past
  apart t ht := by
    rcases mem_trips_apply ht with ht | ht
    · exact h.apart t ht
    · exact ht ▸ (Nat.ne_of_lt (Nat.lt_of_succ_lt h.past)).symm
  fate := by
    have hn := Nat.lt_of_succ_lt h.past
    rcases h.fate with hw | ⟨w, hw⟩ | ho
    · exact hw.apply hn hf
    · by_cases hc : op = .close
      · exact .inr (.inr (hc ▸ nofun))
      · exact .inr (.inl ⟨w, hw.apply hn h.apart hf hc⟩)
    · refine .inr (.inr fun t ht ↦ ?_)
      rcases mem_trips_apply ht with ht | ht
      · exact ho t ht
      · exact ht ▸ (Nat.ne_of_lt h.past).symm

theorem Confirms.run (h : l.Confirms n c) {ops : List (Outbox.Op α κ)} (hf : l.AllFit ops) :
    (l.run ops).Confirms n c := by
  obtain ⟨-, hc⟩ := Along.invariant (I := fun l ↦ l.Confirms n c) (fun _ _ hc hop ↦ hc.apply hop)
    h hf
  exact hc

theorem run_couple_of_target {w : Writer} (ht : l.target = some w) (c : α) (callback : κ) :
    (l.run [.send c, .roundTrip callback]).pending = l.pending ∧
      (l.run [.send c, .roundTrip callback]).sent = l.sent ++ handed w (couple l.time c) := by
  rw [target] at ht
  simp [Ledger.apply, use, put, target, ht, handed, couple]

theorem run_couple_of_no_target (ht : l.target = none) (c : α) (callback : κ) :
    (l.run [.send c, .roundTrip callback]).pending = l.pending ++ couple l.time c ∧
      (l.run [.send c, .roundTrip callback]).sent = l.sent := by
  rw [target] at ht
  simp [Ledger.apply, use, put, target, ht, couple]

theorem Confirms.of_couple (h : l.Dated) (c : α) (callback : κ) :
    (l.run [.send c, .roundTrip callback]).Confirms l.time c where
  past := Nat.lt_succ_self _
  apart t ht := by
    rcases List.mem_append.1 ht with ht | ht
    · exact Nat.ne_of_lt (h.trips t ht)
    · exact List.mem_singleton.1 ht ▸ (Nat.ne_of_lt (Nat.lt_succ_self _)).symm
  fate := by
    have hs : ∀ s ∈ l.sent, s.1 ≠ l.time := fun s hs ↦ Nat.ne_of_lt (h.sent s hs)
    cases ht : l.target with
    | none =>
      obtain ⟨hp, hse⟩ := run_couple_of_no_target ht c callback
      exact .inl ⟨hp ▸ List.sublist_append_right _ _, hse ▸ hs⟩
    | some w =>
      obtain ⟨hp, hse⟩ := run_couple_of_target ht c callback
      have hw := (target_eq_some_iff.1 ht).1
      refine .inr (.inl ⟨w.number, ?_, fun s hm he ↦ ?_, ?_, .inl (congrArg _ hw)⟩)
      · rw [CarriedBy, hse, sentOn_append, sentOn_handed, if_pos rfl]
        exact List.sublist_append_right _ _
      · rw [hse] at hm
        rcases List.mem_append.1 hm with hm | hm
        · exact (hs s hm he).elim
        · exact (mem_handed.1 hm).2
      · exact hp ▸ fun p hp ↦ Nat.ne_of_lt (h.pending p hp)

/-- When the round trip of a command completes, the writer in use is the one that was handed the
command before the request just if that one was not given up. -/
theorem Confirms.carriedBy_iff (h : l.Confirms n c) (hs : l.Sound) {w : Writer} {callback : κ}
    {trips : List (Nat × κ)} (hw : l.writer = some w) (hd : w.number ∉ l.dropped)
    (hi : 0 < l.inFlight) (ht : l.trips = (n + 1, callback) :: trips) :
    ∃ v, (∀ u, l.CarriedBy n c u ↔ u = v) ∧ (l.CarriedBy n c w.number ↔ v ∉ l.dropped) := by
  rcases h.fate with hq | ⟨v, hv⟩ | ho
  -- The oldest round trip is in flight, and only requests of later ones wait.
  · exfalso
    have hm : n + 1 ∈ pings l.pending :=
      List.mem_filterMap.2 ⟨_, hq.queued.subset (List.mem_cons_of_mem _ List.mem_cons_self), rfl⟩
    obtain ⟨k, hk⟩ := Nat.exists_eq_succ_of_ne_zero (Nat.ne_of_gt hi)
    rw [hs.waiting, ht, hk] at hm
    obtain ⟨t, htm, he⟩ := List.mem_map.1 hm
    have ho := hs.order
    rw [history, ht, List.map_append, List.pairwise_append] at ho
    have hlt := List.rel_of_pairwise_cons ho.2.1 (List.mem_map_of_mem (List.mem_of_mem_drop htm))
    exact Nat.lt_irrefl _ (he ▸ hlt)
  · have hu : ∀ u, l.CarriedBy n c u ↔ u = v := by
      refine fun u ↦ ⟨fun hc ↦ ?_, fun hu ↦ hu ▸ hv.handed⟩
      obtain ⟨s, hm, he, hsw⟩ := hc.mem
      exact hsw.symm.trans (hv.once s hm he)
    refine ⟨v, hu, fun hc ↦ (hu _).1 hc ▸ hd, fun hn ↦ ?_⟩
    have hn := hv.writer.resolve_right hn
    rw [number, hw] at hn
    exact (hu _).2 (Option.some.inj hn)
  · exact (ho _ (ht ▸ List.mem_cons_self) rfl).elim

end Herald.Ledger
