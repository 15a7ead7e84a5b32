import Herald.Proofs.Outbox.Conservation

namespace Herald

variable {α κ : Type}

namespace Outbox

namespace Op

def commands : Op α κ → List α
  | .send c | .sendIfLive c => [c]
  | .attach _ preamble => preamble
  | _ => []

def parcels : Op α κ → List (Parcel α)
  | .send c | .sendIfLive c => [.command c]
  | .roundTrip _ => [.ping]
  | _ => []

theorem mem_commands {op : Op α κ} {c : α} (h : op.command? = some c) : c ∈ op.commands := by
  cases op <;> cases h
  exact List.mem_singleton_self c

end Op

theorem send_writer (o : Outbox α κ) (p : Parcel α) : (o.send p).2.writer = o.writer := by
  unfold send
  split <;> rfl

theorem complete_writer (o : Outbox α κ) : o.complete.2.writer = o.writer := by
  unfold complete
  split <;> rfl

theorem run_plain_writer {o : Outbox α κ} {ops : List (Op α κ)} (h : ∀ op ∈ ops, op.Plain) :
    (o.run ops).2.writer = o.writer := by
  induction ops generalizing o with
  | nil => rfl
  | cons op ops ih =>
    rw [run_cons]
    have hop := h op List.mem_cons_self
    refine (ih fun op hop ↦ h op (List.mem_cons_of_mem _ hop)).trans ?_
    cases op with
    | send c => exact o.send_writer (.command c)
    | sendIfLive c => rfl
    | roundTrip callback => exact send_writer { o with pongs := o.pongs ++ [callback] } .ping
    | complete | attach | detach | breakWriter | close => exact hop.elim

theorem target_congr {o o' : Outbox α κ} (h : o'.writer = o.writer) : o'.target = o.target := by
  rw [target, target, h]

/-- A use that attaches no writer leaves no other one in use. -/
theorem target_apply {o : Outbox α κ} {op : Op α κ} (h : op.attachment? = none) {w : Writer}
    (hw : (o.apply op).2.2.target = some w) : o.target = some w := by
  cases op with
  | send c => exact (target_congr (o.send_writer (.command c))).symm.trans hw
  | sendIfLive c => exact hw
  | roundTrip callback =>
    have hs := send_writer { o with pongs := o.pongs ++ [callback] } .ping
    exact (target_congr hs).symm.trans hw
  | complete => exact (target_congr o.complete_writer).symm.trans hw
  | attach => cases h
  | detach | close => cases hw
  | breakWriter =>
    obtain ⟨hw, ho⟩ := target_eq_some_iff.1 hw
    obtain ⟨v, -, rfl⟩ := Option.map_eq_some_iff.1 hw
    cases ho

theorem handed_of_target {o : Outbox α κ} {op : Op α κ} (h : op.attachment? = none) {w : Writer}
    (hw : o.target = some w) : (o.apply op).2.1 = op.parcels.map (⟨w.number, ·⟩) := by
  cases op with
  | send c =>
    simp only [Outbox.apply, send_of_target hw]
    rfl
  | sendIfLive c =>
    simp only [Outbox.apply, sendIfLive, hw]
    rfl
  | roundTrip callback =>
    have hw : ({ o with pongs := o.pongs ++ [callback] } : Outbox α κ).target = some w := hw
    simp only [Outbox.apply, roundTrip, send_of_target hw]
    rfl
  | attach => cases h
  | complete | detach | breakWriter | close => rfl

theorem handed_of_no_target {o : Outbox α κ} {op : Op α κ} (h : op.attachment? = none)
    (hw : o.target = none) : (o.apply op).2.1 = [] := by
  cases op with
  | send c =>
    simp only [Outbox.apply, send_of_no_target hw]
  | sendIfLive c =>
    simp only [Outbox.apply, sendIfLive, hw]
    rfl
  | roundTrip callback =>
    have hw : ({ o with pongs := o.pongs ++ [callback] } : Outbox α κ).target = none := hw
    simp only [Outbox.apply, roundTrip, send_of_no_target hw]
  | attach => cases h
  | complete | detach | breakWriter | close => rfl

/-- A writer that is still in use after several uses was handed all that they hand over. -/
theorem run_of_target {o : Outbox α κ} {ops : List (Op α κ)}
    (h : ∀ op ∈ ops, op.attachment? = none) {w : Writer} (hw : (o.run ops).2.target = some w) :
    o.target = some w ∧ (o.run ops).1 = (ops.flatMap Op.parcels).map (⟨w.number, ·⟩) := by
  induction ops generalizing o with
  | nil => exact ⟨hw, rfl⟩
  | cons op ops ih =>
    rw [run_cons] at hw ⊢
    have hop := h op List.mem_cons_self
    obtain ⟨ht, hs⟩ := ih (fun op hop ↦ h op (List.mem_cons_of_mem _ hop)) hw
    have hw := target_apply hop ht
    refine ⟨hw, ?_⟩
    rw [hs, handed_of_target hop hw, List.flatMap_cons, List.map_append]

theorem handed_run {o : Outbox α κ} {ops : List (Op α κ)} (h : ∀ op ∈ ops, op.attachment? = none)
    {sent : Sent α} (hs : sent ∈ (o.run ops).1) :
    ∃ w, o.target = some w ∧ sent.writer = w.number := by
  induction ops generalizing o with
  | nil => cases hs
  | cons op ops ih =>
    rw [run_cons] at hs
    have hop := h op List.mem_cons_self
    rcases List.mem_append.1 hs with hs | hs
    · cases ht : o.target with
      | none =>
        rw [handed_of_no_target hop ht] at hs
        cases hs
      | some w =>
        rw [handed_of_target hop ht] at hs
        obtain ⟨p, -, rfl⟩ := List.mem_map.1 hs
        exact ⟨w, rfl, rfl⟩
    · obtain ⟨w, ht, hn⟩ := ih (fun op hop ↦ h op (List.mem_cons_of_mem _ hop)) hs
      exact ⟨w, target_apply hop ht, hn⟩

/-- What several uses that attach no writer hand over is some of what they are to hand over. -/
theorem mem_parcels_of_handed {o : Outbox α κ} {ops : List (Op α κ)}
    (h : ∀ op ∈ ops, op.attachment? = none) {sent : Sent α} (hs : sent ∈ (o.run ops).1) :
    sent.parcel ∈ ops.flatMap Op.parcels := by
  induction ops generalizing o with
  | nil => cases hs
  | cons op ops ih =>
    rw [run_cons] at hs
    rw [List.flatMap_cons]
    rcases List.mem_append.1 hs with hs | hs
    · have hop := h op List.mem_cons_self
      cases ht : o.target with
      | none =>
        rw [handed_of_no_target hop ht] at hs
        cases hs
      | some w =>
        rw [handed_of_target hop ht] at hs
        obtain ⟨p, hp, rfl⟩ := List.mem_map.1 hs
        exact List.mem_append_left _ hp
    · exact List.mem_append_right _ (ih (fun op hop ↦ h op (List.mem_cons_of_mem _ hop)) hs)

/-- What comes of taking an open writer and asking for a round trip on it. -/
theorem run_attach_roundTrip (o : Outbox α κ) (n : Nat) (preamble : List α) (callback : κ) :
    o.run [.attach ⟨n, true⟩ preamble, .roundTrip callback] =
      ((preamble.map Parcel.command ++ o.pending ++ [Parcel.ping]).map (⟨n, ·⟩),
        { writer := some ⟨n, true⟩
          pongs := o.pongs ++ [callback]
          inFlight := o.pongs.length + 1 }) := by
  simp [run_cons, run_nil, Outbox.apply, attach, roundTrip, send, target, Option.filter_some]

/-- What waits after a use is what waited before, or what is to be sent. -/
theorem mem_pending_apply {o : Outbox α κ} {op : Op α κ} {p : Parcel α}
    (hp : p ∈ (o.apply op).2.2.pending) :
    p = .ping ∨ p ∈ o.pending ∨ ∃ c, op.command? = some c ∧ p = .command c := by
  have hsend {o : Outbox α κ} {q : Parcel α} (hp : p ∈ (o.send q).2.pending) :
      p ∈ o.pending ∨ p = q := by
    unfold send at hp
    split at hp
    · exact .inl hp
    · simpa using hp
  cases op with
  | send c =>
    rcases hsend hp with hp | rfl
    · exact .inr (.inl hp)
    · exact .inr (.inr ⟨c, rfl, rfl⟩)
  | sendIfLive c | breakWriter => exact .inr (.inl hp)
  | roundTrip callback =>
    rcases hsend (o := { o with pongs := o.pongs ++ [callback] }) hp with hp | rfl
    · exact .inr (.inl hp)
    · exact .inl rfl
  | complete =>
    have hc : o.complete.2.pending = o.pending := by
      unfold complete
      split <;> rfl
    exact .inr (.inl (hc ▸ hp))
  | attach | close => cases hp
  | detach =>
    rcases List.mem_append.1 hp with hp | hp
    · exact .inl (List.eq_of_mem_replicate hp)
    · exact .inr (.inl hp)

theorem mem_pending_run {o : Outbox α κ} {ops : List (Op α κ)} {p : Parcel α}
    (hp : p ∈ (o.run ops).2.pending) :
    p = .ping ∨ p ∈ o.pending ∨ ∃ c ∈ ops.filterMap Op.command?, p = .command c := by
  induction ops generalizing o with
  | nil => exact .inr (.inl hp)
  | cons op ops ih =>
    rw [Op.filterMap_command?_cons]
    rcases ih hp with hp | hp | ⟨c, hc, hp⟩
    · exact .inl hp
    · rcases mem_pending_apply hp with hp | hp | ⟨c, hc, hp⟩
      · exact .inl hp
      · exact .inr (.inl hp)
      · exact .inr (.inr ⟨c, List.mem_append_left _ (by simp [hc]), hp⟩)
    · exact .inr (.inr ⟨c, List.mem_append_right _ hc, hp⟩)

theorem mem_commands_of_send {ops : List (Op α κ)} {c : α} (hc : c ∈ ops.filterMap Op.command?) :
    c ∈ ops.flatMap Op.commands := by
  obtain ⟨op, hop, he⟩ := List.mem_filterMap.1 hc
  exact List.mem_flatMap.2 ⟨op, hop, Op.mem_commands he⟩

theorem mem_handed_apply {o : Outbox α κ} {op : Op α κ} {sent : Sent α}
    (hs : sent ∈ (o.apply op).2.1) :
    sent.parcel = .ping ∨ sent.parcel ∈ o.pending ∨
      ∃ c ∈ op.commands, sent.parcel = .command c := by
  by_cases ha : op.attachment? = none
  · cases ht : o.target with
    | none =>
      rw [handed_of_no_target ha ht] at hs
      cases hs
    | some w =>
      rw [handed_of_target ha ht] at hs
      obtain ⟨p, hp, rfl⟩ := List.mem_map.1 hs
      cases op with
      | send c | sendIfLive c =>
        exact .inr (.inr ⟨c, List.mem_singleton_self c, List.mem_singleton.1 hp⟩)
      | roundTrip callback => exact .inl (List.mem_singleton.1 hp)
      | complete | attach | detach | breakWriter | close => cases hp
  · cases op with
    | attach w preamble =>
      simp only [Outbox.apply, attach] at hs
      split at hs
      · obtain ⟨p, hp, rfl⟩ := List.mem_map.1 hs
        rcases List.mem_append.1 hp with hp | hp
        · obtain ⟨c, hc, rfl⟩ := List.mem_map.1 hp
          exact .inr (.inr ⟨c, hc, rfl⟩)
        · exact .inr (.inl hp)
      · cases hs
    | send | sendIfLive | roundTrip | complete | detach | breakWriter | close =>
      exact (ha rfl).elim

/-- What several uses hand over waited before them, or is one of their own commands. -/
theorem mem_handed_run {o : Outbox α κ} {ops : List (Op α κ)} {sent : Sent α}
    (hs : sent ∈ (o.run ops).1) :
    sent.parcel = .ping ∨ sent.parcel ∈ o.pending ∨
      ∃ c ∈ ops.flatMap Op.commands, sent.parcel = .command c := by
  induction ops generalizing o with
  | nil => cases hs
  | cons op ops ih =>
    rw [List.flatMap_cons]
    rcases List.mem_append.1 hs with hs | hs
    · rcases mem_handed_apply hs with hp | hp | ⟨c, hc, hp⟩
      · exact .inl hp
      · exact .inr (.inl hp)
      · exact .inr (.inr ⟨c, List.mem_append_left _ hc, hp⟩)
    · rcases ih hs with hp | hp | ⟨c, hc, hp⟩
      · exact .inl hp
      · rcases mem_pending_apply hp with hp | hp | ⟨c, hc, hp⟩
        · exact .inl hp
        · exact .inr (.inl hp)
        · exact .inr (.inr ⟨c, List.mem_append_left _ (Op.mem_commands hc), hp⟩)
      · exact .inr (.inr ⟨c, List.mem_append_right _ hc, hp⟩)

end Outbox

end Herald
