import Herald.Proofs.Outbox.Conservation

namespace Herald.Outbox

variable {α κ : Type}

def requests (o : Outbox α κ) : Nat := o.inFlight + o.pending.countP Parcel.isPing

/-- Both outboxes have as many requests beyond their round trips. -/
def Balances (o o' : Outbox α κ) : Prop :=
  o'.pongs.length + o.requests = o.pongs.length + o'.requests

theorem Balances.refl (o : Outbox α κ) : o.Balances o := rfl

theorem Balances.trans {o₁ o₂ o₃ : Outbox α κ} (h : o₁.Balances o₂) (h' : o₂.Balances o₃) :
    o₁.Balances o₃ := by
  unfold Balances at *
  omega

theorem balances_send (o : Outbox α κ) (c : α) : o.Balances (o.send (.command c)).2 := by
  unfold send
  split
  · exact .refl o
  · simp [Balances, requests, Parcel.isPing]

theorem balances_roundTrip (o : Outbox α κ) (callback : κ) :
    o.Balances (o.roundTrip callback).2 := by
  let o' := { o with pongs := o.pongs ++ [callback] }
  unfold roundTrip
  cases ht : o.target with
  | none =>
    have ht : o'.target = none := ht
    rw [send_of_no_target ht]
    simp [Balances, requests, o', Parcel.isPing]
    omega
  | some w =>
    have ht : o'.target = some w := ht
    rw [send_of_target ht]
    simp [Balances, requests, o']
    omega

theorem balances_run {o : Outbox α κ} {ops : List (Op α κ)} (h : ∀ op ∈ ops, op.Plain) :
    o.Balances (o.run ops).2 := by
  induction ops generalizing o with
  | nil => exact .refl o
  | cons op ops ih =>
    obtain ⟨hop, hops⟩ := List.forall_mem_cons.1 h
    refine Balances.trans ?_ (ih hops)
    cases op with
    | send c => exact o.balances_send c
    | sendIfLive c => exact .refl o
    | roundTrip callback => exact o.balances_roundTrip callback
    | complete | attach | detach | breakWriter | close => exact hop.elim

/-- The requests of interrupted round trips wait again. -/
theorem balances_detach (o : Outbox α κ) : o.Balances o.detach := by
  simp [Balances, requests, detach, List.countP_replicate, Parcel.isPing]

theorem complete_of_nil {o : Outbox α κ} (h : o.pongs = []) : o.complete = (none, o) := by
  rw [complete, h]

theorem complete_of_cons {o : Outbox α κ} {callback : κ} {pongs : List κ}
    (h : o.pongs = callback :: pongs) :
    o.complete = (some callback, { o with pongs, inFlight := o.inFlight - 1 }) := by
  rw [complete, h]

theorem complete_pongs (o : Outbox α κ) : o.complete.2.pongs = o.pongs.tail := by
  cases hp : o.pongs with
  | nil => rw [complete_of_nil hp, hp, List.tail_nil]
  | cons callback pongs => rw [complete_of_cons hp, List.tail_cons]

def Op.callback? : Op α κ → Option κ
  | .roundTrip callback => some callback
  | _ => none

theorem Op.filterMap_callback?_cons (op : Op α κ) (ops : List (Op α κ)) :
    (op :: ops).filterMap callback? = op.callback?.toList ++ ops.filterMap callback? := by
  cases op <;> rfl

theorem send_pongs (o : Outbox α κ) (p : Parcel α) : (o.send p).2.pongs = o.pongs := by
  unfold send
  split <;> rfl

theorem pongs_apply {o : Outbox α κ} {op : Op α κ} (hc : op ≠ .complete) (hk : op ≠ .close) :
    (o.apply op).2.2.pongs = o.pongs ++ op.callback?.toList := by
  cases op with
  | send c => exact (o.send_pongs _).trans (List.append_nil _).symm
  | roundTrip callback => exact send_pongs { o with pongs := o.pongs ++ [callback] } .ping
  | sendIfLive | attach | detach | breakWriter => exact (List.append_nil _).symm
  | complete => exact (hc rfl).elim
  | close => exact (hk rfl).elim

/-- Round trips are open in the order in which they were asked for. -/
theorem pongs_run {o : Outbox α κ} {ops : List (Op α κ)} (hc : .complete ∉ ops)
    (hk : .close ∉ ops) : (o.run ops).2.pongs = o.pongs ++ ops.filterMap Op.callback? := by
  induction ops generalizing o with
  | nil => exact (List.append_nil _).symm
  | cons op ops ih =>
    obtain ⟨hc, hcs⟩ := not_or.1 (List.mem_cons.not.1 hc)
    obtain ⟨hk, hks⟩ := not_or.1 (List.mem_cons.not.1 hk)
    rw [Op.filterMap_callback?_cons, run_cons, ih hcs hks,
      pongs_apply (Ne.symm hc) (Ne.symm hk), List.append_assoc]

theorem pongs_apply_sublist (o : Outbox α κ) (op : Op α κ) :
    (o.apply op).2.2.pongs.Sublist (o.pongs ++ op.callback?.toList) := by
  by_cases hc : op = .complete
  · subst hc
    exact o.complete_pongs ▸ (List.tail_sublist _).trans (List.sublist_append_left _ _)
  · by_cases hk : op = .close
    · exact hk ▸ List.nil_sublist _
    · exact pongs_apply hc hk ▸ .refl _

theorem pongs_run_sublist (o : Outbox α κ) (ops : List (Op α κ)) :
    (o.run ops).2.pongs.Sublist (o.pongs ++ ops.filterMap Op.callback?) := by
  induction ops generalizing o with
  | nil => exact List.sublist_append_left _ _
  | cons op ops ih =>
    rw [Op.filterMap_callback?_cons, ← List.append_assoc]
    exact (ih _).trans ((o.pongs_apply_sublist op).append_right _)

/-- A request that is out goes with the round trip that completes. -/
theorem balances_complete {o : Outbox α κ} (h : o.pongs ≠ [] → 0 < o.inFlight) :
    o.Balances o.complete.2 := by
  cases hp : o.pongs with
  | nil =>
    rw [complete_of_nil hp]
    exact .refl o
  | cons callback pongs =>
    have hi := h (by simp [hp])
    rw [complete_of_cons hp]
    simp only [Balances, requests, hp, List.length_cons]
    omega

structure Steady (o : Outbox α κ) : Prop where
  le : o.inFlight ≤ o.pongs.length
  idle : o.writer = none → o.inFlight = 0

theorem Steady.send {o : Outbox α κ} (h : o.Steady) (p : Parcel α) : (o.send p).2.Steady := by
  unfold Outbox.send
  split <;> exact ⟨h.le, h.idle⟩

theorem Steady.roundTrip {o : Outbox α κ} (h : o.Steady) (callback : κ) :
    (o.roundTrip callback).2.Steady := by
  let o' := { o with pongs := o.pongs ++ [callback] }
  have hle : o.inFlight ≤ (o.pongs ++ [callback]).length := by
    simpa using Nat.le_succ_of_le h.le
  unfold Outbox.roundTrip
  cases ht : o.target with
  | none =>
    have ht : o'.target = none := ht
    rw [send_of_no_target ht]
    exact ⟨hle, h.idle⟩
  | some w =>
    have hw := (target_eq_some_iff.1 ht).1
    have ht : o'.target = some w := ht
    rw [send_of_target ht]
    refine ⟨?_, fun hn ↦ ?_⟩
    · simpa [o'] using h.le
    · cases hw.symm.trans hn

theorem Steady.complete {o : Outbox α κ} (h : o.Steady) : o.complete.2.Steady := by
  cases hp : o.pongs with
  | nil => exact complete_of_nil hp ▸ h
  | cons callback pongs =>
    have hle := h.le
    rw [hp] at hle
    rw [complete_of_cons hp]
    refine ⟨Nat.sub_le_of_le_add hle, fun hn ↦ ?_⟩
    simp only [h.idle hn]

theorem Steady.apply {o : Outbox α κ} (h : o.Steady) (op : Op α κ) :
    (o.apply op).2.2.Steady := by
  cases op with
  | send c => exact h.send _
  | sendIfLive => exact h
  | roundTrip callback => exact h.roundTrip callback
  | complete => exact h.complete
  | attach => exact ⟨Nat.le_refl _, nofun⟩
  | breakWriter => exact ⟨h.le, fun hn ↦ h.idle (Option.map_eq_none_iff.1 hn)⟩
  | detach | close => exact ⟨Nat.zero_le _, fun _ ↦ rfl⟩

theorem Steady.run {o : Outbox α κ} (h : o.Steady) (ops : List (Op α κ)) :
    (o.run ops).2.Steady := by
  induction ops generalizing o with
  | nil => exact h
  | cons op ops ih => exact ih (h.apply op)

theorem Steady.new : ({} : Outbox α κ).Steady := ⟨Nat.le_refl _, fun _ ↦ rfl⟩

end Herald.Outbox
