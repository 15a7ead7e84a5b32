import Herald.Proofs.Client.Caps
import Herald.Proofs.Client.Timeouts

namespace Herald

variable {κ : Type}

/-- What is left of a timeout that was set when its subscription had received `before` messages,
after `heard` more. It waits for a number of messages in all, so those from before it was set count
too; but nothing turns it off until another one comes. -/
def Timeout.left (t : Timeout) (before heard : Nat) : Option Timeout :=
  if heard = 0 ∨ before + heard < t.expected then some t else none

theorem Timeout.left_eq_some {t t' : Timeout} {before heard : Nat} :
    t.left before heard = some t' ↔ t' = t ∧ (heard = 0 ∨ before + heard < t.expected) := by
  unfold left
  split
  · rename_i h
    simp [h, eq_comm]
  · rename_i h
    simp [h]

theorem Timeout.left_succ (t : Timeout) (before heard : Nat) :
    (t.left before heard).filter (before + heard + 1 < ·.expected) = t.left before (heard + 1) := by
  unfold left
  split
  · rw [Option.filter_some]
    simp [Nat.add_assoc]
  · rw [Option.filter_none, if_neg (by omega)]

namespace Registry

theorem Valid.continues_run {r : Registry κ} (h : r.Valid) (ops : List (Op κ)) :
    r.Continues (r.run ops).2 := by
  induction ops generalizing r with
  | nil => exact .refl r
  | cons op ops ih => exact (h.continues_apply op).trans (ih (h.apply op))

def Awaits (r : Registry κ) (sid : Nat) (t : Timeout) (before heard : Nat) : Prop :=
  ∃ s, r.find? sid = some s ∧ s.received = before + heard ∧ s.timeout = t.left before heard

def Op.Neutral (sid token : Nat) : Op κ → Prop
  | .arm n _ => n ≠ sid
  | .cancelAll => False
  | .claim n token' => n = sid → token' ≠ token
  | .insert .. | .unsubscribe .. | .dispatch _ | .token _ => True

variable {r : Registry κ} {sid before heard : Nat} {t : Timeout}

theorem Awaits.isSome_claim_iff (ha : r.Awaits sid t before heard) :
    (r.claim sid t.token).1.isSome ↔ heard = 0 ∨ before + heard < t.expected := by
  obtain ⟨s, hs, -, ht⟩ := ha
  simp only [Option.isSome_iff_exists, Registry.claim_eq_some_iff, timeout?, hs,
    Option.bind_some, ht, Timeout.left_eq_some]
  exact ⟨fun ⟨_, _, _, h⟩ ↦ h, fun h ↦ ⟨t.auto, t.expected, rfl, h⟩⟩

theorem Awaits.claim_eq_none (ha : r.Awaits sid t before heard) {token : Nat}
    (hn : token ≠ t.token) : (r.claim sid token).1 = none := by
  obtain ⟨s, hs, -, ht⟩ := ha
  refine claim_eq_none_iff.2 fun t' ht' ↦ ?_
  rw [timeout?, hs, Option.bind_some, ht] at ht'
  obtain ⟨rfl, -⟩ := Timeout.left_eq_some.1 ht'
  exact hn.symm

/-- As long as the subscription is live, an operation that leaves its timeout alone takes from it
at most the message that it brings. -/
theorem Awaits.apply (ha : r.Awaits sid t before heard) (hr : r.Valid) {op : Op κ}
    (hn : op.Neutral sid t.token) (hl : ((r.apply op).2.find? sid).isSome) :
    (r.apply op).2.Awaits sid t before (heard + (op.message? sid).toList.length) := by
  have hclaim {token : Nat} (hne : token ≠ t.token) : (r.claim sid token).1 = none :=
    ha.claim_eq_none hne
  obtain ⟨s, hs, hrec, ht⟩ := ha
  have hsame (hf : (r.apply op).2.find? sid = r.find? sid) : (r.apply op).2.Awaits sid t before
      (heard + 0) := ⟨s, hf.trans hs, hrec, ht⟩
  cases op with
  | insert subject queue callback =>
    exact hsame (Valid.find?_insert_of_le (hr.sid_le hs) subject queue callback)
  | unsubscribe n max =>
    have hf : (r.apply (.unsubscribe n max)).2.find? sid = _ := find?_unsubscribe r n max sid
    by_cases hsid : n = sid
    · rw [if_pos hsid, hs, Option.bind_some] at hf
      split at hf
      · rw [hf] at hl
        cases hl
      · exact ⟨_, hf, hrec, ht⟩
    · exact hsame (hf.trans (if_neg hsid))
  | dispatch m =>
    have hf : (r.apply (.dispatch m)).2.find? sid = _ := hr.find?_dispatch m sid
    by_cases hm : m.sid = sid
    · rw [if_pos hm, hs, Option.bind_some] at hf
      rw [Op.message?, if_pos hm]
      split at hf
      · rw [hf] at hl
        cases hl
      · refine ⟨_, hf, congrArg (· + 1) hrec, ?_⟩
        simp only [ht, hrec]
        exact t.left_succ before heard
    · rw [Op.message?, if_neg hm]
      exact hsame (hf.trans (if_neg hm))
  | token n =>
    refine hsame ?_
    simp only [Registry.apply, nextToken]
    split <;> rfl
  | arm n t' =>
    have hf : (r.apply (.arm n t')).2.find? sid = _ := find?_update r n sid fun _ ↦ rfl
    exact hsame (hf.trans (if_neg hn))
  | claim n token =>
    have hf : (r.apply (.claim n token)).2.find? sid = _ := find?_claim r n token sid
    refine hsame (hf.trans (if_neg ?_))
    rintro ⟨rfl, hc⟩
    rw [hclaim (hn rfl)] at hc
    cases hc
  | cancelAll => exact hn.elim

theorem Awaits.run (ha : r.Awaits sid t before heard) (hr : r.Valid) {ops : List (Op κ)}
    (hn : ∀ op ∈ ops, op.Neutral sid t.token) (hl : ((r.run ops).2.find? sid).isSome) :
    (r.run ops).2.Awaits sid t before (heard + (messages sid ops).length) := by
  induction ops generalizing r heard with
  | nil => exact ha
  | cons op ops ih =>
    obtain ⟨ho, hops⟩ := List.forall_mem_cons.1 hn
    have hv := hr.apply op
    have hlive : ((r.apply op).2.find? sid).isSome := by
      obtain ⟨s, hs, -⟩ := ha
      have hle := Nat.le_trans (hr.sid_le hs) (hr.continues_apply op).lastSid_le
      obtain ⟨s', hs'⟩ := Option.isSome_iff_exists.1 hl
      obtain ⟨s'', hs'', -⟩ := (hv.continues_run ops).find? sid s' hle hs'
      rw [hs'']
      rfl
    have hi := ih (ha.apply hr ho hlive) hv hops hl
    have hm : messages sid (op :: ops) = (op.message? sid).toList ++ messages sid ops := by
      simp only [messages, List.filterMap_cons]
      cases op.message? sid <;> rfl
    rw [hm, List.length_append, ← Nat.add_assoc]
    exact hi

end Registry

namespace Client

variable {c : Client κ} {t : Turn κ} {sid before heard : Nat} {timeout : Timeout}

theorem close_mem_stopUses (h : .cancelAll ∈ c.stopOperations) : .close ∈ c.stopUses := by
  unfold stopOperations at h
  unfold stopUses
  split at h
  · cases h
  · rename_i hc
    rw [if_neg hc]
    exact List.mem_singleton_self _

theorem close_mem_raiseUses (h : .cancelAll ∈ c.raiseOperations) : .close ∈ c.raiseUses := by
  unfold raiseOperations at h
  split at h
  · rename_i ho
    rw [raiseUses, ho]
    exact close_mem_stopUses h
  · cases h

theorem Asks.not_mem_cancelAll {ops : List (Registry.Op κ)} (h : c.Asks t ops) :
    .cancelAll ∉ ops := by
  cases h with
  | nothing | unsubscribe | hear => simp
  | subscribe max => cases max <;> simp
  | setTimeout => simp [setTimeoutOperations]
  | expire =>
    unfold expireOperations
    split <;> simp

/-- Only a stop cancels all timeouts. -/
theorem Goes.not_mem_cancelAll (h : c.Goes t) : .cancelAll ∉ c.operations t := by
  intro hm
  refine h.not_mem_close ?_
  rcases t with e | _
  · by_cases he : e.Light
    · exact absurd hm (light_asks he c).not_mem_cancelAll
    cases e with
    | stop => exact close_mem_stopUses hm
    | frame generation f =>
      simp only [operations, turnUses, uses] at hm ⊢
      split at hm
      · cases hm
      · rename_i hg
        rw [if_neg hg]
        cases f with
        | error | unknown => exact close_mem_raiseUses hm
        | message | ok | ping | pong | info => simp [receiveOperations] at hm
    | lost generation =>
      simp only [operations, turnUses, uses, lostOperations, lostUses] at hm ⊢
      split at hm
      · cases hm
      · rename_i hg
        split at hm
        · cases hm
        · rename_i hr
          rw [if_neg hg, if_neg hr]
          exact List.mem_cons_of_mem _ (close_mem_raiseUses hm)
    | wake loop =>
      simp only [operations, turnUses, uses, wakeOperations, wakeUses] at hm ⊢
      split at hm
      · cases hm
      · rename_i hg
        split at hm
        · rename_i hl
          rw [if_neg hg, if_pos hl]
          exact close_mem_raiseUses hm
        · cases hm
    | begin | connected | connectFailed | attemptFailed | setErrorHandler | setConnectHandler =>
      cases hm
    | _ => exact absurd trivial he
  · cases hm

def Prompts (c : Client κ) (t : Turn κ) : Registry.Op κ → Prop
  | .dispatch m => t = .event (.frame c.generation (.message m))
  | .arm sid timeout => ∃ afterMs callback,
    t = .event (.setTimeout sid afterMs timeout.expected timeout.auto callback)
  | .claim sid token => ∃ callback, t = .event (.expire sid token callback)
  | .cancelAll => ¬c.Goes t
  | .insert .. | .unsubscribe .. | .token _ => True

theorem prompts_of_mem {op : Registry.Op κ} (h : op ∈ c.operations t) : c.Prompts t op := by
  by_cases hc : op = .cancelAll
  · subst hc
    exact fun hg ↦ hg.not_mem_cancelAll h
  have ha := c.turn_asks t
  generalize c.operations t = ops at h ha
  rcases ha with rfl | ⟨-, ha⟩
  · exact absurd (List.mem_singleton.1 h) hc
  cases ha with
  | nothing => cases h
  | subscribe max =>
    cases max with
    | none =>
      obtain rfl := List.mem_singleton.1 h
      trivial
    | some max =>
      rcases List.mem_pair.1 h with rfl | rfl
      all_goals trivial
  | unsubscribe =>
    obtain rfl := List.mem_singleton.1 h
    trivial
  | @setTimeout sid afterMs expected auto callback ht =>
    rcases List.mem_cons.1 h with rfl | h
    · trivial
    · obtain ⟨token, -, rfl⟩ := Option.map_eq_some_iff.1 (Option.mem_toList.1 h)
      exact ⟨afterMs, callback, ht⟩
  | hear ht =>
    obtain rfl := List.mem_singleton.1 h
    exact ht
  | @expire sid token callback ht =>
    rcases List.mem_cons.1 h with rfl | h
    · exact ⟨callback, ht⟩
    · split at h
      · obtain rfl := List.mem_singleton.1 h
        trivial
      · cases h

theorem neutral_of_not_quashes (hq : ¬c.Quashes t sid timeout.token) :
    ∀ op ∈ c.operations t, op.Neutral sid timeout.token := by
  intro op ho
  have hp := prompts_of_mem ho
  cases op with
  | arm n timeout' =>
    obtain ⟨afterMs, callback, rfl⟩ := hp
    rintro rfl
    exact hq (.replaced _ _ _ _ rfl)
  | claim n token =>
    obtain ⟨callback, rfl⟩ := hp
    rintro rfl rfl
    exact hq (.due _ rfl)
  | cancelAll => exact hq (.stopped hp)
  | insert | unsubscribe | dispatch | token => trivial

/-- The messages that a turn brings for a live subscription are those that its callback gets. -/
theorem length_messages_operations (hr : c.registry.Valid)
    (hl : (c.registry.find? sid).isSome) :
    (Registry.messages sid (c.operations t)).length =
      (c.turn t).call.toList.countP (Call.isMessage sid) := by
  by_cases hh : ∃ m, t = .event (.frame c.generation (.message m))
  · obtain ⟨m, rfl⟩ := hh
    have ho : c.operations (.event (.frame c.generation (.message m))) = [.dispatch m] := by
      simp [operations, receiveOperations]
    rw [ho, turn_hears]
    by_cases hm : m.sid = sid
    · obtain ⟨s, hs⟩ := Option.isSome_iff_exists.1 hl
      rw [deliver_call_of_find? hr (hm ▸ hs)]
      simp [Registry.messages, Registry.Op.message?, Call.isMessage, hm]
    · have hn : Registry.messages sid [Registry.Op.dispatch (κ := κ) m] = [] := by
        simp [Registry.messages, Registry.Op.message?, hm]
      rw [hn]
      cases hc : (c.deliver m).call with
      | none => rfl
      | some call =>
        obtain ⟨callback, -, rfl, -⟩ := deliver_call hc
        simp [Call.isMessage, hm]
  · have hn : Registry.messages sid (c.operations t) = [] := by
      refine List.filterMap_eq_nil_iff.2 fun op ho ↦ ?_
      have hp := prompts_of_mem ho
      cases op with
      | dispatch m => exact absurd ⟨m, hp⟩ hh
      | insert | unsubscribe | token | arm | claim | cancelAll => rfl
    rw [hn, hearings_of_not_hears fun m hm ↦ hh ⟨m, hm⟩]
    rfl

/-- What is left of a timeout after a turn that does not do away with it. -/
theorem awaits_turn (ha : c.registry.Awaits sid timeout before heard) (hr : c.registry.Valid)
    (hq : ¬c.Quashes t sid timeout.token) :
    (c.turn t).client.registry.Awaits sid timeout before
      (heard + (c.turn t).call.toList.countP (Call.isMessage sid)) := by
  have hl : (c.registry.find? sid).isSome := by
    obtain ⟨s, hs, -⟩ := ha
    rw [hs]
    rfl
  have hl' : ((c.turn t).client.registry.find? sid).isSome := by
    rw [← Option.ne_none_iff_isSome]
    exact fun hn ↦ hq (.ended hn)
  rw [turn_registry] at hl' ⊢
  rw [← length_messages_operations hr hl]
  exact ha.run hr (neutral_of_not_quashes hq) hl'

theorem expire_call (c : Client κ) (sid token : Nat) (callback : κ) :
    (c.expire sid token callback).call =
      if (c.registry.claim sid token).1.isSome then some (.timeout callback sid) else none := by
  split
  · rename_i h
    exact expire_call_eq_some.2 ⟨rfl, h⟩
  · rename_i h
    exact Option.eq_none_iff_forall_ne_some.2 fun call hc ↦ h (expire_call_eq_some.1 hc).2

/-- A timeout that is set on a live subscription. -/
theorem awaits_setTimeout {s : Subscription κ} (hs : c.registry.find? sid = some s)
    (afterMs expected : Nat) (auto : Bool) (callback : κ) :
    (c.setTimeout sid afterMs expected auto callback).outputs =
        [.watch sid (c.registry.lastToken + 1) afterMs callback] ∧
      (c.setTimeout sid afterMs expected auto callback).client.registry.Awaits sid
        ⟨expected, auto, c.registry.lastToken + 1⟩ s.received 0 := by
  let r : Registry κ := { c.registry with lastToken := c.registry.lastToken + 1 }
  have ht : c.registry.nextToken sid = (some (c.registry.lastToken + 1), r) := by
    rw [Registry.nextToken, if_pos (by rw [hs]; rfl)]
  have hr : r.find? sid = some s := hs
  have hf := Registry.find?_update r sid
    (f := fun s ↦ { s with timeout := some ⟨expected, auto, c.registry.lastToken + 1⟩ }) sid
    fun _ ↦ rfl
  rw [if_pos rfl, hr] at hf
  simp only [setTimeout, ht]
  exact ⟨trivial, _, hf, rfl, rfl⟩

end Client

end Herald
