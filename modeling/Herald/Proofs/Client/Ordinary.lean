import Herald.Proofs.Client.Move

namespace Herald

variable {κ : Type}

namespace Client

inductive Ordinary : Use κ → Prop
  | pub (subject : String) (reply : Option String) (payload : Bytes) :
    Ordinary (.send (.pub subject reply payload))
  | unsub (sid : Nat) (max : Option Nat) : Ordinary (.send (.unsub sid max))
  | pong : Ordinary (.send .pong)
  | sub (subject : String) (queue : Option String) (sid : Nat) :
    Ordinary (.sendIfLive (.sub subject queue sid))
  | trip (callback : κ) : Ordinary (.roundTrip (.user callback))
  | complete : Ordinary .complete
  | detach : Ordinary .detach
  | breakWriter : Ordinary .breakWriter
  | close : Ordinary .close

theorem ordinary_singleton {op : Use κ} (h : Ordinary op) : ∀ op' ∈ [op], Ordinary op' := by
  simpa using h

theorem raiseUses_ordinary (c : Client κ) : ∀ op ∈ c.raiseUses, Ordinary op := by
  intro op h
  obtain rfl := eq_close_of_mem_raiseUses h
  exact .close

theorem publishUses_ordinary (subject : String) (reply : Option String) (payload : Bytes) :
    ∀ op ∈ publishUses (κ := κ) subject reply payload, Ordinary op := by
  unfold publishUses
  split
  · exact List.forall_mem_nil _
  · exact ordinary_singleton (.pub _ _ _)

theorem subscribeUses_ordinary (c : Client κ) (subject : String) (queue : Option String)
    (max : Option Nat) : ∀ op ∈ c.subscribeUses subject queue max, Ordinary op := by
  unfold subscribeUses
  split
  · exact List.forall_mem_nil _
  · refine List.forall_mem_cons.2 ⟨.sub _ _ _, ?_⟩
    cases max with
    | none => exact List.forall_mem_nil _
    | some max => exact ordinary_singleton (.unsub _ _)

theorem receiveUses_ordinary (c : Client κ) (f : Frame) : ∀ op ∈ c.receiveUses f, Ordinary op := by
  cases f with
  | message m =>
    simp only [receiveUses, deliverUses]
    split
    · exact ordinary_singleton (.unsub _ _)
    · exact ordinary_singleton (.unsub _ _)
    · exact List.forall_mem_nil _
  | ok | info text => exact List.forall_mem_nil _
  | error text | unknown line => exact c.raiseUses_ordinary
  | ping => exact ordinary_singleton .pong
  | pong => exact ordinary_singleton .complete

/-- A turn that takes no connection uses the outbox in ordinary ways only. -/
theorem turnUses_ordinary (c : Client κ) (t : Turn κ) :
    (∃ u uri, t = .event (.connected u) ∧ c.uri = some uri ∧ c.bind?.isSome ∧
      c.turnUses t = [.attach ⟨c.generation + 1, true⟩ (c.handshake uri),
        .roundTrip (.handshake (c.generation + 1))]) ∨
      ∀ op ∈ c.turnUses t, Ordinary op := by
  rcases t with e | _
  · cases e with
    | connected u =>
      simp only [turnUses, uses, bindUses]
      split
      · rename_i uri hw hu
        exact .inl ⟨u, uri, rfl, hu, by simp [bind?, hw, hu], rfl⟩
      · exact .inr (List.forall_mem_nil _)
    | publish subject reply payload => exact .inr (publishUses_ordinary subject reply payload)
    | publishAcked subject payload callback =>
      simp only [turnUses, uses]
      split
      · exact .inr (List.forall_mem_nil _)
      · exact .inr (List.forall_mem_append.2
          ⟨publishUses_ordinary subject none payload, ordinary_singleton (.trip callback)⟩)
    | flush callback => exact .inr (ordinary_singleton (.trip callback))
    | subscribe subject queue max callback =>
      exact .inr (c.subscribeUses_ordinary subject queue max)
    | request inbox subject payload queue max callback =>
      simp only [turnUses, uses]
      split
      · exact .inr (List.forall_mem_nil _)
      · exact .inr (List.forall_mem_append.2 ⟨c.subscribeUses_ordinary inbox queue max,
          publishUses_ordinary subject (some inbox) payload⟩)
    | unsubscribe sid max => exact .inr (ordinary_singleton (.unsub sid (some max)))
    | stop =>
      simp only [turnUses, uses, stopUses]
      split
      · exact .inr (List.forall_mem_nil _)
      · exact .inr (ordinary_singleton .close)
    | frame generation f =>
      simp only [turnUses, uses]
      split
      · exact .inr (List.forall_mem_nil _)
      · exact .inr (c.receiveUses_ordinary f)
    | lost generation =>
      simp only [turnUses, uses, lostUses]
      split
      · exact .inr (List.forall_mem_nil _)
      · refine .inr (List.forall_mem_cons.2 ⟨.detach, ?_⟩)
        split
        · exact List.forall_mem_nil _
        · exact c.raiseUses_ordinary
    | wake loop =>
      simp only [turnUses, uses, wakeUses]
      split
      · exact .inr (List.forall_mem_nil _)
      · split
        · exact .inr c.raiseUses_ordinary
        · exact .inr (List.forall_mem_nil _)
    | expire sid token callback =>
      simp only [turnUses, uses, expireUses]
      split
      · exact .inr (ordinary_singleton (.unsub sid (some 0)))
      · exact .inr (List.forall_mem_nil _)
    | setErrorHandler callback | setConnectHandler callback | setTimeout | begin uri
    | connectFailed uri | attemptFailed loop => exact .inr (List.forall_mem_nil _)
  · exact .inr (ordinary_singleton .breakWriter)

/-- A client that is connected after a turn that took no connection was connected before. -/
theorem connected_before {c : Client κ} {t : Turn κ} (ho : ∀ op ∈ c.turnUses t, Ordinary op)
    (hp : (c.turn t).client.phase = .connected) :
    c.phase = .connected ∧ (c.turn t).client.generation = c.generation := by
  have hm := c.turn_moves t
  have hp : (c.turn t).client.standing.1 = .connected := hp
  show c.phase = .connected ∧ (c.turn t).client.standing.2.1 = c.generation
  generalize c.turnUses t = ops at hm ho
  generalize (c.turn t).client.standing = s at hm hp
  cases hm with
  | stay | complete | snap => exact ⟨hp, rfl⟩
  | wander _ hp' | lose _ hp' => exact (hp' hp).elim
  | connect => cases ho _ List.mem_cons_self
  | stop | fall => cases hp

end Client

end Herald
