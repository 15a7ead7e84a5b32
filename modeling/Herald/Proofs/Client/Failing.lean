import Herald.Proofs.Client.Retrying

namespace Herald

variable {κ : Type}

namespace Client

variable {c d : Client κ} {t : Turn κ}

structure Heeds (c d : Client κ) : Prop where
  onError : d.onError = c.onError
  everConnected : d.everConnected = true → c.everConnected = true

theorem Heeds.refl (c : Client κ) : c.Heeds c := ⟨rfl, id⟩

theorem Spares.heeds (h : c.Spares d) : c.Heeds d := by
  obtain ⟨o, r, rfl⟩ := h
  exact ⟨rfl, id⟩

theorem stop_heeds (h : c.Heeds d) : c.Heeds d.stop.client := by
  unfold stop
  split
  · exact h
  · exact ⟨h.onError, h.everConnected⟩

theorem raise_heeds (h : c.Heeds d) (e : ClientError) : c.Heeds (d.raise e).client := by
  unfold raise
  split
  · exact h
  · exact stop_heeds ⟨h.onError, h.everConnected⟩
  · exact h

theorem receive_heeds (c : Client κ) (generation : Nat) (f : Frame) :
    c.Heeds (c.receive generation f).client := by
  unfold receive
  split
  · exact .refl c
  cases f with
  | message m => exact (c.deliver_quiet m).spares.heeds
  | ok => exact .refl c
  | error text | unknown line => exact raise_heeds (.refl c) _
  | ping => exact (c.withOutbox_quiet _).spares.heeds
  | pong => exact c.pong_quiet.spares.heeds
  | info text =>
    simp only
    split <;> exact ⟨rfl, id⟩

theorem lost_heeds (c : Client κ) (generation : Nat) : c.Heeds (c.lost generation).client := by
  unfold lost
  split
  · exact .refl c
  dsimp only
  split
  · exact ⟨rfl, id⟩
  · split
    · exact ⟨rfl, id⟩
    · have hd : c.Heeds { c with
          outbox := c.outbox.detach, reader := none, phase := .disconnected } := ⟨rfl, id⟩
      exact raise_heeds hd _

theorem wake_heeds (c : Client κ) : c.Heeds c.wake.2.client := by
  unfold wake
  split
  · exact .refl c
  · dsimp only
    split
    · have hd : c.Heeds c.resigned := ⟨rfl, id⟩
      exact raise_heeds hd _
    · exact ⟨rfl, id⟩

theorem connectFailed_heeds (c : Client κ) (uri : ServerUri) :
    c.Heeds (c.connectFailed uri).client := by
  rw [connectFailed_client]
  split
  · exact ⟨rfl, id⟩
  · exact .refl c

/-- Only the application and the first connection after a start see to it that somebody hears of
errors. -/
theorem turn_heeds (hs : ∀ callback, t ≠ .event (.setErrorHandler callback))
    (hb : ∀ uri, t = .event (.connected uri) → c.bind? = none) : c.Heeds (c.turn t).client := by
  rcases t with e | _
  · by_cases he : e.Light
    · exact (step_quiet he c).spares.heeds
    cases e with
    | setErrorHandler callback => exact (hs callback rfl).elim
    | setConnectHandler callback | attemptFailed loop => exact ⟨rfl, id⟩
    | stop => exact stop_heeds (.refl c)
    | begin uri =>
      cases hu : c.starts? (.event (.begin uri)) with
      | none =>
        have hn : c.begin? uri = none := Option.map_eq_none_iff.1 hu
        rw [turn, step, hn]
        exact .refl c
      | some u =>
        rw [turn_of_starts hu]
        exact ⟨rfl, fun he ↦ absurd he Bool.false_ne_true⟩
    | connected uri =>
      rw [turn, step, hb uri rfl]
      exact .refl c
    | connectFailed uri => exact c.connectFailed_heeds uri
    | frame generation f => exact c.receive_heeds generation f
    | lost generation => exact c.lost_heeds generation
    | wake loop => exact c.wake_heeds
    | _ => exact absurd trivial he
  · exact ⟨rfl, id⟩

/-- An error on the connection in use, or the end of that connection for good, and what it is
called: a line of the server, the end of the connection if the client is not to reconnect, or the
turn of its reconnect loop at which all attempts are used up. -/
inductive Fails (c : Client κ) : Turn κ → ClientError → Prop
  | error (text : String) : Fails c (.event (.frame c.generation (.error text))) (.protocol text)
  | unknown (line : String) :
    Fails c (.event (.frame c.generation (.unknown line))) (.unknownProtocol line)
  | lost : c.phase = .connected → c.options.reconnect = false →
    Fails c (.event (.lost c.generation)) (.disconnected c.uriText)
  | exhausted (loop : Nat) : c.phase = .reconnecting →
    c.options.maxReconnectAttempts < c.attempts + 1 →
    Fails c (.event (.wake loop)) (.disconnected c.uriText)

/-- The fallback handler notes the error and stops the client. -/
theorem raise_of_fallback (ho : c.onError = .fallback) (hc : c.closing = false) (e : ClientError) :
    (c.raise e).client.closing = true ∧ (c.raise e).client.lastError = some e ∧
      (c.raise e).call = none := by
  have hn : ¬c.closing = true := by simp [hc]
  rw [raise, ho]
  dsimp only
  rw [stop, if_neg hn]
  exact ⟨rfl, rfl, rfl⟩

theorem Fails.ends {e : ClientError} (hf : c.Fails t e) (ho : c.onError = .fallback)
    (hc : c.closing = false) : (c.turn t).client.closing = true ∧
      (c.turn t).client.lastError = some e ∧ (c.turn t).call = none := by
  cases hf with
  | error text | unknown line =>
    simp only [turn, step, receive, if_neg (not_not_intro rfl)]
    exact raise_of_fallback ho hc _
  | lost hp hr =>
    have hn : ¬(c.generation ≠ c.generation ∨ c.phase ≠ .connected) := by simp [hp]
    have hk : ¬(!c.closing && c.options.reconnect) = true := by simp [hr]
    have hc' : ¬c.closing = true := by simp [hc]
    simp only [turn, step, Client.lost, if_neg hn, if_neg hk, if_neg hc']
    let d : Client κ :=
      { c with outbox := c.outbox.detach, reader := none, phase := .disconnected }
    exact raise_of_fallback (c := d) ho hc _
  | exhausted loop hp hm =>
    have hn : ¬(c.closing = true ∨ c.phase ≠ .reconnecting) := by simp [hp, hc]
    simp only [turn, step, wake, if_neg hn, if_pos hm]
    exact raise_of_fallback (c := c.resigned) ho hc _

/-- A stopped client keeps the last error until it starts again, unless a frame comes on a
connection that it does not have. -/
theorem lastError_turn (hc : c.closing = true) (hs : c.starts? t = none)
    (hf : ∀ f, t ≠ .event (.frame c.generation f)) :
    (c.turn t).client.lastError = c.lastError := by
  have hspares {d : Client κ} (h : c.Spares d) : d.lastError = c.lastError := by
    obtain ⟨o, r, rfl⟩ := h
    rfl
  rcases t with e | _
  · by_cases he : e.Light
    · exact hspares (step_quiet he c).spares
    cases e with
    | setErrorHandler | setConnectHandler | attemptFailed => rfl
    | stop => rw [turn, step, stop_of_closing hc]
    | begin uri =>
      have hn : c.begin? uri = none := Option.map_eq_none_iff.1 hs
      rw [turn, step, hn]
    | connected uri =>
      have hn : c.bind? = none := by simp [bind?, wantsConnection, hc]
      rw [turn, step, hn]
    | connectFailed uri =>
      simp only [turn, step, connectFailed_client]
      split <;> rfl
    | frame generation f =>
      have hg : c.generation ≠ generation := by
        rintro rfl
        exact hf f rfl
      simp only [turn, step, receive, if_pos hg]
    | lost generation =>
      simp only [turn, step, lost, hc]
      split <;> rfl
    | wake loop => rw [turn, step, wake, if_pos (.inl hc)]
    | _ => exact absurd trivial he
  · rfl

end Client

namespace History

variable {h : History κ} {t : Turn κ}

def Comes (h : History κ) : Turn κ → Prop
  | .event (.frame generation _) => generation ∈ h.ledger.attached
  | _ => True

instance (h : History κ) : (t : Turn κ) → Decidable (h.Comes t)
  | .event (.frame generation _) => inferInstanceAs (Decidable (generation ∈ h.ledger.attached))
  | .event (.setErrorHandler _) | .event (.setConnectHandler _) | .event (.publish ..)
  | .event (.publishAcked ..) | .event (.flush _) | .event (.subscribe ..)
  | .event (.request ..) | .event (.unsubscribe ..) | .event (.setTimeout ..)
  | .event .stop | .event (.begin _) | .event (.connected _) | .event (.connectFailed _)
  | .event (.lost _) | .event (.wake _) | .event (.attemptFailed _) | .event (.expire ..)
  | .broken => instDecidableTrue

/-- Nobody hears of errors as long as no connection was taken, and then the fallback handler
does. -/
inductive Unattended (h : History κ) : Prop
  | fresh : h.client.onError = .unset → h.client.everConnected = false → h.ledger.attached = [] →
    Unattended h
  | fallback : h.client.onError = .fallback → Unattended h

theorem attached_of_ordinary (l : Ledger Command (RoundTrip κ)) {ops : List (Use κ)}
    (ho : ∀ op ∈ ops, Client.Ordinary op) : (l.run ops).attached = l.attached := by
  induction ops generalizing l with
  | nil => rfl
  | cons op ops ih =>
    obtain ⟨hop, hops⟩ := List.forall_mem_cons.1 ho
    refine (ih (l.apply op) hops).trans ?_
    cases hop with
    | complete => exact (Ledger.SameWriters.complete l).1.attached
    | _ => rfl

theorem onError_of_bind? {c : Client κ} {r : Reaction κ} (hb : c.bind? = some r)
    (ho : c.onError = .unset ∧ c.everConnected = false ∨ c.onError = .fallback) :
    r.client.onError = .fallback := by
  unfold Client.bind? at hb
  split at hb
  · obtain rfl := Option.some.inj hb
    rcases ho with ⟨hn, he⟩ | hn
    · simp [Reaction.andThen, Client.roundTrip, Client.withOutbox, hn, he]
    · simp [Reaction.andThen, Client.roundTrip, Client.withOutbox, hn]
  · cases hb

theorem Unattended.next (hu : h.Unattended)
    (ht : ∀ callback, t ≠ .event (.setErrorHandler callback)) : (h.next t).Unattended := by
  by_cases hb : ∃ uri r, t = .event (.connected uri) ∧ h.client.bind? = some r
  · obtain ⟨uri, r, rfl, hr⟩ := hb
    have hc : (h.client.turn (.event (.connected uri))).client = r.client := by
      simp only [Client.turn, Client.step, hr]
    refine .fallback ?_
    show (h.client.turn (.event (.connected uri))).client.onError = _
    rw [hc]
    refine onError_of_bind? hr ?_
    cases hu with
    | fresh hn he _ => exact .inl ⟨hn, he⟩
    | fallback hn => exact .inr hn
  · have hnone : ∀ uri, t = .event (.connected uri) → h.client.bind? = none := fun uri he ↦
      Option.eq_none_iff_forall_ne_some.2 fun r hr ↦ hb ⟨uri, r, he, hr⟩
    have hh := Client.turn_heeds ht hnone
    cases hu with
    | fresh hn he ha =>
      refine .fresh (hh.onError.trans hn) (Bool.eq_false_iff.2 fun hc ↦ ?_) ?_
      · rw [hh.everConnected hc] at he
        cases he
      · rcases h.client.turnUses_ordinary t with ⟨u, -, rfl, -, hs, -⟩ | ho
        · rw [hnone u rfl] at hs
          cases hs
        · exact (attached_of_ordinary h.ledger ho).trans ha
    | fallback hn => exact .fallback (hh.onError.trans hn)

theorem Unattended.after (hu : h.Unattended) {ts : List (Turn κ)}
    (ht : ∀ callback, .event (.setErrorHandler callback) ∉ ts) : (h.after ts).Unattended := by
  induction ts generalizing h with
  | nil => exact hu
  | cons t ts ih =>
    have hn : ∀ callback, t ≠ .event (.setErrorHandler callback) := fun callback he ↦
      ht callback (he ▸ List.mem_cons_self)
    exact ih (hu.next hn) fun callback hm ↦ ht callback (List.mem_cons_of_mem _ hm)

/-- To a stopped client no frame on a connection that it had means anything. -/
theorem Kept.receive (hk : h.Kept) (hc : h.client.closing = true) {n : Nat}
    (hn : n ∈ h.ledger.attached) (f : Frame) : h.client.receive n f = { client := h.client } := by
  have hg : h.client.generation ≠ n := fun he ↦ hk.retired hc (he ▸ hn)
  exact if_pos hg

theorem Kept.lastError_after (hk : h.Kept) (hc : h.client.closing = true) {ts : List (Turn κ)}
    (hs : h.client.starts ts = []) (hf : h.Along Comes ts) :
    (h.after ts).client.lastError = h.client.lastError := by
  induction ts generalizing h with
  | nil => rfl
  | cons t ts ih =>
    obtain ⟨ht, hs⟩ := List.append_eq_nil_iff.1 hs
    have ht' : h.client.starts? t = none := by simpa using ht
    have hone : h.client.starts [t] = [] := List.append_eq_nil_iff.2 ⟨ht, rfl⟩
    have hstale : ∀ f, t ≠ .event (.frame h.client.generation f) := by
      rintro f rfl
      exact hk.retired hc hf.1
    refine (ih (hk.next t) (Client.closing_turns hc hone) hs hf.2).trans ?_
    exact Client.lastError_turn hc ht' hstale

end History

namespace Client

/-- Unless the application hears of errors itself, the first one ends the session: the client is
closed and knows the error, and until its next start no frame on any connection that it had comes
to anything. -/
theorem first_error_final (options : ClientOptions) (ts later : List (Turn κ)) (t : Turn κ)
    (e : ClientError) :
    let h := (History.new options).after ts
    let d := h.next t
    let c := (d.after later).client
    (∀ callback, .event (.setErrorHandler callback) ∉ ts) →
      h.client.generation ∈ h.ledger.attached → h.client.Fails t e →
      d.client.starts later = [] → d.Along History.Comes later →
        (h.client.turn t).call = none ∧ c.phase = .closed ∧ c.lastError = some e ∧
          ∀ n ∈ (d.after later).ledger.attached, ∀ f, c.receive n f = { client := c } := by
  intro h d c hts hcur hfails hs hf
  have hk : h.Kept := (History.Kept.new options).after ts
  have hc : h.client.closing = false := Bool.eq_false_iff.2 fun hc ↦ hk.retired hc hcur
  have hu : h.Unattended :=
    History.Unattended.after (.fresh rfl rfl rfl : (History.new options).Unattended) hts
  have ho : h.client.onError = .fallback := by
    cases hu with
    | fresh _ _ ha =>
      rw [ha] at hcur
      cases hcur
    | fallback ho => exact ho
  obtain ⟨hclosing, herror, hcall⟩ := hfails.ends ho hc
  have hkd : (d.after later).Kept := (hk.next t).after later
  have hstopped : c.closing = true := by
    have hstopped : (d.client.turns later).2.closing = true := closing_turns hclosing hs
    rwa [← History.after_client] at hstopped
  have hlast : c.lastError = d.client.lastError := (hk.next t).lastError_after hclosing hs hf
  exact ⟨hcall, hkd.settled.closed.2 hstopped, hlast.trans herror, fun n hn ↦
    hkd.receive hstopped hn⟩

def waiting : List (Turn Nat) :=
  [.event (.begin .localhost), .event (.connected .localhost),
    .event (.subscribe "news" none none 7), .event (.publishAcked "news" [1] 9)]

def aftermath : List (Turn Nat) :=
  [.event (.frame 1 (.message ⟨"news", 1, none, []⟩)), .event (.frame 1 .pong),
    .event (.frame 1 .ping), .event (.frame 1 (.info "\x7b\"server_id\":\"a\"\x7d")),
    .event (.frame 1 (.unknown "late")), .event (.publish "news" none [2]), .event (.lost 1),
    .event (.setErrorHandler 3), .event (.frame 1 (.error "late"))]

theorem first_error_final_aftermath :
    let h := (History.new {}).after waiting
    let t : Turn Nat := .event (.frame 1 (.error "first"))
    let c := ((h.next t).after aftermath).client
    (∀ callback, .event (.setErrorHandler callback) ∉ waiting) ∧
      h.client.generation ∈ h.ledger.attached ∧ h.client.Fails t (.protocol "first") ∧
      (h.next t).client.starts aftermath = [] ∧ (h.next t).Along History.Comes aftermath ∧
      c.phase = .closed ∧ c.lastError = some (.protocol "first") ∧
      c.receive 1 .pong = { client := c } := by
  intro h t c
  have hts : ∀ callback, .event (.setErrorHandler callback) ∉ waiting := by simp [waiting]
  have hcur : h.client.generation ∈ h.ledger.attached := by decide
  have hf : h.client.Fails t (.protocol "first") := .error "first"
  have hs : (h.next t).client.starts aftermath = [] := rfl
  have ha : (h.next t).Along History.Comes aftermath := by decide
  have hn : 1 ∈ ((h.next t).after aftermath).ledger.attached := by decide
  obtain ⟨-, hp, he, hr⟩ := first_error_final {} waiting aftermath t _ hts hcur hf hs ha
  -- so that both sides are compared as they stand, and not by what they come to
  unfold c h
  exact ⟨hts, hcur, hf, hs, ha, hp, he, hr 1 hn .pong⟩

end Client

end Herald
