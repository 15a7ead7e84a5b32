import Herald.Proofs.Client.Confirmation
import Herald.Proofs.Host.Deadlines
import Herald.Proofs.Host.Connection

namespace Herald

variable {κ : Type}

/-- Only an answer of the server brings an acknowledgement. -/
theorem Client.call_ne_acked {c : Client κ} {t : Turn κ} (ht : t.pong? = none) (callback : κ) :
    (c.turn t).call ≠ some (.acked callback) := by
  intro hc
  rw [show t = .event (.frame c.generation .pong) from (Client.turn_call hc).1] at ht
  cases ht

namespace Host

variable {h : Host κ} {c : Client κ} {ts : List (Turn κ)}

/-- A host whose client has taken these turns, with nothing else written on its connections. -/
structure Recounts (h : Host κ) (c : Client κ) (ts : List (Turn κ)) : Prop where
  joined : h.Joined
  client : h.client = (c.turns ts).2
  wire : h.wire = (c.log ts).map (·.parcel)

theorem Recounts.new (options : ClientOptions) (network : Network) :
    (new (κ := κ) options network).Recounts { options } [] := ⟨.new options network, rfl, rfl⟩

theorem wire_foldl_perform (h : Host κ) (os : List (Output κ)) :
    (os.foldl perform h).wire = h.wire ++ (os.filterMap Output.sent?).map (·.parcel) := by
  induction os generalizing h with
  | nil => exact (List.append_nil _).symm
  | cons o os ih =>
    rw [List.foldl_cons, ih]
    cases o with
    | write sent => simp [perform, Output.sent?]
    | hangUp generation =>
      have hw : (h.perform (.hangUp generation)).wire = h.wire := by
        unfold perform
        dsimp only
        split
        · split <;> rfl
        · rfl
      rw [hw]
      rfl
    | sleep | abort | watch => rfl

theorem handle_wire (h : Host κ) (e : Event κ) :
    (h.handle e).2.2.wire = h.wire ++ (h.client.step e).2.written.map (·.parcel) :=
  wire_foldl_perform _ _

/-- The host after a turn that it lets its client take. -/
theorem Recounts.turn (hr : h.Recounts c ts) {t : Turn κ} {h' : Host κ} (hj : h'.Joined)
    (hc : h'.client = (h.client.turn t).client)
    (hw : h'.wire = h.wire ++ (h.client.turn t).written.map (·.parcel)) :
    h'.Recounts c (ts ++ [t]) where
  joined := hj
  client := by rw [hc, hr.client, Client.turns_snoc]
  wire := by rw [hw, hr.wire, hr.client, Client.log_snoc, List.map_append]

theorem Recounts.handle (hr : h.Recounts c ts) (e : Event κ) :
    (h.handle e).2.2.Recounts c (ts ++ [.event e]) :=
  hr.turn (hr.joined.handle e) (h.handle_client e) (h.handle_wire e)

theorem Recounts.connect (hr : h.Recounts c ts) (uri : ServerUri) :
    (h.connect uri).2.Recounts c (ts ++ [.event (.connected uri)]) := by
  refine hr.turn (hr.joined.connect uri) (h.connect_takes uri).client ?_
  have hw := wire_foldl_perform { h with
    client := (h.client.step (.connected uri)).2.client
    established := h.established + 1 } (h.client.step (.connected uri)).2.outputs
  unfold Host.connect
  dsimp only
  split <;> exact hw

theorem Recounts.broken (hr : h.Recounts c ts) :
    Recounts { h with client := (h.client.turn .broken).client } c (ts ++ [.broken]) :=
  hr.turn ⟨Client.linked_turn hr.joined.linked .broken, hr.joined.link⟩ rfl
    (List.append_nil _).symm

theorem Recounts.nextTimer? (hr : h.Recounts c ts) {deadline : Nat} {t : Timer κ} {h' : Host κ}
    (hn : h.nextTimer? deadline = some (t, h')) : h'.Recounts c ts := by
  have hj := hr.joined.nextTimer? hn
  unfold Host.nextTimer? at hn
  split at hn
  · split at hn <;> cases hn
    exact ⟨hj, hr.client, hr.wire⟩
  · cases hn

theorem Recounts.withParser (hr : h.Recounts c ts) {parser : Parser} (hs : parser.Searched) :
    (h.withParser parser).Recounts c ts := ⟨hr.joined.withParser hs, hr.client, hr.wire⟩

def alarmTurns (h : Host κ) : Alarm κ → List (Turn κ)
  | .expire sid token callback => [.event (.expire sid token callback)]
  | .wake loop => .event (.wake loop) :: match h.client.wake.1 with
    | some uri => [.event (if h.network.Refuses then .attemptFailed loop else .connected uri)]
    | none => []

theorem unasked_alarmTurns (h : Host κ) (alarm : Alarm κ) :
    ∀ t ∈ h.alarmTurns alarm, t.Unasked ∧ t.pong? = none := by
  cases alarm with
  | expire sid token callback => exact List.forall_mem_singleton.2 ⟨id, rfl⟩
  | wake loop =>
    refine List.forall_mem_cons.2 ⟨⟨id, rfl⟩, ?_⟩
    split
    · refine List.forall_mem_singleton.2 ?_
      split <;> exact ⟨id, rfl⟩
    · exact List.forall_mem_nil _

theorem Recounts.ring (hr : h.Recounts c ts) (alarm : Alarm κ) :
    (h.ring alarm).2.Recounts c (ts ++ h.alarmTurns alarm) := by
  cases alarm with
  | expire sid token callback => exact hr.handle _
  | wake loop =>
    have hw := hr.handle (.wake loop)
    simp only [Host.ring, wake_eq, alarmTurns]
    cases h.client.wake.1 with
    | none => exact hw
    | some uri =>
      rw [← List.singleton_append, ← List.append_assoc]
      dsimp only
      split
      · exact hw.handle _
      · exact hw.connect uri

theorem connect_call_ne_acked (h : Host κ) (uri : ServerUri) (callback : κ) :
    (h.connect uri).1 ≠ some (.acked callback) := by
  rw [(h.connect_spec uri).1]
  exact Client.call_ne_acked (t := .event (.connected uri)) rfl callback

theorem ring_call_ne_acked (h : Host κ) (alarm : Alarm κ) (callback : κ) :
    (h.ring alarm).1 ≠ some (.acked callback) := by
  cases alarm with
  | expire sid token callback' =>
    exact Client.call_ne_acked (t := .event (.expire sid token callback')) rfl callback
  | wake loop =>
    simp only [ring, wake_eq]
    split
    · split
      · exact nofun
      · exact connect_call_ne_acked _ _ callback
    · exact Client.call_ne_acked (t := .event (.wake loop)) rfl callback

end Host

end Herald
