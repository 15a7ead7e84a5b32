import Herald.Proofs.Client.Publishing
import Herald.Proofs.Outbox.Target
import Herald.Scenario.Step

namespace Herald

variable {κ : Type}

def Linked (o : Outbox Command (RoundTrip κ)) (s : Phase × Nat × Bool) : Prop :=
  o.writer.map (·.number) = if s.1 = .connected then some s.2.1 else none

namespace Client

theorem Move.linked {c : Client κ} {t : Turn κ} {ops : List (Use κ)} {s : Phase × Nat × Bool}
    (hm : c.Move t ops s) (h : Linked c.outbox c.standing) : Linked (c.outbox.run ops).2 s := by
  have hnone (hp : c.phase ≠ .connected) : c.outbox.writer = none :=
    Option.map_eq_none_iff.1 (h.trans (if_neg hp))
  cases hm with
  | stay hp =>
    rw [Linked, Outbox.run_plain_writer hp]
    exact h
  | complete =>
    rw [Linked, Outbox.run_singleton]
    simp only [Outbox.apply, Outbox.complete_writer]
    exact h
  | snap =>
    rw [Linked, Outbox.run_singleton]
    simp only [Outbox.apply, Outbox.breakWriter, Option.map_map]
    exact h
  | wander hp hp' =>
    rw [Linked, if_neg hp', Outbox.run_nil, hnone hp]
    rfl
  | connect => rfl
  | lose hp hp' =>
    rw [Linked, if_neg hp', Outbox.run_singleton]
    rfl
  | stop | fall => rfl

/-- Only the end of the task that writes for a connection makes its writer refuse parcels. -/
theorem Move.writer_open {c : Client κ} {t : Turn κ} {ops : List (Use κ)}
    {s : Phase × Nat × Bool} (hm : c.Move t ops s) (ht : t ≠ .broken)
    (h : ∀ w, c.outbox.writer = some w → w.isOpen) :
    ∀ w, (c.outbox.run ops).2.writer = some w → w.isOpen := by
  intro w hw
  cases hm with
  | stay hp =>
    rw [Outbox.run_plain_writer hp] at hw
    exact h w hw
  | complete =>
    rw [Outbox.run_singleton] at hw
    simp only [Outbox.apply, Outbox.complete_writer] at hw
    exact h w hw
  | snap hb => exact (ht hb).elim
  | wander => exact h w hw
  | connect =>
    obtain rfl := Option.some.inj hw
    rfl
  | lose | stop | fall => cases hw

def posture (c : Client κ) : Phase × Bool × Nat × Option Nat × Option Nat :=
  (c.phase, c.closing, c.generation, c.reader, c.loop)

/-- The tasks that run for a client are those that its phase calls for. -/
structure Settled (c : Client κ) : Prop where
  closed : c.phase = .closed ↔ c.closing = true
  reader : c.reader = if c.phase = .connected then some c.generation else none
  loop : c.phase = .reconnecting ↔ c.loop.isSome

namespace Settled

variable {c d : Client κ}

theorem of_posture (h : c.Settled) (hp : d.posture = c.posture) : d.Settled := by
  simp only [posture, Prod.mk.injEq] at hp
  obtain ⟨h₁, h₂, h₃, h₄, h₅⟩ := hp
  exact ⟨h₁ ▸ h₂ ▸ h.closed, h₁ ▸ h₃ ▸ h₄ ▸ h.reader, h₁ ▸ h₅ ▸ h.loop⟩

theorem of_spares (h : c.Settled) (hs : c.Spares d) : d.Settled := by
  obtain ⟨o, r, rfl⟩ := hs
  exact h.of_posture rfl

theorem reader_none (h : c.Settled) (hp : c.phase ≠ .connected) : c.reader = none :=
  h.reader.trans (if_neg hp)

theorem loop_none (h : c.Settled) (hp : c.phase ≠ .reconnecting) : c.loop = none := by
  cases hl : c.loop with
  | none => rfl
  | some n => exact (hp (h.loop.2 (by rw [hl]; rfl))).elim

theorem not_closing (h : c.Settled) (hp : c.phase ≠ .closed) : c.closing = false := by
  have hc := mt h.closed.2 hp
  simpa using hc

theorem stop (h : c.Settled) : c.stop.client.Settled := by
  unfold Client.stop
  split
  · exact h
  · exact ⟨by simp, by simp, by simp⟩

theorem raise (h : c.Settled) (e : ClientError) : (c.raise e).client.Settled := by
  unfold Client.raise
  split
  · exact h
  · have he : Settled { c with lastError := some e } := h.of_posture rfl
    exact he.stop
  · exact h

theorem started (h : c.Settled) (uri : ServerUri) :
    (c.step (.begin uri)).2.client.Settled := by
  have hn : c.phase = .disconnected ∨ c.phase = .closed →
      Settled { c with
        phase := .connecting
        uri := some uri
        closing := false
        everConnected := false
        attempts := 0 } := by
    intro hp
    have hr := h.reader_none (by rcases hp with hp | hp <;> simp [hp])
    have hl := h.loop_none (by rcases hp with hp | hp <;> simp [hp])
    exact ⟨by simp, by simp [hr], by simp [hl]⟩
  unfold step begin?
  cases hp : c.phase with
  | connecting | connected | reconnecting => exact h
  | disconnected => exact hn (.inl hp)
  | closed => exact hn (.inr hp)

theorem of_bind? {r : Reaction κ} (hr : c.bind? = some r) : r.client.Settled := by
  unfold Client.bind? at hr
  split at hr
  · rename_i uri hw _
    obtain rfl := Option.some.inj hr
    have hc : c.closing = false := by
      cases hc : c.closing with
      | false => rfl
      | true => simp [wantsConnection, hc] at hw
    refine of_posture (c := { c with
      generation := c.generation + 1
      loop := none
      phase := .connected
      reader := some (c.generation + 1) }) ⟨by simp [hc], by simp, by simp⟩ rfl
  · cases hr

theorem connectFailed (h : c.Settled) (uri : ServerUri) :
    (c.connectFailed uri).client.Settled := by
  rw [connectFailed_client]
  split
  · rename_i hp
    have hc := h.not_closing (by simp [hp])
    have hr := h.reader_none (by simp [hp])
    have hl := h.loop_none (by simp [hp])
    exact ⟨by simp [hc], by simp [hr], by simp [hl]⟩
  · exact h

theorem lost (h : c.Settled) (generation : Nat) : (c.lost generation).client.Settled := by
  unfold Client.lost
  split
  · exact h
  rename_i hg
  have hp : c.phase = .connected := Decidable.not_not.1 (not_or.1 hg).2
  have hc := h.not_closing (by simp [hp])
  have hl := h.loop_none (by simp [hp])
  have hd : Settled { c with
      outbox := c.outbox.detach, reader := none, phase := .disconnected } :=
    ⟨by simp [hc], by simp, by simp [hl]⟩
  dsimp only
  split
  · exact ⟨by simp [hc], by simp, by simp⟩
  · split
    · exact hd
    · exact hd.raise _

theorem wake (h : c.Settled) : c.wake.2.client.Settled := by
  unfold Client.wake
  split
  · exact h
  rename_i hw
  have hp : c.phase = .reconnecting := Decidable.not_not.1 (not_or.1 hw).2
  have hc := h.not_closing (by simp [hp])
  have hr := h.reader_none (by simp [hp])
  dsimp only
  split
  · have hd : Settled { c with
        attempts := c.attempts + 1, phase := .disconnected, loop := none } :=
      ⟨by simp [hc], by simp [hr], by simp⟩
    exact hd.raise _
  · exact h.of_posture rfl

end Settled

theorem Settled.receive {c : Client κ} (h : c.Settled) (generation : Nat) (f : Frame) :
    (c.receive generation f).client.Settled := by
  unfold Client.receive
  split
  · exact h
  cases f with
  | message m => exact h.of_spares (c.deliver_quiet m).spares
  | ok => exact h
  | error text => exact h.raise _
  | ping => exact h.of_posture rfl
  | pong => exact h.of_spares c.pong_quiet.spares
  | info text =>
    simp only
    split
    · exact h.of_posture rfl
    · exact h
  | unknown line => exact h.raise _

theorem Settled.turn {c : Client κ} (h : c.Settled) (t : Turn κ) : (c.turn t).client.Settled := by
  rcases t with e | _
  · by_cases he : e.Light
    · exact h.of_spares (step_quiet he c).spares
    cases e with
    | stop => exact h.stop
    | begin uri => exact h.started uri
    | connected uri =>
      simp only [Client.turn, step]
      split
      · rename_i r hr
        exact .of_bind? hr
      · exact h
    | connectFailed uri => exact h.connectFailed uri
    | frame generation f => exact h.receive generation f
    | lost generation => exact h.lost generation
    | wake loop => exact h.wake
    | setErrorHandler callback | setConnectHandler callback | attemptFailed loop =>
      exact h.of_posture rfl
    | _ => exact absurd trivial he
  · exact h.of_posture rfl

structure Coherent (c : Client κ) : Prop where
  connected_iff_writer : c.phase = .connected ↔ c.outbox.writer.isSome
  connected_iff_reader : c.phase = .connected ↔ c.reader.isSome
  reconnecting_iff_loop : c.phase = .reconnecting ↔ c.loop.isSome
  closed_iff_closing : c.phase = .closed ↔ c.closing = true
  current : ∀ w, c.outbox.writer = some w →
    w.number = c.generation ∧ c.reader = some c.generation

theorem Settled.coherent {c : Client κ} (h : c.Settled) (hl : Linked c.outbox c.standing) :
    c.Coherent := by
  have hw : c.outbox.writer.map (·.number) =
      if c.phase = .connected then some c.generation else none := hl
  refine ⟨?_, ?_, h.loop, h.closed, ?_⟩
  · rw [← Option.isSome_map (f := (·.number)), hw]
    split <;> simp_all
  · rw [h.reader]
    split <;> simp_all
  · intro w hs
    rw [hs, Option.map_some] at hw
    split at hw
    · rename_i hp
      exact ⟨Option.some.inj hw, h.reader.trans (if_pos hp)⟩
    · cases hw

theorem number_of_target {c : Client κ} (h : Linked c.outbox c.standing) {w : Writer}
    (hw : c.outbox.target = some w) : w.number = c.generation := by
  have hn : c.outbox.writer.map (·.number) = if c.phase = .connected then some c.generation
    else none := h
  rw [(Outbox.target_eq_some_iff.1 hw).1, Option.map_some] at hn
  split at hn
  · exact Option.some.inj hn
  · cases hn

theorem linked_turn {c : Client κ} (h : Linked c.outbox c.standing) (t : Turn κ) :
    Linked (c.turn t).client.outbox (c.turn t).client.standing := by
  rw [(c.turn_follows t).outbox]
  exact (c.turn_moves t).linked h

theorem writer_open_turn {c : Client κ} (h : ∀ w, c.outbox.writer = some w → w.isOpen)
    {t : Turn κ} (ht : t ≠ .broken) :
    ∀ w, (c.turn t).client.outbox.writer = some w → w.isOpen := by
  rw [(c.turn_follows t).outbox]
  exact (c.turn_moves t).writer_open ht h

/-- The writer in use, if the task that writes for it has not ended, has the generation of the
client. -/
theorem linked_turns {c : Client κ} (h : Linked c.outbox c.standing) (ts : List (Turn κ)) :
    Linked (c.turns ts).2.outbox (c.turns ts).2.standing := by
  induction ts generalizing c with
  | nil => exact h
  | cons t ts ih => exact ih (linked_turn h t)

theorem writer_open_turns {c : Client κ} (h : ∀ w, c.outbox.writer = some w → w.isOpen)
    {ts : List (Turn κ)} (ht : .broken ∉ ts) :
    ∀ w, (c.turns ts).2.outbox.writer = some w → w.isOpen := by
  induction ts generalizing c with
  | nil => exact h
  | cons t ts ih =>
    rw [List.mem_cons, not_or] at ht
    exact ih (writer_open_turn h (Ne.symm ht.1)) ht.2

theorem Settled.turns {c : Client κ} (h : c.Settled) (ts : List (Turn κ)) :
    (c.turns ts).2.Settled := by
  induction ts generalizing c with
  | nil => exact h
  | cons t ts ih => exact ih (h.turn t)

theorem Settled.new (options : ClientOptions) : ({ options } : Client κ).Settled :=
  ⟨by simp, by simp, by simp⟩

/-- A client that is connected has an open writer, unless the task that writes for it has ended. -/
theorem target_isSome_turns (options : ClientOptions) {ts : List (Turn κ)} (ht : .broken ∉ ts)
    (hp : (Client.turns { options } ts).2.phase = .connected) :
    (Client.turns { options } ts).2.outbox.target.isSome := by
  have hl := linked_turns (c := { options }) rfl ts
  have hc := ((Settled.new options).turns ts).coherent hl
  obtain ⟨w, hw⟩ := Option.isSome_iff_exists.1 (hc.connected_iff_writer.1 hp)
  have ho : w.isOpen := writer_open_turns (c := { options }) nofun ht w hw
  rw [Outbox.target_eq_some_iff.2 ⟨hw, ho⟩]
  rfl

end Client

def ClientError.Refusal : ClientError → Prop
  | .invalidUri _ | .alreadyStarted => True
  | _ => False

/-- A start that is refused leaves everything as it is. -/
theorem Scenario.make_refused {s : Scenario} {uri : String} {during : List Move}
    {e : ClientError} (h : (s.make (.start uri during)).1 = some (.failed e)) (he : e.Refusal) :
    (s.make (.start uri during)).2 = s := by
  rw [Scenario.make] at h ⊢
  cases hu : ServerUri.parse? uri with
  | error e => rfl
  | ok u =>
    simp only [hu] at h ⊢
    split
    · rename_i host hb
      simp only [hb] at h
      -- Once begun, a start fails only for want of a connection.
      have hf (s : Scenario) (kind : IoErrorKind) :
          (s.refuse u kind).1 ≠ .failed e := by
        rintro hr
        cases hr
        exact he
      have hc (s : Scenario) : (s.conclude u).1 ≠ .failed e := by
        unfold Scenario.conclude
        split
        · nofun
        · exact hf s .connectionRefused
      split at h
      · exact (hc _ (Option.some.inj h)).elim
      · exact (hf _ _ (Option.some.inj h)).elim
    · rfl

namespace Client

theorem step_begin_refused {c : Client κ} {uri : ServerUri}
    (h : (c.step (.begin uri)).1 = .accepted false) :
    (c.step (.begin uri)).2 = { client := c } := by
  cases hb : c.begin? uri with
  | none => simp only [step, hb]
  | some d => simp [step, hb] at h

theorem step_connected_refused {c : Client κ} {uri : ServerUri}
    (h : (c.step (.connected uri)).1 = .accepted false) :
    (c.step (.connected uri)).2 = { client := c } := by
  cases hb : c.bind? with
  | none => simp only [step, hb]
  | some r => simp [step, hb] at h

/-- In whatever order starts, stops, frames, losses, timers and calls of the application come, the
parts of a client agree; and a start or a connection that is refused changes nothing. -/
theorem lifecycle_coherent (options : ClientOptions) (ts : List (Turn κ)) :
    let c : Client κ := (Client.turns { options } ts).2
    c.Coherent ∧
      (c.outbox.target.isSome → c.outbox.pending = []) ∧
      (.broken ∉ ts → c.phase = .connected → c.outbox.pending = []) ∧
      (∀ uri, (c.step (.begin uri)).1 = .accepted false →
        (c.step (.begin uri)).2 = { client := c }) ∧
      (∀ uri, (c.step (.connected uri)).1 = .accepted false →
        (c.step (.connected uri)).2 = { client := c }) ∧
      ∀ (s : Scenario) (uri : String) (during : List Herald.Move) (e : ClientError),
        (s.make (.start uri during)).1 = some (.failed e) → e.Refusal →
          (s.make (.start uri during)).2 = s := by
  intro c
  have hl : Linked c.outbox c.standing := linked_turns (c := { options }) rfl ts
  have hs : c.Settled := (Settled.new options).turns ts
  have hf : c.outbox.Flushed := flushed_turns (c := { options }) (fun _ ↦ rfl) ts
  have hc : c.Coherent := hs.coherent hl
  refine ⟨hc, hf, ?_, fun _ ↦ step_begin_refused, fun _ ↦ step_connected_refused, ?_⟩
  · intro ht hp
    exact hf (target_isSome_turns options ht hp)
  · intro s uri during e
    exact Scenario.make_refused

end Client

end Herald
