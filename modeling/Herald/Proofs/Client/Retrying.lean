import Herald.Proofs.Client.Calls
import Herald.Proofs.Client.Connecting

namespace Herald

variable {κ : Type}

inductive Retry
  | sleep (loop : Nat)
  | abort (loop : Nat)

def Output.retry? : Output κ → Option Retry
  | .sleep loop => some (.sleep loop)
  | .abort loop => some (.abort loop)
  | _ => none

def Call.Disconnects : Call κ → Prop
  | .error _ (.disconnected _) => True
  | _ => False

namespace Reaction

def retries (r : Reaction κ) : List Retry := r.outputs.filterMap Output.retry?

def Tacit (r : Reaction κ) : Prop := ∀ call, r.call = some call → ¬call.Disconnects

theorem tacit_of_none {r : Reaction κ} (h : r.call = none) : r.Tacit := by
  intro call hc
  rw [h] at hc
  cases hc

theorem tacit_of_some {r : Reaction κ} {call : Call κ} (h : r.call = some call)
    (hc : ¬call.Disconnects) : r.Tacit := by
  intro call' h'
  obtain rfl := Option.some.inj (h.symm.trans h')
  exact hc

end Reaction

/-- An event that the application or the server brings about. The others come from connects that
succeed and from reconnect loops. -/
def Event.Outer : Event κ → Prop
  | .connected _ | .wake _ | .attemptFailed _ => False
  | _ => True

instance (e : Event κ) : Decidable e.Outer := by
  unfold Event.Outer
  split <;> infer_instance

namespace Client

variable {c : Client κ}

def patience (c : Client κ) : ClientOptions × Phase × UInt32 × Option Nat :=
  (c.options, c.phase, c.attempts, c.loop)

theorem Quiet.retries {r : Reaction κ} (h : c.Quiet r) : r.retries = [] := by
  refine List.filterMap_eq_nil_iff.2 fun o ho ↦ ?_
  have hp := h.plain o ho
  cases o with
  | write | watch | hangUp => rfl
  | sleep | abort => exact hp.elim

theorem deliver_tacit (c : Client κ) (m : Message) : (c.deliver m).Tacit := by
  intro call hc
  obtain ⟨callback, -, rfl, -⟩ := deliver_call hc
  exact id

theorem pong_tacit (c : Client κ) : c.pong.Tacit := by
  intro call hc
  unfold pong established at hc
  split at hc
  · cases hc
  · split at hc
    · obtain ⟨callback, -, rfl⟩ := Option.map_eq_some_iff.1 hc
      exact id
    · cases hc
  · obtain rfl := Option.some.inj hc
    exact id

theorem light_tacit {e : Event κ} (he : e.Light) (c : Client κ) : (c.step e).2.Tacit := by
  by_cases hs : e.Spoken
  · exact Reaction.tacit_of_none (hs.call_eq_none c)
  cases e with
  | expire sid token callback =>
    intro call hc
    obtain ⟨rfl, -⟩ := expire_call_eq_some.1 hc
    exact id
  | setErrorHandler | setConnectHandler | publish | publishAcked | flush | subscribe | request
  | unsubscribe | setTimeout | stop => exact absurd trivial hs
  | _ => exact he.elim

/-- How an event bears on the reconnect loop of a client: not at all, or it sets off a new one with
a full budget, or it stops the client and ends the one that runs. -/
inductive Shift (c : Client κ) (r : Reaction κ) : Prop
  | stays : r.retries = [] → r.client.loop = c.loop →
    (c.phase = .reconnecting → r.client.attempts = c.attempts) →
    (c.phase ≠ .connected → r.Tacit) → Shift c r
  | sets : c.phase = .connected → c.options.reconnect = true → r.retries = [.sleep c.loops] →
    r.client.loop = some c.loops → r.client.attempts = 0 → r.call = none → Shift c r
  | stops : c.closing = false → r.client.closing = true → r.retries = c.loop.toList.map .abort →
    r.client.loop = none → r.call = none → Shift c r

/-- Nothing sets off a reconnect loop but the loss of a connection. -/
theorem Shift.of_loop_none {r : Reaction κ} (h : c.Shift r) (hp : c.phase ≠ .connected)
    (hl : c.loop = none) : r.retries = [] ∧ r.client.loop = none := by
  cases h with
  | stays hr hl' => exact ⟨hr, hl'.trans hl⟩
  | sets hp' => exact (hp hp').elim
  | stops _ _ hr hl' => exact ⟨by rw [hr, hl]; rfl, hl'⟩

theorem filterMap_retry?_released (w : Option Writer) :
    (w.toList.map fun w ↦ Output.hangUp (κ := κ) w.number).filterMap Output.retry? = [] := by
  cases w <;> rfl

structure Beside (c d : Client κ) : Prop where
  options : d.options = c.options
  closing : d.closing = c.closing
  loop : d.loop = c.loop
  attempts : c.phase = .reconnecting → d.attempts = c.attempts

theorem Beside.refl (c : Client κ) : c.Beside c := ⟨rfl, rfl, rfl, fun _ ↦ rfl⟩

theorem Beside.shift {r : Reaction κ} (h : c.Beside r.client) (hn : r.retries = [])
    (hq : c.phase ≠ .connected → r.Tacit) : r.client.options = c.options ∧ c.Shift r :=
  ⟨h.options, .stays hn h.loop h.attempts hq⟩

theorem Beside.rest {d : Client κ} (h : c.Beside d) :
    d.options = c.options ∧ c.Shift { client := d } :=
  shift (r := { client := d }) h rfl fun _ ↦ Reaction.tacit_of_none rfl

theorem Quiet.shift {r : Reaction κ} (h : c.Quiet r) (ht : r.Tacit) :
    r.client.options = c.options ∧ c.Shift r := by
  have hb : c.Beside r.client := by
    obtain ⟨o, registry, he⟩ := h.spares
    rw [he]
    exact ⟨rfl, rfl, rfl, fun _ ↦ rfl⟩
  exact hb.shift h.retries fun _ ↦ ht

theorem stop_shift {d : Client κ} (h : c.Beside d) :
    d.stop.client.options = c.options ∧ c.Shift d.stop := by
  unfold stop
  split
  · exact h.rest
  · rename_i hc
    refine ⟨h.options, .stops (by simpa [h.closing] using hc) rfl ?_ rfl rfl⟩
    rw [Reaction.retries, List.filterMap_append, filterMap_retry?_released, h.loop]
    cases c.loop <;> rfl

theorem raise_shift {d : Client κ} (h : c.Beside d) {e : ClientError} (he : c.phase = .connected ∨
    ∀ callback, ¬(Call.error callback e : Call κ).Disconnects) :
    (d.raise e).client.options = c.options ∧ c.Shift (d.raise e) := by
  unfold raise
  split
  · exact h.rest
  · exact stop_shift ⟨h.options, h.closing, h.loop, h.attempts⟩
  · rename_i callback _
    exact Beside.shift h rfl fun hp ↦ Reaction.tacit_of_some rfl (he.resolve_left hp callback)

theorem Shift.released {r : Reaction κ} (h : c.Shift r) (w : Option Writer) :
    c.Shift { r with outputs := w.toList.map (fun w ↦ .hangUp w.number) ++ r.outputs } := by
  have hr : ({ r with outputs := w.toList.map (fun w ↦ .hangUp w.number) ++ r.outputs } :
      Reaction κ).retries = r.retries := by
    rw [Reaction.retries, List.filterMap_append, filterMap_retry?_released]
    rfl
  cases h with
  | stays hn hl ha hq => exact .stays (hr.trans hn) hl ha hq
  | sets hp hc hs hl ha hn => exact .sets hp hc (hr.trans hs) hl ha hn
  | stops hc hd hs hl hn => exact .stops hc hd (hr.trans hs) hl hn

theorem lost_shift (c : Client κ) (generation : Nat) :
    (c.lost generation).client.options = c.options ∧ c.Shift (c.lost generation) := by
  unfold lost
  split
  · exact (Beside.refl c).rest
  rename_i h
  have hp : c.phase = .connected := Decidable.not_not.1 (not_or.1 h).2
  dsimp only
  split
  · rename_i hk
    refine ⟨rfl, .sets hp (by simp_all) ?_ rfl rfl rfl⟩
    rw [Reaction.retries, List.filterMap_append, filterMap_retry?_released]
    rfl
  · have hb : c.Beside { c with
        outbox := c.outbox.detach, reader := none, phase := .disconnected } :=
      ⟨rfl, rfl, rfl, fun _ ↦ rfl⟩
    split
    · exact hb.shift (filterMap_retry?_released _) fun _ ↦ Reaction.tacit_of_none rfl
    · obtain ⟨ho, hs⟩ := raise_shift hb (e := .disconnected c.uriText) (.inl hp)
      exact ⟨ho, hs.released _⟩

theorem lost_of_connected (hp : c.phase = .connected) (hc : c.closing = false)
    (hr : c.options.reconnect = true) : let r := c.lost c.generation
    r.client.phase = .reconnecting ∧ r.client.closing = false ∧ r.client.uri = c.uri ∧
      r.client.attempts = 0 ∧ r.retries = [.sleep c.loops] ∧ r.call = none := by
  intro r
  have hn : ¬(c.generation ≠ c.generation ∨ c.phase ≠ .connected) := by simp [hp]
  have hk : (!c.closing && c.options.reconnect) = true := by rw [hc, hr]; rfl
  simp only [r, lost, if_neg hn, if_pos hk]
  refine ⟨trivial, hc, trivial, trivial, ?_, trivial⟩
  rw [Reaction.retries, List.filterMap_append, filterMap_retry?_released]
  rfl

theorem receive_shift (c : Client κ) (generation : Nat) (f : Frame) :
    (c.receive generation f).client.options = c.options ∧ c.Shift (c.receive generation f) := by
  unfold receive
  split
  · exact (Beside.refl c).rest
  cases f with
  | message m => exact (c.deliver_quiet m).shift (c.deliver_tacit m)
  | ok => exact (Beside.refl c).rest
  | error text | unknown line => exact raise_shift (.refl c) (.inr fun _ ↦ id)
  | ping => exact (c.withOutbox_quiet _).shift (Reaction.tacit_of_none rfl)
  | pong => exact c.pong_quiet.shift c.pong_tacit
  | info text =>
    simp only
    split
    · exact Beside.rest ⟨rfl, rfl, rfl, fun _ ↦ rfl⟩
    · exact (Beside.refl c).rest

theorem connectFailed_shift (c : Client κ) (uri : ServerUri) :
    (c.connectFailed uri).client.options = c.options ∧ c.Shift (c.connectFailed uri) := by
  have hb : c.Beside (c.connectFailed uri).client := by
    rw [connectFailed_client]
    split <;> exact ⟨rfl, rfl, rfl, fun _ ↦ rfl⟩
  have hr : (c.connectFailed uri).retries = [] ∧ (c.connectFailed uri).Tacit := by
    unfold connectFailed
    dsimp only
    split
    · exact ⟨rfl, Reaction.tacit_of_some rfl not_false⟩
    · exact ⟨rfl, Reaction.tacit_of_none rfl⟩
  exact hb.shift hr.1 fun _ ↦ hr.2

theorem begin_shift (c : Client κ) (uri : ServerUri) :
    (c.step (.begin uri)).2.client.options = c.options ∧ c.Shift (c.step (.begin uri)).2 := by
  have hs (hp : c.phase ≠ .reconnecting) {d : Client κ} (ho : d.options = c.options)
      (hl : d.loop = c.loop) : d.options = c.options ∧ c.Shift { client := d } :=
    ⟨ho, .stays rfl hl (fun h ↦ (hp h).elim) fun _ ↦ Reaction.tacit_of_none rfl⟩
  unfold step begin?
  cases hp : c.phase with
  | connecting | connected | reconnecting => exact (Beside.refl c).rest
  | disconnected | closed => exact hs (by simp [hp]) rfl rfl

/-- What the application and the server can do to a reconnect loop. -/
theorem step_shift (c : Client κ) {e : Event κ} (he : e.Outer) :
    (c.step e).2.client.options = c.options ∧ c.Shift (c.step e).2 := by
  by_cases hl : e.Light
  · exact (step_quiet hl c).shift (light_tacit hl c)
  cases e with
  | setErrorHandler callback | setConnectHandler callback =>
    exact Beside.rest ⟨rfl, rfl, rfl, fun _ ↦ rfl⟩
  | stop => exact stop_shift (.refl c)
  | begin uri => exact c.begin_shift uri
  | connectFailed uri => exact c.connectFailed_shift uri
  | frame generation f => exact c.receive_shift generation f
  | lost generation => exact c.lost_shift generation
  | connected uri | wake loop | attemptFailed loop => exact he.elim
  | _ => exact absurd trivial hl

def Addressed (c : Client κ) : Prop := c.uri = none → c.phase = .disconnected ∨ c.phase = .closed

theorem Addressed.exists (h : c.Addressed) (hd : c.phase ≠ .disconnected) (hc : c.phase ≠ .closed) :
    ∃ uri, c.uri = some uri := by
  cases hu : c.uri with
  | none => exact ((h hu).elim hd hc).elim
  | some uri => exact ⟨uri, rfl⟩

theorem Addressed.turn (h : c.Addressed) (hs : c.Settled) (t : Turn κ) :
    (c.turn t).client.Addressed := by
  intro hu
  rw [turn_uri, Option.or_eq_none_iff] at hu
  obtain ⟨hn, hu⟩ := hu
  have hp := h hu
  cases (turn_course hn).2 with
  | stays he =>
    rw [show (c.turn t).client.phase = c.phase from congrArg (·.1) he]
    exact hp
  | ends hi =>
    -- Without an address no connect succeeds, no connect fails and no loop tries.
    unfold Turn.Idle at hi
    split at hi
    · have hb : c.bind? = none := by
        unfold bind?
        rw [hu]
        split <;> simp_all
      simp only [Client.turn, step, hb]
      exact hp
    · simp only [Client.turn, step, connectFailed_client]
      rw [if_neg (by rcases hp with hp | hp <;> simp [hp])]
      exact hp
    · rcases hp with hp | hp <;> simp [hp] at hi
    · exact (hi trivial).elim
  | leaves hp' => rcases hp with hp | hp <;> simp [hp] at hp'
  | stops _ hc => exact .inr ((hs.turn t).closed.2 hc)

def tried (c : Client κ) : Client κ := { c with attempts := c.attempts + 1 }

def resigned (c : Client κ) : Client κ :=
  { c with attempts := c.attempts + 1, phase := .disconnected, loop := none }

theorem wake_of_reconnecting (hp : c.phase = .reconnecting) (hc : c.closing = false)
    {uri : ServerUri} (hu : c.uri = some uri) : c.wake =
      if c.options.maxReconnectAttempts < c.attempts + 1 then
        (none, c.resigned.raise (.disconnected uri.text))
      else (some uri, { client := c.tried }) := by
  have hn : ¬(c.closing = true ∨ c.phase ≠ .reconnecting) := by simp [hp, hc]
  have ht : c.uriText = uri.text := by rw [uriText, hu]; rfl
  rw [wake, if_neg hn]
  dsimp only
  split
  · rw [← ht]
    rfl
  · exact congrArg (·, ({ client := c.tried } : Reaction κ)) hu

/-- Giving up leaves no reconnect loop behind, whoever hears of it. -/
theorem resigned_raise (c : Client κ) (e : ClientError) :
    (c.resigned.raise e).client.options = c.options ∧
      (c.resigned.raise e).client.phase ≠ .connected ∧
      (c.resigned.raise e).client.loop = none ∧ (c.resigned.raise e).retries = [] := by
  have hr : (c.resigned.raise e).client.options = c.options ∧
      (c.resigned.raise e).client.loop = none ∧ (c.resigned.raise e).retries = [] := by
    unfold raise
    split
    · exact ⟨rfl, rfl, rfl⟩
    · obtain ⟨ho, hs⟩ := stop_shift (.refl { c.resigned with lastError := some e })
      obtain ⟨hr, hl⟩ := hs.of_loop_none nofun rfl
      exact ⟨ho, hl, hr⟩
    · exact ⟨rfl, rfl, rfl⟩
  refine ⟨hr.1, fun hp ↦ ?_, hr.2⟩
  have hp : (c.resigned.raise e).client.standing.1 = .connected := hp
  rcases c.resigned.raise_cases e with ⟨-, hs⟩ | ⟨-, -, hs⟩ <;> rw [hs] at hp <;> cases hp

structure Renewed (c : Client κ) (r : Reaction κ) : Prop where
  options : r.client.options = c.options
  phase : r.client.phase = .connected
  uri : r.client.uri = c.uri
  attempts : r.client.attempts = 0
  loop : r.client.loop = none
  retries : r.retries = []
  call : r.call = none

theorem renewed_of_bind? {r : Reaction κ} (h : c.bind? = some r) : c.Renewed r := by
  unfold bind? at h
  split at h
  · obtain rfl := Option.some.inj h
    refine ⟨rfl, rfl, rfl, rfl, rfl, ?_, rfl⟩
    exact ((withOutbox_quiet _ _).andThen (f := (·.roundTrip _)) (withOutbox_quiet _ _)).retries
  · cases h

end Client

end Herald
