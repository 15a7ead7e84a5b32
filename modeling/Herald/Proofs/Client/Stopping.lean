import Herald.Proofs.Client.Calls
import Herald.Proofs.Client.History
import Herald.Proofs.Client.Lifecycle
import Herald.Proofs.Registry.Lookup

namespace Herald

variable {κ : Type}

namespace Registry

def Unarmed (r : Registry κ) : Prop := ∀ s ∈ r.subs, s.timeout = none

theorem unarmed_cancelAll (r : Registry κ) : r.cancelAll.Unarmed := by
  intro s hs
  obtain ⟨s, -, rfl⟩ := List.mem_map.1 hs
  rfl

theorem Unarmed.claim {r : Registry κ} (h : r.Unarmed) (sid token : Nat) :
    r.claim sid token = (none, r) := by
  have hn : (r.find? sid).bind (·.timeout) = none := by
    cases hs : r.find? sid with
    | none => rfl
    | some s => exact h s (find?_eq_some hs).1
  rw [Registry.claim, hn]

end Registry

/-- A turn that comes from what was begun earlier, and not from the application: a frame on one of
these connections or its end, the end of a connect, a reconnect loop, a timer, or the end of a task
that writes. -/
def Turn.Lingers (ns : List Nat) : Turn κ → Prop
  | .event (.frame n _) | .event (.lost n) => n ∈ ns
  | .event (.connected _) | .event (.connectFailed _) | .event (.wake _)
  | .event (.attemptFailed _) | .event (.expire ..) | .broken => True
  | _ => False

instance (ns : List Nat) : (t : Turn κ) → Decidable (t.Lingers ns)
  | .event (.frame n _) | .event (.lost n) => inferInstanceAs (Decidable (n ∈ ns))
  | .event (.connected _) | .event (.connectFailed _) | .event (.wake _)
  | .event (.attemptFailed _) | .event (.expire ..) | .broken => instDecidableTrue
  | .event (.setErrorHandler _) | .event (.setConnectHandler _) | .event (.publish ..)
  | .event (.publishAcked ..) | .event (.flush _) | .event (.subscribe ..)
  | .event (.request ..) | .event (.unsubscribe ..) | .event (.setTimeout ..)
  | .event .stop | .event (.begin _) => instDecidableFalse

namespace Client

/-- A client is stopped, and none of these connections is the one that it would listen to. -/
structure Fenced (ns : List Nat) (c : Client κ) : Prop where
  closing : c.closing = true
  phase : c.phase = .closed
  writer : c.outbox.writer = none
  generation : c.generation ∉ ns

variable {ns : List Nat} {c : Client κ}

theorem connectFailed_of_closed (hc : c.closing = true) (hp : c.phase = .closed)
    (uri : ServerUri) : c.connectFailed uri = { client := c } := by
  simp [connectFailed, hp, hc]

theorem Fenced.target (h : c.Fenced ns) : c.outbox.target = none := by
  rw [Outbox.target, h.writer]
  rfl

theorem Fenced.bind? (h : c.Fenced ns) : c.bind? = none := by
  have hw : c.wantsConnection = false := by simp [wantsConnection, h.closing]
  unfold Client.bind?
  rw [hw]

/-- A timer of a stopped client hands nothing over, and runs a callback for a timeout at most. -/
theorem Fenced.expire (h : c.Fenced ns) (sid token : Nat) (callback : κ) :
    (c.expire sid token callback).client.Fenced ns ∧
      (c.expire sid token callback).written = [] ∧
      ∀ call, (c.expire sid token callback).call = some call → call = .timeout callback sid := by
  have hf := c.expire_follows sid token callback
  have hrun : (c.outbox.run (c.expireUses sid token)).1 = [] ∧
      (c.outbox.run (c.expireUses sid token)).2.writer = none := by
    unfold expireUses
    split
    · rw [Outbox.run_singleton, Outbox.apply, Outbox.send_of_no_target h.target]
      exact ⟨rfl, h.writer⟩
    · exact ⟨rfl, h.writer⟩
  rw [← hf.written, ← hf.outbox] at hrun
  refine ⟨?_, hrun.1, ?_⟩
  · obtain ⟨o, r, he⟩ := (c.expire_quiet sid token callback).spares
    rw [he] at hrun ⊢
    exact ⟨h.closing, h.phase, hrun.2, h.generation⟩
  · intro call hc
    exact (expire_call_eq_some.1 hc).1

/-- What comes from earlier passes a stopped client by, a timer apart. -/
theorem Fenced.passes (h : c.Fenced ns) {t : Turn κ} (ht : t.Lingers ns)
    (hn : ∀ sid token callback, t ≠ .event (.expire sid token callback)) :
    (c.turn t).client = c ∧ (c.turn t).written = [] ∧ (c.turn t).call = none := by
  have hstay {r : Reaction κ} (hr : r = { client := c }) :
      r.client = c ∧ r.written = [] ∧ r.call = none := by
    subst hr
    exact ⟨rfl, rfl, rfl⟩
  rcases t with e | _
  · cases e with
    | connected uri => exact hstay (by rw [turn, step, h.bind?])
    | connectFailed uri => exact hstay (connectFailed_of_closed h.closing h.phase uri)
    | frame n f =>
      have hg : c.generation ≠ n := fun he ↦ h.generation (he ▸ ht)
      exact hstay (if_pos hg)
    | lost n =>
      have hg : c.generation ≠ n ∨ c.phase ≠ .connected := .inr (by simp [h.phase])
      exact hstay (if_pos hg)
    | wake loop =>
      have hw : c.closing = true ∨ c.phase ≠ .reconnecting := .inl h.closing
      exact hstay (by rw [turn, step, Client.wake, if_pos hw])
    | attemptFailed loop => exact ⟨rfl, rfl, rfl⟩
    | expire sid token callback => exact (hn sid token callback rfl).elim
    | _ => exact ht.elim
  · have ho : c.outbox.breakWriter = c.outbox := by
      rw [Outbox.breakWriter, h.writer, Option.map_none, ← h.writer]
    exact hstay (by rw [turn, ho])

theorem Fenced.turn (h : c.Fenced ns) {t : Turn κ} (ht : t.Lingers ns) :
    (c.turn t).client.Fenced ns ∧ (c.turn t).written = [] ∧
      ∀ call, (c.turn t).call = some call → ∃ callback sid, call = .timeout callback sid := by
  by_cases hn : ∃ sid token callback, t = .event (.expire sid token callback)
  · obtain ⟨sid, token, callback, rfl⟩ := hn
    obtain ⟨hd, hw, hc⟩ := h.expire sid token callback
    exact ⟨hd, hw, fun call he ↦ ⟨callback, sid, hc call he⟩⟩
  · obtain ⟨hd, hw, hc⟩ := h.passes ht fun sid token callback he ↦ hn ⟨sid, token, callback, he⟩
    refine ⟨?_, hw, ?_⟩
    · rw [hd]
      exact h
    · intro call he
      rw [hc] at he
      cases he

theorem Fenced.turns (h : c.Fenced ns) {ts : List (Turn κ)} (hts : ∀ t ∈ ts, t.Lingers ns) :
    (c.turns ts).2.Fenced ns ∧ ∀ r ∈ (c.turns ts).1, r.written = [] ∧
      ∀ call, r.call = some call → ∃ callback sid, call = .timeout callback sid := by
  induction ts generalizing c with
  | nil => exact ⟨h, List.forall_mem_nil _⟩
  | cons t ts ih =>
    obtain ⟨ht, hts⟩ := List.forall_mem_cons.1 hts
    obtain ⟨hd, hr⟩ := h.turn ht
    obtain ⟨hd, hrs⟩ := ih hd hts
    exact ⟨hd, List.forall_mem_cons.2 ⟨hr, hrs⟩⟩

/-- Without timeouts nothing at all happens to a stopped client. -/
theorem Fenced.rests (h : c.Fenced ns) (hr : c.registry.Unarmed) {ts : List (Turn κ)}
    (hts : ∀ t ∈ ts, t.Lingers ns) :
    (c.turns ts).2 = c ∧ ∀ r ∈ (c.turns ts).1, r.call = none := by
  induction ts with
  | nil => exact ⟨rfl, List.forall_mem_nil _⟩
  | cons t ts ih =>
    obtain ⟨ht, hts⟩ := List.forall_mem_cons.1 hts
    have hc : (c.turn t).client = c ∧ (c.turn t).call = none := by
      by_cases hn : ∃ sid token callback, t = .event (.expire sid token callback)
      · obtain ⟨sid, token, callback, rfl⟩ := hn
        have he : c.turn (.event (.expire sid token callback)) = { client := c } := by
          rw [Client.turn, step, Client.expire, hr.claim]
        rw [he]
        exact ⟨rfl, rfl⟩
      · obtain ⟨hd, -, hc⟩ := h.passes ht fun sid token callback he ↦
          hn ⟨sid, token, callback, he⟩
        exact ⟨hd, hc⟩
    obtain ⟨hd, hrs⟩ := ih hts
    simp only [Client.turns, hc.1]
    exact ⟨hd, List.forall_mem_cons.2 ⟨hc.2, hrs⟩⟩

theorem stop_of_closing (h : c.closing = true) : c.stop = { client := c } := if_pos h

theorem stop_closing (c : Client κ) : c.stop.client.closing = true := by
  unfold stop
  split
  · assumption
  · rfl

theorem stop_of_not_closing (h : c.closing = false) : c.stop.client.outbox = {} ∧
    c.stop.client.registry.Unarmed ∧ c.stop.client.generation = c.generation + 1 := by
  have hn : ¬c.closing = true := by simp [h]
  rw [stop, if_neg hn]
  exact ⟨rfl, c.registry.unarmed_cancelAll, rfl⟩

end Client

namespace History

def Retired (h : History κ) : Prop :=
  h.client.closing = true → h.client.generation ∉ h.ledger.attached

structure Kept (h : History κ) : Prop where
  settled : h.client.Settled
  linked : Linked h.client.outbox h.client.standing
  tracks : Tracks h.ledger h.client.standing
  retired : h.Retired

theorem Kept.new (options : ClientOptions) : (new (κ := κ) options).Kept where
  settled := .new options
  linked := rfl
  tracks := (Sound.new options).tracks
  retired := by rintro ⟨⟩

theorem Kept.retired_next {h : History κ} (hk : h.Kept) (t : Turn κ) : (h.next t).Retired := by
  have hs := (hk.settled.turn t).closed
  have hc := hk.settled.closed
  have hr := hk.retired
  have hnew : h.client.generation + 1 ∉ h.ledger.attached := hk.tracks.not_attached
  have hm := h.client.turn_moves t
  intro hclosing
  have hclosed : (h.client.turn t).client.standing.1 = .closed := hs.2 hclosing
  have hclosing : (h.client.turn t).client.standing.2.2 = true := hclosing
  show (h.client.turn t).client.standing.2.1 ∉ (h.ledger.run (h.client.turnUses t)).attached
  generalize h.client.turnUses t = ops at hm ⊢
  generalize (h.client.turn t).client.standing = s at hm hclosed hclosing ⊢
  cases hm with
  | stay hp =>
    rw [(h.ledger.run_plain hp).1.attached]
    exact hr hclosing
  | complete =>
    rw [Ledger.run_cons, Ledger.run_nil, (Ledger.SameWriters.complete h.ledger).1.attached]
    exact hr hclosing
  | snap => exact hr hclosing
  | wander _ _ hw => exact hr (hw hclosing)
  | connect => cases hclosed
  | lose hp => simp [hc.2 hclosing] at hp
  | stop | fall => exact hnew

theorem Kept.next {h : History κ} (hk : h.Kept) (t : Turn κ) : (h.next t).Kept where
  settled := hk.settled.turn t
  linked := Client.linked_turn hk.linked t
  tracks := hk.tracks.move (h.client.turn_moves t)
  retired := hk.retired_next t

theorem Kept.after {h : History κ} (hk : h.Kept) (ts : List (Turn κ)) : (h.after ts).Kept := by
  induction ts generalizing h with
  | nil => exact hk
  | cons t ts ih => exact ih (hk.next t)

/-- Once it is stopped, a client has none of its connections any more. -/
theorem Kept.fenced {h : History κ} (hk : h.Kept) :
    h.client.stop.client.Fenced h.ledger.attached := by
  have hs := hk.settled.stop.closed.2 h.client.stop_closing
  have hl : Linked h.client.stop.client.outbox h.client.stop.client.standing :=
    Client.linked_turn hk.linked (.event .stop)
  have hw := hl.trans (if_neg (by simp [Client.standing, hs]))
  refine ⟨h.client.stop_closing, hs, Option.map_eq_none_iff.1 hw, ?_⟩
  cases hc : h.client.closing with
  | true =>
    rw [Client.stop_of_closing hc]
    exact hk.retired hc
  | false =>
    rw [(Client.stop_of_not_closing hc).2.2]
    exact hk.tracks.not_attached

end History

namespace Client

/-- A stop is final. Whatever comes later from what was begun before it, the client stays stopped,
takes no connection, hands nothing over and runs no callback; but a client that was stopped already
keeps the timeouts set and the commands queued since, and such a timeout still runs its callback. -/
theorem stop_final (options : ClientOptions) (ts late : List (Turn κ))
    (hl : ∀ t ∈ late, t.Lingers ((History.new options).after ts).ledger.attached) :
    let c : Client κ := (Client.turns { options } ts).2
    let d := c.stop.client
    let rs := (d.turns late).1
    let e := (d.turns late).2
    (c.stop.written = [] ∧ c.stop.call = none ∧ d.stop = { client := d }) ∧
      (e.phase = .closed ∧ (∀ uri, (e.step (.connected uri)).1 = .accepted false) ∧
        ∀ r ∈ rs, r.written = [] ∧
          ∀ call, r.call = some call → ∃ callback sid, call = .timeout callback sid) ∧
      (c.closing = false → d.outbox = {} ∧ d.registry.Unarmed) ∧
      (d.registry.Unarmed → e = d ∧ ∀ r ∈ rs, r.call = none) := by
  intro c d rs e
  have hk : ((History.new options).after ts).Kept := (History.Kept.new options).after ts
  have hf : d.Fenced ((History.new options).after ts).ledger.attached := by
    have hf := hk.fenced
    rw [History.after_client] at hf
    exact hf
  obtain ⟨he, hrs⟩ := hf.turns hl
  refine ⟨⟨c.stop_written, c.stop_call, stop_of_closing hf.closing⟩, ⟨he.phase, ?_, hrs⟩, ?_, ?_⟩
  · intro uri
    rw [step, he.bind?]
  · intro hc
    obtain ⟨ho, hu, -⟩ := stop_of_not_closing hc
    exact ⟨ho, hu⟩
  · intro hu
    exact hf.rests hu hl

def busy : List (Turn Nat) :=
  [.event (.setErrorHandler 3), .event (.setConnectHandler 4), .event (.begin .localhost),
    .event (.connected .localhost), .event (.subscribe "news" none none 7),
    .event (.setTimeout 1 100 1 true 8), .event (.publishAcked "news" [1] 9)]

def leftovers : List (Turn Nat) :=
  [.event (.frame 1 .pong), .event (.frame 1 (.message ⟨"news", 1, none, []⟩)),
    .event (.frame 1 (.error "late")), .event (.lost 1), .event (.connected .localhost),
    .event (.connectFailed .localhost), .event (.wake 0), .event (.expire 1 1 8), .broken]

theorem stop_final_busy :
    (∀ t ∈ leftovers, t.Lingers ((History.new {}).after busy).ledger.attached) ∧
      (Client.turns ({ options := {} } : Client Nat) busy).2.closing = false ∧
      let d := (Client.turns ({ options := {} } : Client Nat) busy).2.stop.client
      d.outbox = {} ∧ (d.turns leftovers).2 = d ∧ ∀ r ∈ (d.turns leftovers).1, r.call = none := by
  have hl : ∀ t ∈ leftovers, t.Lingers ((History.new {}).after busy).ledger.attached := by decide
  have hc : (Client.turns ({ options := {} } : Client Nat) busy).2.closing = false := by decide
  obtain ⟨-, -, ho, hr⟩ := stop_final {} busy leftovers hl
  obtain ⟨ho, hu⟩ := ho hc
  exact ⟨hl, hc, ho, hr hu⟩

def rearmed : List (Turn Nat) :=
  [.event (.subscribe "news" none none 7), .event .stop, .event (.setTimeout 1 100 1 true 8)]

/-- What was asked for after one stop outlasts the next one: a timeout runs its callback, and a
command waits. -/
theorem stop_not_final :
    (¬∀ (options : ClientOptions) (ts late : List (Turn Nat)),
      (∀ t ∈ late, t.Lingers ((History.new options).after ts).ledger.attached) →
      ∀ r ∈ ((Client.turns ({ options } : Client Nat) ts).2.stop.client.turns late).1,
        r.call = none) ∧
    ¬∀ (options : ClientOptions) (ts : List (Turn Nat)),
      (Client.turns ({ options } : Client Nat) ts).2.stop.client.outbox = {} := by
  constructor
  · intro h
    have hn := h {} rearmed [.event (.expire 1 1 8)] (by decide) _ List.mem_cons_self
    have hs : ((Client.turns ({ options := {} } : Client Nat) rearmed).2.stop.client.turn
        (.event (.expire 1 1 8))).call = some (.timeout 8 1) := rfl
    rw [hs] at hn
    cases hn
  · intro h
    have ho := h {} [.event .stop, .event (.publish "news" none [1])]
    have hp := congrArg (·.pending.length) ho
    exact absurd hp (by decide)

end Client

end Herald
