import Herald.Proofs.Frame.Chunking
import Herald.Proofs.Host.Occurrence

namespace Herald

variable {κ : Type}

def Output.hangUp? : Output κ → Option Nat
  | .hangUp generation => some generation
  | _ => none

def Reaction.hangUps (r : Reaction κ) : List Nat := r.outputs.filterMap Output.hangUp?

namespace Client

structure Holds (c : Client κ) (r : Reaction κ) : Prop where
  standing : r.client.standing = c.standing
  hangUps : r.hangUps = []

variable {c : Client κ}

theorem Holds.rest {d : Client κ} (h : d.standing = c.standing) : c.Holds { client := d } :=
  ⟨h, rfl⟩

theorem Quiet.holds {r : Reaction κ} (h : c.Quiet r) : c.Holds r := by
  refine ⟨h.standing, List.filterMap_eq_nil_iff.2 fun o ho ↦ ?_⟩
  have hp := h.plain o ho
  cases o with
  | write | watch | sleep | abort => rfl
  | hangUp => exact hp.elim

inductive Bears (c : Client κ) (e : Event κ) (r : Reaction κ) : Prop
  | holds : c.Holds r → Bears c e r
  | loses : e = .lost c.generation → r.hangUps = [c.generation] → Bears c e r
  | stops : r.client.generation = c.generation + 1 → r.hangUps = [c.generation] → Bears c e r

theorem hangUps_released (h : Linked c.outbox c.standing) (hp : c.phase = .connected) :
    (c.outbox.writer.toList.map fun w ↦ Output.hangUp (κ := κ) w.number).filterMap
      Output.hangUp? = [c.generation] := by
  obtain ⟨w, hw, hn⟩ := Option.map_eq_some_iff.1 (h.trans (if_pos hp))
  rw [hw, ← show w.number = c.generation from hn]
  rfl

theorem stop_bears {c : Client κ} (h : Linked c.outbox c.standing) (hp : c.phase = .connected)
    (e : Event κ) : c.Bears e c.stop := by
  unfold stop
  split
  · exact .holds (.rest rfl)
  · refine .stops rfl ?_
    rw [Reaction.hangUps, List.filterMap_append, hangUps_released h hp]
    cases c.loop <;> rfl

theorem raise_bears {c : Client κ} (h : Linked c.outbox c.standing) (hp : c.phase = .connected)
    (e : Event κ) (error : ClientError) : c.Bears e (c.raise error) := by
  unfold raise
  split
  · exact .holds (.rest rfl)
  · have hb := stop_bears (c := { c with lastError := some error }) h hp e
    cases hb with
    | holds hh => exact .holds ⟨hh.standing, hh.hangUps⟩
    | loses he hu => exact .loses he hu
    | stops hg hu => exact .stops hg hu
  · exact .holds ⟨rfl, rfl⟩

theorem receive_bears {c : Client κ} (h : Linked c.outbox c.standing) (hp : c.phase = .connected)
    (e : Event κ) (generation : Nat) (f : Frame) : c.Bears e (c.receive generation f) := by
  unfold receive
  split
  · exact .holds (.rest rfl)
  cases f with
  | message m => exact .holds (c.deliver_quiet m).holds
  | ok => exact .holds (.rest rfl)
  | error text | unknown line => exact raise_bears h hp e _
  | ping => exact .holds (c.withOutbox_quiet _).holds
  | pong => exact .holds c.pong_quiet.holds
  | info text =>
    simp only
    split <;> exact .holds (.rest rfl)

theorem hangUps_raise_detached (c : Client κ) (hw : c.outbox.writer = none) (e : ClientError) :
    (c.raise e).hangUps = [] := by
  unfold raise
  split
  · rfl
  · unfold stop
    split
    · rfl
    · simp only [Reaction.hangUps, hw]
      cases c.loop <;> rfl
  · rfl

theorem lost_bears {c : Client κ} (h : Linked c.outbox c.standing) (hp : c.phase = .connected)
    (generation : Nat) : c.Bears (.lost generation) (c.lost generation) := by
  unfold lost
  split
  · exact .holds (.rest rfl)
  rename_i hg
  obtain rfl : c.generation = generation := Decidable.not_not.1 (not_or.1 hg).1
  have hu := hangUps_released (κ := κ) h hp
  dsimp only
  split
  · refine .loses rfl ?_
    rw [Reaction.hangUps, List.filterMap_append, hu]
    rfl
  · split
    · exact .loses rfl hu
    · refine .loses rfl ?_
      rw [Reaction.hangUps, List.filterMap_append, hu]
      have hr := hangUps_raise_detached
        { c with outbox := c.outbox.detach, reader := none, phase := .disconnected } rfl
      rw [show List.filterMap Output.hangUp? _ = [] from hr _]
      rfl

/-- What an event does to the connection of a client that has one. -/
theorem step_bears {c : Client κ} (h : Linked c.outbox c.standing) (hp : c.phase = .connected)
    (e : Event κ) : c.Bears e (c.step e).2 := by
  by_cases he : e.Light
  · exact .holds (step_quiet he c).holds
  cases e with
  | stop => exact stop_bears h hp _
  | begin uri =>
    have hb : c.begin? uri = none := by rw [begin?, hp]
    simp only [step, hb]
    exact .holds (.rest rfl)
  | connected uri =>
    have hw : c.wantsConnection = false := by simp [wantsConnection, hp]
    have hb : c.bind? = none := by rw [bind?, hw]
    simp only [step, hb]
    exact .holds (.rest rfl)
  | connectFailed uri =>
    refine .holds ⟨?_, ?_⟩
    · simp only [step, connectFailed_client, hp]
      rfl
    · simp only [step, connectFailed]
      split <;> rfl
  | frame generation f => exact receive_bears h hp _ generation f
  | lost generation => exact lost_bears h hp generation
  | wake loop =>
    have hn : c.closing = true ∨ c.phase ≠ .reconnecting := .inr (by simp [hp])
    have hw : c.wake = (none, { client := c }) := by rw [wake, if_pos hn]
    simp only [step, hw]
    exact .holds (.rest rfl)
  | attemptFailed loop => exact .holds ⟨rfl, rfl⟩
  | setErrorHandler callback | setConnectHandler callback => exact .holds (.rest rfl)
  | _ => exact absurd trivial he

end Client

namespace Host

variable {h : Host κ}

/-- A connection stays until it is closed. -/
theorem link_foldl_perform (h : Host κ) (os : List (Output κ)) : (os.foldl perform h).link =
    h.link.filter fun link ↦ link.generation ∉ os.filterMap Output.hangUp? := by
  induction os generalizing h with
  | nil => cases hl : h.link <;> simp [hl, Option.filter_some]
  | cons o os ih =>
    rw [List.foldl_cons, ih]
    cases o with
    | hangUp generation =>
      rw [show (Output.hangUp (κ := κ) generation :: os).filterMap Output.hangUp? =
        generation :: os.filterMap Output.hangUp? from rfl]
      cases hl : h.link with
      | none => simp only [perform, hl, Option.filter_none]
      | some link =>
        by_cases hg : link.generation = generation <;>
          simp [perform, hl, hg, Option.filter_some]
    | write | sleep | abort | watch => rfl

theorem handle_link (h : Host κ) (e : Event κ) : (h.handle e).2.2.link =
    h.link.filter fun link ↦ link.generation ∉ (h.client.step e).2.hangUps :=
  link_foldl_perform _ _

theorem handle_client (h : Host κ) (e : Event κ) :
    (h.handle e).2.2.client = (h.client.step e).2.client := (h.handle_performs e).client

/-- The connection of a host is the one that its client stands on, and of what came on it nothing
is searched twice for the end of a line. -/
structure Joined (h : Host κ) : Prop where
  linked : Linked h.client.outbox h.client.standing
  link : ∀ link, h.link = some link → h.client.phase = .connected ∧
    link.generation = h.client.generation ∧ link.parser.Searched

theorem Joined.new (options : ClientOptions) (network : Network) :
    (new (κ := κ) options network).Joined := ⟨rfl, nofun⟩

theorem Joined.handle (hj : h.Joined) (e : Event κ) : (h.handle e).2.2.Joined := by
  refine ⟨?_, ?_⟩
  · rw [handle_client]
    exact Client.linked_turn hj.linked (.event e)
  · intro link hl
    rw [handle_link] at hl
    obtain ⟨hl, hn⟩ := Option.filter_eq_some_iff.1 hl
    obtain ⟨hp, hg, hs⟩ := hj.link link hl
    have hb := Client.step_bears hj.linked hp e
    rw [handle_client]
    cases hb with
    | holds hh =>
      have hst := hh.standing
      simp only [Client.standing, Prod.mk.injEq] at hst
      exact ⟨hst.1.trans hp, hg.trans hst.2.1.symm, hs⟩
    | loses _ hu | stops _ hu => simp [hu, hg] at hn

theorem Joined.connect (hj : h.Joined) (uri : ServerUri) : (h.connect uri).2.Joined := by
  have hn : Host.Joined { h with established := h.established + 1 } := ⟨hj.linked, hj.link⟩
  have hh := hn.handle (.connected uri)
  unfold Host.connect
  dsimp only
  split
  · rename_i ha
    refine ⟨hh.linked, ?_⟩
    intro link hl
    obtain rfl := Option.some.inj hl
    refine ⟨?_, rfl, Parser.Drained.new.toSearched⟩
    have ha : (h.client.step (.connected uri)).1 = .accepted true := ha
    simp only [handle_client]
    simp only [Client.step] at ha ⊢
    cases hb : h.client.bind? with
    | none => simp [hb] at ha
    | some r =>
      unfold Client.bind? at hb
      split at hb <;> cases hb
      rfl
  · exact ⟨hh.linked, hh.link⟩

theorem Joined.wake (hj : h.Joined) (loop : Nat) : (h.wake loop).2.Joined := by
  have hh := hj.handle (.wake loop)
  unfold Host.wake
  dsimp only
  split
  · split
    · exact hh.connect _
    · exact hh.handle _
  · exact hh

theorem Joined.ring (hj : h.Joined) (alarm : Alarm κ) : (h.ring alarm).2.Joined := by
  cases alarm with
  | expire sid token callback => exact hj.handle _
  | wake loop => exact hj.wake loop

theorem Joined.nextTimer? (hj : h.Joined) {deadline : Nat} {t : Timer κ} {h' : Host κ}
    (hn : h.nextTimer? deadline = some (t, h')) : h'.Joined := by
  unfold Host.nextTimer? at hn
  split at hn
  · split at hn <;> cases hn
    exact ⟨hj.linked, hj.link⟩
  · cases hn

theorem Joined.occur (hj : h.Joined) (o : Occurrence κ) : (h.occur o).2.Joined := by
  cases o with
  | event e => exact hj.handle e
  | broken => exact ⟨Client.linked_turn hj.linked .broken, hj.link⟩
  | connect uri => exact hj.connect uri
  | network n => exact ⟨hj.linked, hj.link⟩
  | pass deadline =>
    unfold Host.occur
    dsimp only
    split
    · rename_i t h' hn
      exact (hj.nextTimer? hn).ring t.alarm
    · exact ⟨hj.linked, hj.link⟩

def withParser (h : Host κ) (parser : Parser) : Host κ :=
  { h with link := h.link.map fun link ↦ { link with parser } }

theorem withParser_of_none (hl : h.link = none) (parser : Parser) : h.withParser parser = h := by
  cases h
  cases hl
  rfl

theorem withParser_of_some {link : Link} (hl : h.link = some link) (parser : Parser) :
    h.withParser parser = { h with link := some { link with parser } } := by
  rw [withParser, hl]
  rfl

theorem withParser_withParser (h : Host κ) (p q : Parser) :
    (h.withParser p).withParser q = h.withParser q := by
  unfold withParser
  cases h.link <;> rfl

theorem Joined.withParser (hj : h.Joined) {parser : Parser} (hs : parser.Searched) :
    (h.withParser parser).Joined := by
  refine ⟨hj.linked, ?_⟩
  intro link hl
  obtain ⟨old, hold, rfl⟩ := Option.map_eq_some_iff.1 hl
  obtain ⟨hp, hg, -⟩ := hj.link old hold
  exact ⟨hp, hg, hs⟩

/-- What a host does does not depend on what waits in its parser. -/
theorem perform_withParser (h : Host κ) (parser : Parser) (o : Output κ) :
    (h.withParser parser).perform o = (h.perform o).withParser parser := by
  cases o with
  | hangUp generation =>
    unfold perform withParser
    cases hl : h.link with
    | none => simp [hl]
    | some link => by_cases hg : link.generation = generation <;> simp [hl, hg]
  | write | sleep | abort | watch => rfl

theorem foldl_perform_withParser (h : Host κ) (parser : Parser) (os : List (Output κ)) :
    os.foldl perform (h.withParser parser) = (os.foldl perform h).withParser parser := by
  induction os generalizing h with
  | nil => rfl
  | cons o os ih => rw [List.foldl_cons, List.foldl_cons, perform_withParser, ih]

theorem handle_withParser (h : Host κ) (parser : Parser) (e : Event κ) :
    (h.withParser parser).handle e =
      ((h.handle e).1, (h.handle e).2.1, (h.handle e).2.2.withParser parser) := by
  have hp := foldl_perform_withParser { h with client := (h.client.step e).2.client } parser
    (h.client.step e).2.outputs
  exact congrArg (fun h' ↦ ((h.client.step e).1, (h.client.step e).2.call, h')) hp

end Host

end Herald
