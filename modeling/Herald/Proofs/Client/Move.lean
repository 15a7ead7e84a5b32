import Herald.Proofs.Along
import Herald.Proofs.Client.Uses

namespace Herald

variable {κ : Type}

/-- Something that happens to a client, be it only that the task that writes for it has ended. The
client finds out about that later. -/
inductive Turn (κ : Type)
  | event (e : Event κ)
  | broken

def Output.Plain : Output κ → Prop
  | .write _ | .watch .. => True
  | .hangUp _ | .sleep _ | .abort _ => False

def Event.Light : Event κ → Prop
  | .publish .. | .publishAcked .. | .flush _ | .subscribe .. | .request .. | .unsubscribe ..
  | .setTimeout .. | .expire .. => True
  | _ => False

namespace Client

def turn (c : Client κ) : Turn κ → Reaction κ
  | .event e => (c.step e).2
  | .broken => { client := { c with outbox := c.outbox.breakWriter } }

def turnUses (c : Client κ) : Turn κ → List (Use κ)
  | .event e => c.uses e
  | .broken => [.breakWriter]

theorem turn_follows (c : Client κ) (t : Turn κ) : (c.turn t).Follows c.outbox (c.turnUses t) := by
  cases t with
  | event e => exact c.step_follows e
  | broken => exact ⟨rfl, rfl⟩

def turns (c : Client κ) : List (Turn κ) → List (Reaction κ) × Client κ
  | [] => ([], c)
  | t :: ts =>
    let (rs, d) := (c.turn t).client.turns ts
    (c.turn t :: rs, d)

theorem turns_snoc (c : Client κ) (ts : List (Turn κ)) (t : Turn κ) : c.turns (ts ++ [t]) =
    ((c.turns ts).1 ++ [(c.turns ts).2.turn t], ((c.turns ts).2.turn t).client) := by
  induction ts generalizing c with
  | nil => rfl
  | cons u ts ih => simp [turns, ih]

theorem turns_append (c : Client κ) (xs ys : List (Turn κ)) :
    (c.turns (xs ++ ys)).2 = ((c.turns xs).2.turns ys).2 := by
  induction xs generalizing c with
  | nil => rfl
  | cons t xs ih => exact ih _

theorem turns_events (c : Client κ) (es : List (Event κ)) : c.turns (es.map .event) = c.run es := by
  induction es generalizing c with
  | nil => rfl
  | cons e es ih =>
    simp only [List.map_cons, turns, run, ih]
    rfl

def log (c : Client κ) (ts : List (Turn κ)) : List (Sent Command) :=
  (c.turns ts).1.flatMap Reaction.written

theorem log_snoc (c : Client κ) (ts : List (Turn κ)) (t : Turn κ) :
    c.log (ts ++ [t]) = c.log ts ++ ((c.turns ts).2.turn t).written := by
  simp [log, turns_snoc]

theorem log_append (c : Client κ) (xs ys : List (Turn κ)) :
    c.log (xs ++ ys) = c.log xs ++ (c.turns xs).2.log ys := by
  induction xs generalizing c with
  | nil => rfl
  | cons t xs ih => exact (congrArg (_ ++ ·) (ih _)).trans (List.append_assoc _ _ _).symm

theorem turns_foldl (c : Client κ) (ts : List (Turn κ)) :
    (c.turns ts).2 = ts.foldl (fun c t ↦ (c.turn t).client) c := by
  induction ts generalizing c with
  | nil => rfl
  | cons t ts ih => exact ih _

abbrev Along (P : Client κ → Turn κ → Prop) (c : Client κ) (ts : List (Turn κ)) : Prop :=
  Herald.Along (fun c t ↦ (c.turn t).client) P c ts

theorem along_append {P : Client κ → Turn κ → Prop} {c : Client κ} {xs ys : List (Turn κ)} :
    Along P c (xs ++ ys) ↔ Along P c xs ∧ Along P (c.turns xs).2 ys := by
  rw [turns_foldl]
  exact Herald.Along.append

def standing (c : Client κ) : Phase × Nat × Bool := (c.phase, c.generation, c.closing)

def stopped (c : Client κ) : Phase × Nat × Bool := (.closed, c.generation + 1, true)

end Client

/-- All that a turn can do: with these uses of the outbox the client comes to stand there. -/
inductive Client.Move (c : Client κ) (t : Turn κ) : List (Use κ) → Phase × Nat × Bool → Prop
  | stay {ops : List (Use κ)} : (∀ op ∈ ops, op.Plain) → Move c t ops c.standing
  | complete : t = .event (.frame c.generation .pong) → Move c t [.complete] c.standing
  | snap : t = .broken → Move c t [.breakWriter] c.standing
  | wander {phase : Phase} {closing : Bool} : c.phase ≠ .connected → phase ≠ .connected →
    (closing → c.closing) → Move c t [] (phase, c.generation, closing)
  | connect {preamble : List Command} : c.phase ≠ .connected →
    Move c t [.attach ⟨c.generation + 1, true⟩ preamble, .roundTrip (.handshake (c.generation + 1))]
      (.connected, c.generation + 1, c.closing)
  | lose {phase : Phase} : c.phase = .connected → phase ≠ .connected →
    t = .event (.lost c.generation) → Move c t [.detach] (phase, c.generation, c.closing)
  | stop : c.closing = false → Move c t [.close] c.stopped
  | fall : c.phase = .connected → c.closing = false → t = .event (.lost c.generation) →
    Move c t [.detach, .close] c.stopped

namespace Client

theorem stop_cases (c : Client κ) :
    c.stopUses = [] ∧ c.stop.client.standing = c.standing ∨
      c.closing = false ∧ c.stopUses = [.close] ∧ c.stop.client.standing = c.stopped := by
  unfold stop stopUses
  split
  · exact .inl ⟨rfl, rfl⟩
  · rename_i h
    exact .inr ⟨by simpa using h, rfl, rfl⟩

theorem raise_cases (c : Client κ) (e : ClientError) :
    c.raiseUses = [] ∧ (c.raise e).client.standing = c.standing ∨
      c.closing = false ∧ c.raiseUses = [.close] ∧ (c.raise e).client.standing = c.stopped := by
  unfold raise
  split
  · rename_i h
    rw [raiseUses, h]
    exact .inl ⟨rfl, rfl⟩
  · rename_i h
    have hu : c.raiseUses = c.stopUses := by rw [raiseUses, h]
    rw [hu]
    exact stop_cases { c with lastError := some e }
  · rename_i h
    rw [raiseUses, h]
    exact .inl ⟨rfl, rfl⟩

theorem stop_moves (c : Client κ) (t : Turn κ) : c.Move t c.stopUses c.stop.client.standing := by
  rcases c.stop_cases with ⟨hu, hs⟩ | ⟨hc, hu, hs⟩ <;> rw [hu, hs]
  · exact .stay (by simp)
  · exact .stop hc

theorem raise_moves (c : Client κ) (e : ClientError) (t : Turn κ) :
    c.Move t c.raiseUses (c.raise e).client.standing := by
  rcases c.raise_cases e with ⟨hu, hs⟩ | ⟨hc, hu, hs⟩ <;> rw [hu, hs]
  · exact .stay (by simp)
  · exact .stop hc

theorem subscribeUses_plain (c : Client κ) (subject : String) (queue : Option String)
    (max : Option Nat) : ∀ op ∈ c.subscribeUses subject queue max, op.Plain := by
  unfold subscribeUses
  split
  · simp
  · cases max <;> simp [Outbox.Op.Plain]

theorem publishUses_plain (subject : String) (reply : Option String) (payload : Bytes) :
    ∀ op ∈ publishUses (κ := κ) subject reply payload, op.Plain := by
  unfold publishUses
  split <;> simp [Outbox.Op.Plain]

def Spares (c d : Client κ) : Prop := ∃ o r, d = { c with outbox := o, registry := r }

theorem Spares.refl (c : Client κ) : c.Spares c := ⟨c.outbox, c.registry, rfl⟩

theorem Spares.trans {c d e : Client κ} (h : c.Spares d) (h' : d.Spares e) : c.Spares e := by
  obtain ⟨_, _, rfl⟩ := h
  obtain ⟨o, r, rfl⟩ := h'
  exact ⟨o, r, rfl⟩

theorem Spares.standing {c d : Client κ} (h : c.Spares d) : d.standing = c.standing := by
  obtain ⟨o, r, rfl⟩ := h
  rfl

structure Quiet (c : Client κ) (r : Reaction κ) : Prop where
  spares : c.Spares r.client
  plain : ∀ o ∈ r.outputs, o.Plain

theorem Quiet.rest {c d : Client κ} (h : c.Spares d) : c.Quiet { client := d } :=
  ⟨h, List.forall_mem_nil _⟩

theorem Quiet.standing {c : Client κ} {r : Reaction κ} (h : c.Quiet r) :
    r.client.standing = c.standing := h.spares.standing

theorem Quiet.andThen {c : Client κ} {r : Reaction κ} {f : Client κ → Reaction κ} (h : c.Quiet r)
    (h' : r.client.Quiet (f r.client)) : c.Quiet (r.andThen f) :=
  ⟨h.spares.trans h'.spares, List.forall_mem_append.2 ⟨h.plain, h'.plain⟩⟩

/-- Neither a callback nor the registry before it makes a reaction less quiet. -/
theorem Quiet.of_registry {c : Client κ} {registry : Registry κ} {r : Reaction κ}
    (h : Quiet { c with registry } r) (call : Option (Call κ)) : c.Quiet { r with call } :=
  ⟨Spares.trans ⟨c.outbox, registry, rfl⟩ h.spares, h.plain⟩

theorem writes_plain (sents : List (Sent Command)) :
    ∀ o ∈ sents.map (Output.write (κ := κ)), o.Plain :=
  List.forall_mem_map.2 fun _ _ ↦ trivial

theorem withOutbox_quiet (c : Client κ)
    (r : List (Sent Command) × Outbox Command (RoundTrip κ)) : c.Quiet (c.withOutbox r) :=
  ⟨⟨r.2, c.registry, rfl⟩, writes_plain r.1⟩

theorem publish_quiet (c : Client κ) (subject : String) (reply : Option String)
    (payload : Bytes) : c.Quiet (c.publish subject reply payload) := by
  unfold publish
  split
  · exact .rest (.refl c)
  · exact c.withOutbox_quiet _

theorem publishAcked_quiet (c : Client κ) (subject : String) (payload : Bytes) (callback : κ) :
    c.Quiet (c.publishAcked subject payload callback) := by
  unfold publishAcked
  split
  · exact .rest (.refl c)
  · exact (c.publish_quiet subject none payload).andThen (withOutbox_quiet _ _)

theorem unsubscribe_quiet (c : Client κ) (sid max : Nat) : c.Quiet (c.unsubscribe sid max) :=
  (c.withOutbox_quiet _).andThen (.rest ⟨_, _, rfl⟩)

theorem subscribe_quiet (c : Client κ) (subject : String) (queue : Option String)
    (max : Option Nat) (callback : κ) : c.Quiet (c.subscribe subject queue max callback).2 := by
  unfold subscribe
  split
  · exact .rest (.refl c)
  · dsimp only
    have ha (r : Registry κ) (sents : List (Sent Command)) :
        c.Quiet { outputs := sents.map .write, client := { c with registry := r } } :=
      ⟨⟨c.outbox, r, rfl⟩, writes_plain sents⟩
    cases max with
    | none => exact ha _ _
    | some max => exact (ha _ _).andThen (unsubscribe_quiet _ _ _)

theorem request_quiet (c : Client κ) (inbox subject : String) (payload : Bytes)
    (queue : Option String) (max : Option Nat) (callback : κ) :
    c.Quiet (c.request inbox subject payload queue max callback).2 := by
  unfold request
  split
  · exact .rest (.refl c)
  · exact (c.subscribe_quiet inbox queue max callback).andThen
      (f := (·.publish subject (some inbox) payload)) (publish_quiet _ _ _ _)

theorem setTimeout_quiet (c : Client κ) (sid afterMs expected : Nat) (auto : Bool)
    (callback : κ) : c.Quiet (c.setTimeout sid afterMs expected auto callback) := by
  unfold setTimeout
  split
  · exact .rest (.refl c)
  · exact ⟨⟨c.outbox, _, rfl⟩, List.forall_mem_singleton.2 trivial⟩

theorem expire_quiet (c : Client κ) (sid token : Nat) (callback : κ) :
    c.Quiet (c.expire sid token callback) := by
  unfold expire
  split
  · exact .rest (.refl c)
  · rename_i auto registry _
    cases auto with
    | true => exact (unsubscribe_quiet { c with registry } sid 0).of_registry _
    | false => exact (Quiet.rest (.refl { c with registry })).of_registry _

theorem deliver_quiet (c : Client κ) (m : Message) : c.Quiet (c.deliver m) := by
  unfold deliver
  split
  · exact .rest ⟨c.outbox, _, rfl⟩
  · exact (withOutbox_quiet _ _).of_registry none
  · rename_i finished registry _
    cases finished with
    | true => exact (withOutbox_quiet { c with registry } _).of_registry _
    | false => exact (Quiet.rest (.refl { c with registry })).of_registry _

theorem pong_quiet (c : Client κ) : c.Quiet c.pong := by
  rw [pong_eq]
  rcases c.outbox.pongs with _ | ⟨generation | callback, pongs⟩
  · exact .rest (.refl c)
  · simp only [answer, established]
    split <;> exact ⟨⟨_, c.registry, rfl⟩, List.forall_mem_nil _⟩
  · exact ⟨⟨_, c.registry, rfl⟩, List.forall_mem_nil _⟩

theorem step_quiet {e : Event κ} (he : e.Light) (c : Client κ) : c.Quiet (c.step e).2 := by
  cases e with
  | publish subject reply payload => exact c.publish_quiet subject reply payload
  | publishAcked subject payload callback => exact c.publishAcked_quiet subject payload callback
  | flush callback => exact c.withOutbox_quiet _
  | subscribe subject queue max callback => exact c.subscribe_quiet subject queue max callback
  | request inbox subject payload queue max callback =>
    exact c.request_quiet inbox subject payload queue max callback
  | unsubscribe sid max => exact c.unsubscribe_quiet sid max
  | setTimeout sid afterMs expected auto callback =>
    exact c.setTimeout_quiet sid afterMs expected auto callback
  | expire sid token callback => exact c.expire_quiet sid token callback
  | _ => exact he.elim

theorem deliver_moves (c : Client κ) (m : Message) (t : Turn κ) :
    c.Move t (c.deliverUses m) (c.deliver m).client.standing := by
  rw [(c.deliver_quiet m).standing]
  refine .stay ?_
  unfold deliverUses
  split <;> simp [Outbox.Op.Plain]

theorem receive_moves (c : Client κ) (generation : Nat) (f : Frame) :
    c.Move (.event (.frame generation f))
      (if c.generation ≠ generation then [] else c.receiveUses f)
      (c.receive generation f).client.standing := by
  unfold receive
  split
  · exact .stay (by simp)
  · rename_i hg
    obtain rfl : c.generation = generation := by simpa using hg
    cases f with
    | message m => exact c.deliver_moves m _
    | ok => exact .stay (by simp [receiveUses])
    | error text => exact c.raise_moves _ _
    | ping => exact .stay (by simp [receiveUses, Outbox.Op.Plain])
    | pong => exact c.pong_quiet.standing ▸ .complete rfl
    | info text =>
      simp only
      split <;> exact .stay (by simp [receiveUses])
    | unknown line => exact c.raise_moves _ _

theorem lost_moves (c : Client κ) (generation : Nat) :
    c.Move (.event (.lost generation)) (c.lostUses generation)
      (c.lost generation).client.standing := by
  unfold lost lostUses
  split
  · exact .stay (by simp)
  rename_i h
  obtain ⟨hg, hp⟩ := not_or.1 h
  obtain rfl : c.generation = generation := Decidable.not_not.1 hg
  have hp : c.phase = .connected := Decidable.not_not.1 hp
  dsimp only
  split
  · rename_i hk
    split
    · exact .lose hp (by simp) rfl
    · rename_i hn
      rw [if_pos (by simp at hk hn; by_cases hc : c.closing <;> simp_all)]
      exact .lose hp (by simp) rfl
  · rename_i hk
    obtain ⟨hc, hr⟩ : c.closing = false ∧ c.options.reconnect = false := by simpa using hk
    rw [if_neg (by simp [hr]), if_neg (by simp [hc])]
    let d : Client κ :=
      { c with outbox := c.outbox.detach, reader := none, phase := .disconnected }
    rcases d.raise_cases (.disconnected d.uriText) with ⟨hu, hs⟩ | ⟨-, hu, hs⟩
    · have hu : c.raiseUses = [] := hu
      rw [hu]
      exact hs ▸ .lose hp (by simp [d]) rfl
    · have hu : c.raiseUses = [.close] := hu
      rw [hu]
      exact hs ▸ .fall hp hc rfl

theorem wake_moves (c : Client κ) (loop : Nat) :
    c.Move (.event (.wake loop)) c.wakeUses c.wake.2.client.standing := by
  unfold wake wakeUses
  split
  · exact .stay (by simp)
  rename_i h
  have hp : c.phase = .reconnecting := Decidable.not_not.1 (not_or.1 h).2
  dsimp only
  split
  · let d : Client κ := { c with attempts := c.attempts + 1, phase := .disconnected, loop := none }
    rcases d.raise_cases (.disconnected d.uriText) with ⟨hu, hs⟩ | ⟨hc, hu, hs⟩
    · have hu : c.raiseUses = [] := hu
      rw [hu]
      exact hs ▸ .wander (by simp [hp]) (by simp [d]) id
    · have hu : c.raiseUses = [.close] := hu
      rw [hu]
      exact hs ▸ .stop hc
  · exact .stay (by simp)

theorem bind?_moves (c : Client κ) {r : Reaction κ} (h : c.bind? = some r) (t : Turn κ) :
    c.Move t c.bindUses r.client.standing := by
  unfold bind? at h
  split at h
  · rename_i uri hw hu
    obtain rfl := Option.some.inj h
    rw [bindUses, hw, hu]
    refine .connect fun hp ↦ ?_
    simp [wantsConnection, hp] at hw
  · cases h

theorem begin_moves (c : Client κ) (uri : ServerUri) (t : Turn κ) :
    c.Move t [] (c.step (.begin uri)).2.client.standing := by
  cases h : c.begin? uri with
  | none =>
    simp only [step, h]
    exact .stay (by simp)
  | some d =>
    simp only [step, h]
    unfold begin? at h
    have hw : c.phase ≠ .connected → c.Move t [] (.connecting, c.generation, false) := fun hp ↦
      .wander hp (by simp) (by simp)
    split at h <;> cases h
    all_goals
      rename_i hp
      exact hw (by simp [hp])

theorem connectFailed_client (c : Client κ) (uri : ServerUri) : (c.connectFailed uri).client =
    if c.phase = .connecting then { c with phase := .disconnected } else c := by
  unfold connectFailed
  dsimp only
  split <;> rfl

theorem connectFailed_moves (c : Client κ) (uri : ServerUri) (t : Turn κ) :
    c.Move t [] (c.connectFailed uri).client.standing := by
  rw [connectFailed_client]
  split
  · rename_i hp
    exact .wander (by simp [hp]) (by simp) id
  · exact .stay (by simp)

theorem uses_plain {e : Event κ} (he : e.Light) (c : Client κ) : ∀ op ∈ c.uses e, op.Plain := by
  cases e with
  | publish subject reply payload => exact publishUses_plain subject reply payload
  | publishAcked subject payload callback =>
    simp only [uses]
    split
    · exact List.forall_mem_nil _
    · exact List.forall_mem_append.2
        ⟨publishUses_plain subject none payload, List.forall_mem_singleton.2 trivial⟩
  | flush callback => exact List.forall_mem_singleton.2 trivial
  | subscribe subject queue max callback => exact c.subscribeUses_plain subject queue max
  | request inbox subject payload queue max callback =>
    simp only [uses]
    split
    · exact List.forall_mem_nil _
    · exact List.forall_mem_append.2 ⟨c.subscribeUses_plain inbox queue max,
        publishUses_plain subject (some inbox) payload⟩
  | unsubscribe sid max => exact List.forall_mem_singleton.2 trivial
  | setTimeout sid afterMs expected auto callback => exact List.forall_mem_nil _
  | expire sid token callback =>
    simp only [uses, expireUses]
    split
    · exact List.forall_mem_singleton.2 trivial
    · exact List.forall_mem_nil _
  | _ => exact he.elim

/-- A turn comes to one of the moves, and leaves the outbox to the uses of that move. -/
theorem turn_moves (c : Client κ) (t : Turn κ) :
    c.Move t (c.turnUses t) (c.turn t).client.standing := by
  rcases t with e | _
  · by_cases he : e.Light
    · exact (step_quiet he c).standing ▸ .stay (uses_plain he c)
    cases e with
    | stop => exact c.stop_moves _
    | begin uri => exact c.begin_moves uri _
    | connected uri =>
      simp only [turnUses, uses, turn, step]
      split
      · rename_i r h
        exact c.bind?_moves h _
      · rename_i h
        rw [c.bindUses_eq_nil h]
        exact .stay (by simp)
    | connectFailed uri => exact c.connectFailed_moves uri _
    | frame generation f => exact c.receive_moves generation f
    | lost generation => exact c.lost_moves generation
    | wake loop => exact c.wake_moves loop
    | setErrorHandler callback | setConnectHandler callback | attemptFailed loop =>
      exact .stay (by simp [turnUses, uses])
    | _ => exact absurd trivial he
  · exact .snap rfl

theorem Move.generation_le {c : Client κ} {t : Turn κ} {ops : List (Use κ)}
    {s : Phase × Nat × Bool} (h : c.Move t ops s) : c.generation ≤ s.2.1 := by
  cases h with
  | stay | complete | snap | wander | lose => exact Nat.le_refl _
  | connect | stop | fall => exact Nat.le_succ _

theorem generation_le_turn (c : Client κ) (t : Turn κ) :
    c.generation ≤ (c.turn t).client.generation := (c.turn_moves t).generation_le

theorem complete_mem_uses {c : Client κ} {t : Turn κ} (h : .complete ∈ c.turnUses t) :
    t = .event (.frame c.generation .pong) := by
  have hm := c.turn_moves t
  generalize c.turnUses t = ops at hm h
  generalize (c.turn t).client.standing = s at hm
  cases hm with
  | stay hp => exact (hp _ h).elim
  | complete ht => exact ht
  | snap | wander | connect | lose | stop | fall => simp at h

def Goes (c : Client κ) (t : Turn κ) : Prop := (c.turn t).client.closing → c.closing

instance (c : Client κ) (t : Turn κ) : Decidable (c.Goes t) :=
  inferInstanceAs (Decidable (_ → _))

theorem Goes.not_mem_close {c : Client κ} {t : Turn κ} (h : c.Goes t) : .close ∉ c.turnUses t := by
  have hm := c.turn_moves t
  have h : (c.turn t).client.standing.2.2 → c.closing := h
  generalize c.turnUses t = ops at hm ⊢
  generalize (c.turn t).client.standing = s at hm h
  intro hc
  cases hm with
  | stay hp => exact hp _ hc
  | stop ho | fall _ ho => simp [ho, stopped] at h
  | _ => simp at hc

end Client

def ServerUri.localhost : ServerUri := ⟨"nats", "localhost", defaultPort, none, none⟩

end Herald
