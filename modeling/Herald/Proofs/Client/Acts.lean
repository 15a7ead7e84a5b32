import Herald.Proofs.Client.Move
import Herald.Proofs.Outbox.Target
import Herald.Proofs.Registry.Lookup

namespace Herald

variable {κ : Type}

namespace Command

def sid? : Command → Option Nat
  | .sub _ _ sid | .unsub sid _ => some sid
  | _ => none

def isSub (sid : Nat) : Command → Bool
  | .sub _ _ n => n == sid
  | _ => false

def isFarewell (sid : Nat) : Command → Bool
  | .unsub n max => n == sid && (max.filter (0 < ·)).isNone
  | _ => false

theorem isSub_of_sid? {c : Command} {sid : Nat} (h : c.sid? ≠ some sid) : c.isSub sid = false := by
  cases c with
  | sub _ _ n => simpa [sid?, isSub] using h
  | connect | pub | unsub | ping | pong => rfl

theorem isFarewell_of_sid? {c : Command} {sid : Nat} (h : c.sid? ≠ some sid) :
    c.isFarewell sid = false := by
  cases c with
  | unsub n max =>
    have hn : n ≠ sid := by simpa [sid?] using h
    simp [isFarewell, hn]
  | connect | pub | sub | ping | pong => rfl

end Command

def Parcel.sid? : Parcel Command → Option Nat
  | .command c => c.sid?
  | .ping => none

def Outbox.Op.Aside : Use κ → Prop
  | .send c | .sendIfLive c => c.sid? = none
  | .attach .. => False
  | _ => True

theorem Outbox.Op.Aside.commands {op : Use κ} (h : op.Aside) {c : Command}
    (hc : c ∈ op.commands) : c.sid? = none := by
  cases op with
  | send d | sendIfLive d =>
    obtain rfl := List.mem_singleton.1 hc
    exact h
  | attach => exact h.elim
  | roundTrip | complete | detach | breakWriter | close => cases hc

theorem Outbox.Op.Aside.parcels {op : Use κ} (h : op.Aside) : ∀ p ∈ op.parcels, p.sid? = none := by
  intro p hp
  cases op with
  | send d | sendIfLive d =>
    obtain rfl := List.mem_singleton.1 hp
    exact h
  | roundTrip =>
    obtain rfl := List.mem_singleton.1 hp
    rfl
  | complete | attach | detach | breakWriter | close => cases hp

def Turn.subscribes? : Turn κ → Option (String × Option String × κ)
  | .event (.subscribe subject queue _ callback) =>
    if subject = "" then none else some (subject, queue.filter (· ≠ ""), callback)
  | .event (.request inbox subject _ queue _ callback) =>
    if subject = "" ∨ inbox = "" then none else some (inbox, queue.filter (· ≠ ""), callback)
  | _ => none

/-- Why a subscription is capped: the application asks for it, or the subscription is live and
either has no cap yet or is to end at once. -/
def Turn.Caps (t : Turn κ) (r : Registry κ) (sid max : Nat) : Prop :=
  t = .event (.unsubscribe sid max) ∨ ∃ s, r.find? sid = some s ∧ (max = 0 ∨ s.max = 0)

namespace Client

/-- What a turn does to a registry, one thing after another, with the uses of the outbox that go
with it. -/
inductive Acts (t : Turn κ) : Registry κ → List (Use κ) → Registry κ → Prop
  | nil (r : Registry κ) : Acts t r [] r
  | use {r r' : Registry κ} {op : Use κ} {ops : List (Use κ)} : op.Aside →
    Acts t r ops r' → Acts t r (op :: ops) r'
  | time {r r' : Registry κ} {op : Registry.Op κ} {ops : List (Use κ)} : op.Timing →
    Acts t (r.apply op).2 ops r' → Acts t r ops r'
  | subscribe {r r' : Registry κ} {subject : String} {queue : Option String} {callback : κ}
    {ops : List (Use κ)} : t.subscribes? = some (subject, queue, callback) →
    Acts t (r.insert subject queue callback).2 ops r' →
    Acts t r (.sendIfLive (.sub subject queue (r.lastSid + 1)) :: ops) r'
  | unsubscribe {r r' : Registry κ} {sid max : Nat} {ops : List (Use κ)} : t.Caps r sid max →
    Acts t (r.unsubscribe sid max).2 ops r' →
    Acts t r (.send (.unsub sid (some max)) :: ops) r'

namespace Acts

variable {t : Turn κ} {r r' r'' : Registry κ}

theorem trans {xs ys : List (Use κ)} (h : Acts t r xs r') (h' : Acts t r' ys r'') :
    Acts t r (xs ++ ys) r'' := by
  induction h with
  | nil => exact h'
  | use ha _ ih => exact .use ha (ih h')
  | time ht _ ih => exact .time ht (ih h')
  | subscribe hs _ ih => exact .subscribe hs (ih h')
  | unsubscribe hc _ ih => exact .unsubscribe hc (ih h')

theorem one {op : Use κ} (h : op.Aside) : Acts t r [op] r := .use h (.nil r)

theorem timed (op : Registry.Op κ) (h : op.Timing) : Acts t r [] (r.apply op).2 :=
  .time h (.nil _)

theorem valid {ops : List (Use κ)} (h : Acts t r ops r') (hr : r.Valid) : r'.Valid := by
  induction h with
  | nil => exact hr
  | use _ _ ih => exact ih hr
  | time ht _ ih => exact ih (ht.valid hr)
  | subscribe _ _ ih => exact ih (hr.insert _ _ _)
  | unsubscribe _ _ ih => exact ih (hr.unsubscribe _ _)

theorem continues {ops : List (Use κ)} (h : Acts t r ops r') : r.Continues r' := by
  induction h with
  | nil r => exact .refl r
  | use _ _ ih => exact ih
  | time ht _ ih => exact .trans (.time ht _) ih
  | subscribe _ _ ih => exact .trans (.insert _ _ _ _) ih
  | unsubscribe _ _ ih => exact .trans (.unsubscribe _ _ _) ih

end Acts

theorem Acts.attachment?_eq_none {t : Turn κ} {r r' : Registry κ} {ops : List (Use κ)}
    (h : Acts t r ops r') : ∀ op ∈ ops, op.attachment? = none := by
  induction h with
  | nil => nofun
  | @use _ _ op _ ha _ ih =>
    refine List.forall_mem_cons.2 ⟨?_, ih⟩
    cases op with
    | attach => exact ha.elim
    | send | sendIfLive | roundTrip | complete | detach | breakWriter | close => rfl
  | time _ _ ih => exact ih
  | subscribe _ _ ih | unsubscribe _ _ ih => exact List.forall_mem_cons.2 ⟨rfl, ih⟩

theorem publishUses_acts (t : Turn κ) (r : Registry κ) (subject : String)
    (reply : Option String) (payload : Bytes) :
    Acts t r (publishUses subject reply payload) r := by
  unfold publishUses
  split
  · exact .nil r
  · exact .one rfl

theorem publish_registry (c : Client κ) (subject : String) (reply : Option String)
    (payload : Bytes) : (c.publish subject reply payload).client.registry = c.registry := by
  unfold publish
  split <;> rfl

theorem stopUses_acts (c : Client κ) (t : Turn κ) :
    Acts t c.registry c.stopUses c.stop.client.registry := by
  unfold stopUses stop
  split
  · exact .nil _
  · exact (Acts.timed .cancelAll trivial).trans (.one trivial)

theorem raiseUses_acts (c : Client κ) (e : ClientError) (t : Turn κ) :
    Acts t c.registry c.raiseUses (c.raise e).client.registry := by
  unfold raise
  split
  · rename_i h
    rw [raiseUses, h]
    exact .nil _
  · rename_i h
    have hu : c.raiseUses = c.stopUses := by rw [raiseUses, h]
    rw [hu]
    exact stopUses_acts { c with lastError := some e } t
  · rename_i h
    rw [raiseUses, h]
    exact .nil _

theorem subscribeUses_acts {c : Client κ} (hr : c.registry.Valid) {t : Turn κ} {subject : String}
    {queue : Option String} (max : Option Nat) {callback : κ}
    (h : subject ≠ "" → t.subscribes? = some (subject, queue.filter (· ≠ ""), callback)) :
    Acts t c.registry (c.subscribeUses subject queue max)
      (c.subscribe subject queue max callback).2.client.registry := by
  unfold subscribeUses subscribe
  split
  · exact .nil _
  · rename_i hs
    cases max with
    | none => exact .subscribe (h hs) (.nil _)
    | some max =>
      refine .subscribe (h hs) (.unsubscribe (.inr ?_) (.nil _))
      exact ⟨_, hr.find?_insert_fresh _ _ _, .inr rfl⟩

theorem setTimeout_acts (c : Client κ) (t : Turn κ) (sid afterMs expected : Nat) (auto : Bool)
    (callback : κ) : Acts t c.registry []
      (c.setTimeout sid afterMs expected auto callback).client.registry := by
  have ht : Acts t c.registry [] (c.registry.nextToken sid).2 :=
    Acts.timed (.token sid) trivial
  unfold setTimeout
  split
  · exact .nil _
  · rename_i token registry h
    rw [h] at ht
    exact ht.trans (Acts.timed (.arm sid ⟨expected, auto, token⟩) trivial)

theorem expireUses_acts (c : Client κ) (t : Turn κ) (sid token : Nat) (callback : κ) :
    Acts t c.registry (c.expireUses sid token) (c.expire sid token callback).client.registry := by
  have ht : Registry.Op.Timing (.claim sid token : Registry.Op κ) := trivial
  have ha : Acts t c.registry [] (c.registry.claim sid token).2 := Acts.timed _ ht
  obtain ⟨f, hf⟩ := ht.find? c.registry sid
  have hf : (c.registry.claim sid token).2.find? sid = _ := hf
  unfold expire
  split
  · rename_i registry h
    rw [expireUses, h]
    exact .nil _
  · rename_i auto registry h
    rw [expireUses, h]
    rw [h] at ha hf
    cases auto with
    | false => exact ha
    | true =>
      -- What had a timeout is live.
      obtain ⟨s, hs⟩ : ∃ s, c.registry.find? sid = some s := by
        cases hs : c.registry.find? sid with
        | none => simp [Registry.claim, hs] at h
        | some s => exact ⟨s, rfl⟩
      rw [hs] at hf
      exact ha.trans (.unsubscribe (.inr ⟨_, hf, .inl rfl⟩) (.nil _))

theorem established_registry (c : Client κ) (generation : Nat) :
    (c.established generation).client.registry = c.registry := by
  unfold established
  split <;> rfl

theorem pong_registry (c : Client κ) : c.pong.client.registry = c.registry := by
  rw [pong_eq]
  cases c.outbox.pongs with
  | nil => rfl
  | cons purpose pongs =>
    cases purpose with
    | handshake generation => exact established_registry _ generation
    | user callback => rfl

theorem receiveUses_acts (c : Client κ) (t : Turn κ) {f : Frame} (hf : ∀ m, f ≠ .message m) :
    Acts t c.registry (c.receiveUses f) (c.receive c.generation f).client.registry := by
  unfold receive
  rw [if_neg (not_not_intro rfl)]
  cases f with
  | message m => exact (hf m rfl).elim
  | ok => exact .nil _
  | error text => exact c.raiseUses_acts _ t
  | ping => exact .one rfl
  | pong => exact c.pong_registry ▸ .one trivial
  | info text =>
    simp only
    split <;> exact .nil _
  | unknown line => exact c.raiseUses_acts _ t

theorem lostUses_acts (c : Client κ) (t : Turn κ) (generation : Nat) :
    Acts t c.registry (c.lostUses generation) (c.lost generation).client.registry := by
  unfold lost lostUses
  split
  · exact .nil _
  refine .use trivial ?_
  dsimp only
  by_cases hk : c.closing || c.options.reconnect
  · rw [if_pos hk]
    split
    · exact .nil _
    · rename_i hr
      rw [if_pos (by cases hc : c.closing <;> simp_all)]
      exact .nil _
  · obtain ⟨hc, hr⟩ : c.closing = false ∧ c.options.reconnect = false := by simpa using hk
    rw [if_neg hk, if_neg (by simp [hr]), if_neg (by simp [hc])]
    let d : Client κ :=
      { c with outbox := c.outbox.detach, reader := none, phase := .disconnected }
    exact d.raiseUses_acts (.disconnected d.uriText) t

theorem wakeUses_acts (c : Client κ) (t : Turn κ) :
    Acts t c.registry c.wakeUses c.wake.2.client.registry := by
  unfold wake wakeUses
  split
  · exact .nil _
  · dsimp only
    split
    · let d : Client κ :=
        { c with attempts := c.attempts + 1, phase := .disconnected, loop := none }
      exact d.raiseUses_acts (.disconnected d.uriText) t
    · exact .nil _

inductive Kind (c : Client κ) (t : Turn κ) : Prop
  | binds (u uri : ServerUri) : t = .event (.connected u) → c.uri = some uri → c.bind?.isSome →
    c.turnUses t = [.attach ⟨c.generation + 1, true⟩ (c.handshake uri),
      .roundTrip (.handshake (c.generation + 1))] →
    (c.turn t).client.registry = c.registry → Kind c t
  | hears (m : Message) : t = .event (.frame c.generation (.message m)) →
    c.turnUses t = c.deliverUses m →
    (c.turn t).client.registry = (c.registry.dispatch m).2 → Kind c t
  | acts : (∀ m, t ≠ .event (.frame c.generation (.message m))) →
    Acts t c.registry (c.turnUses t) (c.turn t).client.registry → Kind c t

theorem deliver_registry (c : Client κ) (m : Message) :
    (c.deliver m).client.registry = (c.registry.dispatch m).2 := by
  unfold deliver
  split
  · rename_i h
    rw [h]
  · rename_i h
    rw [h]
    rfl
  · rename_i finished registry h
    rw [h]
    cases finished <;> rfl

theorem connected_kind (c : Client κ) (u : ServerUri) : c.Kind (.event (.connected u)) := by
  cases hb : c.bind? with
  | none =>
    refine .acts (by rintro _ ⟨⟩) ?_
    simp only [turnUses, uses, c.bindUses_eq_nil hb, turn, step, hb]
    exact .nil _
  | some r =>
    have hb' := hb
    unfold bind? at hb
    split at hb
    · rename_i uri hw hu
      refine .binds u uri rfl hu (by rw [hb']; rfl) ?_ ?_
      · simp only [turnUses, uses, bindUses, hw, hu]
      · simp only [turn, step, hb']
        rw [← Option.some.inj hb]
        rfl
    · cases hb

theorem turn_kind {c : Client κ} (hr : c.registry.Valid) (t : Turn κ) : c.Kind t := by
  rcases t with e | _
  · cases e with
    | publish subject reply payload =>
      refine .acts (by rintro _ ⟨⟩) ?_
      simp only [turn, step, publish_registry]
      exact publishUses_acts _ _ subject reply payload
    | publishAcked subject payload callback =>
      refine .acts (by rintro _ ⟨⟩) ?_
      simp only [turnUses, uses, turn, step, publishAcked]
      split
      · exact .nil _
      · have hp := c.publish_registry subject none payload
        have ha := publishUses_acts (.event (.publishAcked subject payload callback)) c.registry
          subject none payload
        exact ha.trans (hp ▸ .one trivial)
    | flush callback => exact .acts (by rintro _ ⟨⟩) (.one trivial)
    | subscribe subject queue max callback =>
      exact .acts (by rintro _ ⟨⟩) (subscribeUses_acts hr max fun hs ↦ if_neg hs)
    | request inbox subject payload queue max callback =>
      refine .acts (by rintro _ ⟨⟩) ?_
      simp only [turnUses, uses, turn, step, request]
      split
      · exact .nil _
      · rename_i hs
        have ha : Acts (.event (.request inbox subject payload queue max callback)) c.registry
            (c.subscribeUses inbox queue max) _ :=
          subscribeUses_acts hr max fun hi ↦ if_neg (not_or.2 ⟨hs, hi⟩)
        have hp := publish_registry (c.subscribe inbox queue max callback).2.client subject
          (some inbox) payload
        exact ha.trans (hp.symm ▸ publishUses_acts _ _ subject (some inbox) payload)
    | unsubscribe sid max => exact .acts (by rintro _ ⟨⟩) (.unsubscribe (.inl rfl) (.nil _))
    | setTimeout sid afterMs expected auto callback =>
      exact .acts (by rintro _ ⟨⟩) (c.setTimeout_acts _ sid afterMs expected auto callback)
    | stop => exact .acts (by rintro _ ⟨⟩) (c.stopUses_acts _)
    | begin uri =>
      refine .acts (by rintro _ ⟨⟩) ?_
      simp only [turnUses, uses, turn, step, begin?]
      split
      · rename_i h
        split at h <;> cases h
        all_goals exact .nil _
      · exact .nil _
    | connected u => exact c.connected_kind u
    | connectFailed uri =>
      refine .acts (by rintro _ ⟨⟩) ?_
      simp only [turnUses, uses, turn, step, connectFailed]
      split <;> split <;> exact .nil _
    | frame generation f =>
      by_cases hg : c.generation = generation
      · subst hg
        have hu : c.turnUses (.event (.frame c.generation f)) = c.receiveUses f :=
          if_neg (not_not_intro rfl)
        by_cases hf : ∃ m, f = .message m
        · obtain ⟨m, rfl⟩ := hf
          refine .hears m rfl hu ?_
          simp only [turn, step, receive, if_neg (not_not_intro rfl), deliver_registry]
        · refine .acts (fun m he ↦ hf ⟨m, by cases he; rfl⟩) ?_
          rw [hu]
          exact c.receiveUses_acts _ fun m he ↦ hf ⟨m, he⟩
      · refine .acts (fun m he ↦ hg (by cases he; rfl)) ?_
        simp only [turnUses, uses, turn, step, receive, if_pos hg]
        exact .nil _
    | lost generation => exact .acts (by rintro _ ⟨⟩) (c.lostUses_acts _ generation)
    | wake loop => exact .acts (by rintro _ ⟨⟩) (c.wakeUses_acts _)
    | expire sid token callback =>
      exact .acts (by rintro _ ⟨⟩) (c.expireUses_acts _ sid token callback)
    | setErrorHandler callback | setConnectHandler callback | attemptFailed loop =>
      exact .acts (by rintro _ ⟨⟩) (.nil _)
  · exact .acts (by rintro _ ⟨⟩) (.one trivial)

theorem turn_valid {c : Client κ} (hr : c.registry.Valid) (t : Turn κ) :
    (c.turn t).client.registry.Valid := by
  cases turn_kind hr t with
  | binds _ _ _ _ _ _ he => exact he ▸ hr
  | hears m _ _ he => exact he ▸ hr.dispatch m
  | acts _ ha => exact ha.valid hr

/-- The uses of the outbox by which a client deals with a message for a live subscription. -/
theorem deliverUses_of_find? {c : Client κ} (hr : c.registry.Valid) {m : Message}
    {s : Subscription κ} (hs : c.registry.find? m.sid = some s) :
    c.deliverUses m = if s.received + 1 = s.max then [.send (.unsub m.sid none)] else [] := by
  have hd : (c.registry.dispatch m).1 =
      .deliver s.callback m (decide (s.received + 1 = s.max)) := by rw [hr.dispatch_eq hs]
  rw [deliverUses, hd]
  by_cases he : s.received + 1 = s.max
  · rw [if_pos he, decide_eq_true he]
  · rw [if_neg he, decide_eq_false he]

theorem deliverUses_of_none {c : Client κ} {m : Message} (hs : c.registry.find? m.sid = none) :
    c.deliverUses m = [] := by
  rw [deliverUses, Registry.Valid.dispatch_of_none hs]

/-- A client tells the server of the end of a subscription that its last message ends. -/
theorem deliverUses_cases {c : Client κ} (hr : c.registry.Valid) (m : Message) :
    c.deliverUses m = [] ∨
      c.deliverUses m = [.send (.unsub m.sid none)] ∧ (c.registry.dispatch m).2.Gone m.sid := by
  cases hs : c.registry.find? m.sid with
  | none => exact .inl (deliverUses_of_none hs)
  | some s =>
    rw [deliverUses_of_find? hr hs]
    by_cases he : s.received + 1 = s.max
    · have hf := hr.find?_dispatch m m.sid
      rw [if_pos rfl, hs, Option.bind_some, if_pos he] at hf
      have hle := Registry.dispatch_lastSid c.registry m ▸ hr.sid_le hs
      exact .inr ⟨if_pos he, hle, hf⟩
    · exact .inl (if_neg he)

theorem turn_continues {c : Client κ} (hr : c.registry.Valid) (t : Turn κ) :
    c.registry.Continues (c.turn t).client.registry := by
  cases turn_kind hr t with
  | binds _ _ _ _ _ _ he => exact he ▸ .refl _
  | hears m _ _ he => exact he ▸ .dispatch hr m
  | acts _ ha => exact ha.continues

theorem turns_valid {c : Client κ} (hr : c.registry.Valid) (ts : List (Turn κ)) :
    (c.turns ts).2.registry.Valid := by
  induction ts generalizing c with
  | nil => exact hr
  | cons t ts ih => exact ih (turn_valid hr t)

theorem turns_continues {c : Client κ} (hr : c.registry.Valid) (ts : List (Turn κ)) :
    c.registry.Continues (c.turns ts).2.registry := by
  induction ts generalizing c with
  | nil => exact .refl _
  | cons t ts ih => exact (turn_continues hr t).trans (ih (turn_valid hr t))

end Client

end Herald
