import Herald.Proofs.Client.Acts

namespace Herald

variable {κ : Type}

namespace Client

def stopOperations (c : Client κ) : List (Registry.Op κ) := if c.closing then [] else [.cancelAll]

def raiseOperations (c : Client κ) : List (Registry.Op κ) :=
  match c.onError with
  | .fallback => c.stopOperations
  | _ => []

def subscribeOperations (c : Client κ) (subject : String) (queue : Option String)
    (max : Option Nat) (callback : κ) : List (Registry.Op κ) :=
  if subject = "" then []
  else .insert subject (queue.filter (· ≠ "")) callback ::
    (max.map fun max ↦ .unsubscribe (c.registry.lastSid + 1) max).toList

def setTimeoutOperations (c : Client κ) (sid expected : Nat) (auto : Bool) :
    List (Registry.Op κ) :=
  .token sid :: ((c.registry.nextToken sid).1.map fun token ↦
    .arm sid ⟨expected, auto, token⟩).toList

def receiveOperations (c : Client κ) : Frame → List (Registry.Op κ)
  | .message m => [.dispatch m]
  | .error _ | .unknown _ => c.raiseOperations
  | .ok | .ping | .pong | .info _ => []

def lostOperations (c : Client κ) (generation : Nat) : List (Registry.Op κ) :=
  if c.generation ≠ generation ∨ c.phase ≠ .connected then []
  else if c.closing || c.options.reconnect then [] else c.raiseOperations

def wakeOperations (c : Client κ) : List (Registry.Op κ) :=
  if c.closing ∨ c.phase ≠ .reconnecting then []
  else if c.options.maxReconnectAttempts < c.attempts + 1 then c.raiseOperations
  else []

def expireOperations (c : Client κ) (sid token : Nat) : List (Registry.Op κ) :=
  .claim sid token ::
    if (c.registry.claim sid token).1 = some true then [.unsubscribe sid 0] else []

def operations (c : Client κ) : Turn κ → List (Registry.Op κ)
  | .event (.subscribe subject queue max callback) =>
    c.subscribeOperations subject queue max callback
  | .event (.request inbox subject _ queue max callback) =>
    if subject = "" then [] else c.subscribeOperations inbox queue max callback
  | .event (.unsubscribe sid max) => [.unsubscribe sid max]
  | .event (.setTimeout sid _ expected auto _) => c.setTimeoutOperations sid expected auto
  | .event .stop => c.stopOperations
  | .event (.frame generation f) => if c.generation ≠ generation then [] else c.receiveOperations f
  | .event (.lost generation) => c.lostOperations generation
  | .event (.wake _) => c.wakeOperations
  | .event (.expire sid token _) => c.expireOperations sid token
  | .event (.setErrorHandler _) | .event (.setConnectHandler _) | .event (.publish ..)
  | .event (.publishAcked ..) | .event (.flush _) | .event (.begin _) | .event (.connected _)
  | .event (.connectFailed _) | .event (.attemptFailed _) | .broken => []

theorem stop_registry (c : Client κ) :
    c.stop.client.registry = (c.registry.run c.stopOperations).2 := by
  unfold stop stopOperations
  split <;> rfl

theorem raise_registry (c : Client κ) (e : ClientError) :
    (c.raise e).client.registry = (c.registry.run c.raiseOperations).2 := by
  unfold raise
  split
  · rename_i h
    rw [raiseOperations, h]
    rfl
  · rename_i h
    have ho : c.raiseOperations = c.stopOperations := by rw [raiseOperations, h]
    rw [ho]
    exact stop_registry { c with lastError := some e }
  · rename_i h
    rw [raiseOperations, h]
    rfl

theorem subscribe_registry (c : Client κ) (subject : String) (queue : Option String)
    (max : Option Nat) (callback : κ) :
    (c.subscribe subject queue max callback).2.client.registry =
      (c.registry.run (c.subscribeOperations subject queue max callback)).2 := by
  unfold subscribe subscribeOperations
  split
  · rfl
  · cases max <;> rfl

theorem setTimeout_registry (c : Client κ) (sid afterMs expected : Nat) (auto : Bool)
    (callback : κ) : (c.setTimeout sid afterMs expected auto callback).client.registry =
      (c.registry.run (c.setTimeoutOperations sid expected auto)).2 := by
  unfold setTimeout setTimeoutOperations
  cases h : c.registry.nextToken sid with
  | mk token registry =>
    have hr : (c.registry.apply (.token sid)).2 = registry := congrArg (·.2) h
    cases token with
    | none =>
      have hn : c.registry = registry := by
        unfold Registry.nextToken at h
        split at h
        · cases h
        · exact congrArg (·.2) h
      exact hn.trans hr.symm
    | some token =>
      show registry.arm sid _ = ((c.registry.apply (.token sid)).2.apply (.arm sid _)).2
      rw [hr]
      rfl

theorem bind?_registry {c : Client κ} {r : Reaction κ} (h : c.bind? = some r) :
    r.client.registry = c.registry := by
  unfold bind? at h
  split at h
  · obtain rfl := Option.some.inj h
    rfl
  · cases h

theorem receive_registry (c : Client κ) (generation : Nat) (f : Frame) :
    (c.receive generation f).client.registry =
      (c.registry.run (if c.generation ≠ generation then [] else c.receiveOperations f)).2 := by
  unfold receive
  split
  · rfl
  cases f with
  | message m => exact c.deliver_registry m
  | ok | ping => rfl
  | error text | unknown line => exact c.raise_registry _
  | pong => exact c.pong_registry
  | info text =>
    simp only
    split <;> rfl

theorem lost_registry (c : Client κ) (generation : Nat) :
    (c.lost generation).client.registry = (c.registry.run (c.lostOperations generation)).2 := by
  unfold lost lostOperations
  split
  · rfl
  dsimp only
  by_cases hk : c.closing || c.options.reconnect
  · rw [if_pos hk]
    split
    · rfl
    · rename_i hr
      rw [if_pos (by cases hc : c.closing <;> simp_all)]
      rfl
  · obtain ⟨hc, hr⟩ : c.closing = false ∧ c.options.reconnect = false := by simpa using hk
    rw [if_neg hk, if_neg (by simp [hr]), if_neg (by simp [hc])]
    let d : Client κ :=
      { c with outbox := c.outbox.detach, reader := none, phase := .disconnected }
    exact d.raise_registry (.disconnected d.uriText)

theorem wake_registry (c : Client κ) :
    c.wake.2.client.registry = (c.registry.run c.wakeOperations).2 := by
  unfold wake wakeOperations
  split
  · rfl
  dsimp only
  split
  · let d : Client κ := { c with attempts := c.attempts + 1, phase := .disconnected, loop := none }
    exact d.raise_registry (.disconnected d.uriText)
  · rfl

theorem expire_registry (c : Client κ) (sid token : Nat) (callback : κ) :
    (c.expire sid token callback).client.registry =
      (c.registry.run (c.expireOperations sid token)).2 := by
  have hr : (c.registry.run (c.expireOperations sid token)).2 =
      ((c.registry.claim sid token).2.run
        (if (c.registry.claim sid token).1 = some true then [.unsubscribe sid 0] else [])).2 := rfl
  rw [hr]
  unfold expire
  split
  · rename_i registry h
    have hn : registry = c.registry := by
      unfold Registry.claim at h
      split at h
      · exact (congrArg (·.2) h).symm
      · split at h
        · cases h
        · exact (congrArg (·.2) h).symm
    rw [h, if_neg nofun, hn]
    rfl
  · rename_i auto registry h
    rw [h]
    cases auto <;> rfl

/-- A client leaves its registry to its operations. -/
theorem turn_registry (c : Client κ) (t : Turn κ) :
    (c.turn t).client.registry = (c.registry.run (c.operations t)).2 := by
  rcases t with e | _
  · cases e with
    | publish subject reply payload => exact c.publish_registry subject reply payload
    | publishAcked subject payload callback =>
      simp only [turn, step, publishAcked]
      split
      · rfl
      · exact c.publish_registry subject none payload
    | subscribe subject queue max callback => exact c.subscribe_registry subject queue max callback
    | request inbox subject payload queue max callback =>
      simp only [turn, step, request, operations]
      split
      · rfl
      · exact (publish_registry _ subject (some inbox) payload).trans
          (c.subscribe_registry inbox queue max callback)
    | setTimeout sid afterMs expected auto callback =>
      exact c.setTimeout_registry sid afterMs expected auto callback
    | stop => exact c.stop_registry
    | begin uri =>
      simp only [turn, step, begin?]
      split
      · rename_i h
        split at h <;> cases h
        all_goals rfl
      · rfl
    | connected uri =>
      simp only [turn, step]
      split
      · rename_i h
        exact bind?_registry h
      · rfl
    | connectFailed uri =>
      simp only [turn, step, connectFailed]
      split <;> split <;> rfl
    | frame generation f => exact c.receive_registry generation f
    | lost generation => exact c.lost_registry generation
    | wake loop => exact c.wake_registry
    | expire sid token callback => exact c.expire_registry sid token callback
    | setErrorHandler callback | setConnectHandler callback | flush callback
    | unsubscribe sid max | attemptFailed loop => rfl
  · rfl

/-- What a client can ask of its registry at a turn, unless it is stopped. -/
inductive Asks (c : Client κ) (t : Turn κ) : List (Registry.Op κ) → Prop
  | nothing : Asks c t []
  | subscribe {subject : String} {queue : Option String} {callback : κ} (max : Option Nat) :
    t.subscribes? = some (subject, queue, callback) →
    Asks c t (.insert subject queue callback ::
      (max.map fun max ↦ .unsubscribe (c.registry.lastSid + 1) max).toList)
  | unsubscribe {sid max : Nat} : t = .event (.unsubscribe sid max) →
    Asks c t [.unsubscribe sid max]
  | setTimeout {sid afterMs expected : Nat} {auto : Bool} {callback : κ} :
    t = .event (.setTimeout sid afterMs expected auto callback) →
    Asks c t (c.setTimeoutOperations sid expected auto)
  | hear {m : Message} : t = .event (.frame c.generation (.message m)) → Asks c t [.dispatch m]
  | expire {sid token : Nat} {callback : κ} : t = .event (.expire sid token callback) →
    Asks c t (c.expireOperations sid token)

theorem Spares.goes {c : Client κ} {t : Turn κ} (h : c.Spares (c.turn t).client) : c.Goes t := by
  intro hc
  obtain ⟨o, r, he⟩ := h
  rw [he] at hc
  exact hc

theorem raise_asks (c : Client κ) (e : ClientError) : c.raiseOperations = [.cancelAll] ∨
    c.raiseOperations = [] ∧ ((c.raise e).client.closing → c.closing) := by
  cases ho : c.onError with
  | unset | user callback =>
    rw [raiseOperations, raise, ho]
    exact .inr ⟨rfl, id⟩
  | fallback =>
    rw [raiseOperations, raise, ho]
    cases hc : c.closing with
    | true => exact .inr ⟨if_pos hc, fun _ ↦ rfl⟩
    | false => exact .inl (if_neg (by simp [hc]))

theorem receive_asks (c : Client κ) (generation : Nat) (f : Frame) :
    let t : Turn κ := .event (.frame generation f)
    c.operations t = [.cancelAll] ∨
      ((c.receive generation f).client.closing → c.closing) ∧ c.Asks t (c.operations t) := by
  intro t
  simp only [t, operations, receive]
  by_cases hg : c.generation = generation
  · subst hg
    simp only [ne_eq, not_true_eq_false, if_false]
    have hraise (e : ClientError) : c.raiseOperations = [.cancelAll] ∨
        ((c.raise e).client.closing → c.closing) ∧ c.Asks t c.raiseOperations := by
      rcases c.raise_asks e with ho | ⟨ho, hc⟩
      · exact .inl ho
      · exact .inr ⟨hc, ho.symm ▸ .nothing⟩
    cases f with
    | message m =>
      obtain ⟨o, r, hd⟩ := (c.deliver_quiet m).spares
      exact .inr ⟨by rw [hd]; exact id, .hear rfl⟩
    | ok | ping => exact .inr ⟨id, .nothing⟩
    | error text | unknown line => exact hraise _
    | pong =>
      obtain ⟨o, r, hd⟩ := c.pong_quiet.spares
      exact .inr ⟨by rw [hd]; exact id, .nothing⟩
    | info text =>
      refine .inr ⟨?_, .nothing⟩
      simp only
      split <;> exact id
  · simp only [ne_eq, hg, not_false_eq_true, if_true]
    exact .inr ⟨id, .nothing⟩

theorem lost_asks (c : Client κ) (generation : Nat) :
    c.lostOperations generation = [.cancelAll] ∨
      c.lostOperations generation = [] ∧ ((c.lost generation).client.closing → c.closing) := by
  unfold lost lostOperations
  split
  · exact .inr ⟨rfl, id⟩
  dsimp only
  by_cases hk : c.closing || c.options.reconnect
  · rw [if_pos hk]
    refine .inr ⟨rfl, ?_⟩
    split
    · exact id
    · rename_i hr
      rw [if_pos (by cases hc : c.closing <;> simp_all)]
      exact id
  · obtain ⟨hc, hr⟩ : c.closing = false ∧ c.options.reconnect = false := by simpa using hk
    rw [if_neg hk, if_neg (by simp [hr]), if_neg (by simp [hc])]
    let d : Client κ :=
      { c with outbox := c.outbox.detach, reader := none, phase := .disconnected }
    exact d.raise_asks (.disconnected d.uriText)

theorem wake_asks (c : Client κ) : c.wakeOperations = [.cancelAll] ∨
    c.wakeOperations = [] ∧ (c.wake.2.client.closing → c.closing) := by
  unfold wake wakeOperations
  split
  · exact .inr ⟨rfl, id⟩
  dsimp only
  split
  · let d : Client κ := { c with attempts := c.attempts + 1, phase := .disconnected, loop := none }
    exact d.raise_asks (.disconnected d.uriText)
  · exact .inr ⟨rfl, id⟩

theorem subscribe_asks (c : Client κ) (t : Turn κ) (subject : String) (queue : Option String)
    (max : Option Nat) (callback : κ) (ht : subject ≠ "" →
      t.subscribes? = some (subject, queue.filter (· ≠ ""), callback)) :
    c.Asks t (c.subscribeOperations subject queue max callback) := by
  unfold subscribeOperations
  split
  · exact .nothing
  · rename_i hs
    exact .subscribe max (ht hs)

theorem light_asks {e : Event κ} (he : e.Light) (c : Client κ) :
    c.Asks (.event e) (c.operations (.event e)) := by
  cases e with
  | publish | publishAcked | flush => exact .nothing
  | subscribe subject queue max callback =>
    exact c.subscribe_asks _ subject queue max callback fun hs ↦ if_neg hs
  | request inbox subject payload queue max callback =>
    simp only [operations]
    split
    · exact .nothing
    · rename_i hs
      exact c.subscribe_asks _ inbox queue max callback fun hi ↦ if_neg (by simp [hs, hi])
  | unsubscribe sid max => exact .unsubscribe rfl
  | setTimeout sid afterMs expected auto callback => exact .setTimeout rfl
  | expire sid token callback => exact .expire rfl
  | _ => exact he.elim

/-- A client that is stopped at a turn cancels all timeouts, and no other does. -/
theorem turn_asks (c : Client κ) (t : Turn κ) : c.operations t = [.cancelAll] ∨
    c.Goes t ∧ c.Asks t (c.operations t) := by
  rcases t with e | _
  · by_cases he : e.Light
    · have hg : c.Goes (.event e) := Spares.goes (step_quiet he c).spares
      exact .inr ⟨hg, light_asks he c⟩
    cases e with
    | stop =>
      cases hc : c.closing with
      | true =>
        rw [operations, stopOperations, if_pos hc]
        exact .inr ⟨fun _ ↦ hc, .nothing⟩
      | false => exact .inl (if_neg (by simp [hc]))
    | begin uri =>
      refine .inr ⟨?_, .nothing⟩
      cases hb : c.begin? uri with
      | none =>
        simp only [Goes, turn, step, hb]
        exact id
      | some d =>
        simp only [Goes, turn, step, hb]
        unfold begin? at hb
        split at hb <;> cases hb
        all_goals exact fun hc ↦ absurd hc Bool.false_ne_true
    | connected uri =>
      refine .inr ⟨?_, .nothing⟩
      simp only [Goes, turn, step]
      split
      · rename_i r hr
        unfold bind? at hr
        split at hr <;> cases hr
        exact id
      · exact id
    | connectFailed uri =>
      refine .inr ⟨?_, .nothing⟩
      simp only [Goes, turn, step, connectFailed_client]
      split <;> exact id
    | frame generation f => exact c.receive_asks generation f
    | lost generation =>
      rcases c.lost_asks generation with ho | ⟨ho, hg⟩
      · exact .inl ho
      · rw [operations, ho]
        exact .inr ⟨hg, .nothing⟩
    | wake loop =>
      rcases c.wake_asks with ho | ⟨ho, hg⟩
      · exact .inl ho
      · rw [operations, ho]
        exact .inr ⟨hg, .nothing⟩
    | setErrorHandler callback | setConnectHandler callback | attemptFailed loop =>
      exact .inr ⟨id, .nothing⟩
    | _ => exact absurd trivial he
  · exact .inr ⟨id, .nothing⟩

def turnsOperations (c : Client κ) : List (Turn κ) → List (Registry.Op κ)
  | [] => []
  | t :: ts => c.operations t ++ (c.turn t).client.turnsOperations ts

theorem turnsOperations_append (c : Client κ) (xs ys : List (Turn κ)) :
    c.turnsOperations (xs ++ ys) =
      c.turnsOperations xs ++ (c.turns xs).2.turnsOperations ys := by
  induction xs generalizing c with
  | nil => rfl
  | cons t xs ih =>
    rw [List.cons_append, turnsOperations, turnsOperations, ih, List.append_assoc]
    rfl

end Client

end Herald
