import Herald.Proofs.Client.Move

namespace Herald

variable {κ : Type}

theorem Registry.dispatch_deliver {r : Registry κ} {m m' : Message} {callback : κ}
    {finished : Bool} (h : (r.dispatch m).1 = .deliver callback m' finished) : m' = m := by
  unfold dispatch at h
  split at h
  · cases h
  · dsimp only at h
    split at h
    · cases h
    · split at h <;> cases h <;> rfl

namespace Client

def Runs (c : Client κ) (t : Turn κ) : Call κ → Prop
  | .message callback m => t = .event (.frame c.generation (.message m)) ∧
    ∃ finished, (c.registry.dispatch m).1 = .deliver callback m finished
  | .error callback _ => c.onError = .user callback
  | .connected callback => t = .event (.frame c.generation .pong) ∧ c.phase = .connected ∧
    c.onConnect = some callback ∧ ∃ pongs, c.outbox.pongs = .handshake c.generation :: pongs
  | .acked callback => t = .event (.frame c.generation .pong) ∧
    ∃ pongs, c.outbox.pongs = .user callback :: pongs
  | .timeout callback sid => ∃ token, t = .event (.expire sid token callback)

theorem stop_call (c : Client κ) : c.stop.call = none := by
  unfold stop
  split <;> rfl

theorem raise_call {c : Client κ} {e : ClientError} {call : Call κ}
    (h : (c.raise e).call = some call) : ∃ callback, call = .error callback e ∧
      c.onError = .user callback := by
  unfold raise at h
  split at h
  · cases h
  · rw [stop_call] at h
    cases h
  · rename_i callback ho
    exact ⟨callback, (Option.some.inj h).symm, ho⟩

theorem publish_call (c : Client κ) (subject : String) (reply : Option String)
    (payload : Bytes) : (c.publish subject reply payload).call = none := by
  unfold publish
  split <;> rfl

theorem subscribe_call (c : Client κ) (subject : String) (queue : Option String)
    (max : Option Nat) (callback : κ) : (c.subscribe subject queue max callback).2.call = none := by
  unfold subscribe
  split
  · rfl
  · cases max <;> rfl

end Client

/-- A call to the client such as an application may make at any moment, be it in a callback. -/
def Event.Spoken : Event κ → Prop
  | .begin _ | .connected _ | .connectFailed _ | .frame .. | .lost _ | .wake _
  | .attemptFailed _ | .expire .. => False
  | _ => True

/-- No callback comes due at once on a call of the application. -/
theorem Event.Spoken.call_eq_none {e : Event κ} (he : e.Spoken) (c : Client κ) :
    (c.step e).2.call = none := by
  cases e with
  | publish subject reply payload => exact c.publish_call subject reply payload
  | publishAcked subject payload callback =>
    simp only [Client.step, Client.publishAcked]
    split <;> rfl
  | subscribe subject queue max callback => exact c.subscribe_call subject queue max callback
  | request inbox subject payload queue max callback =>
    simp only [Client.step, Client.request]
    split
    · rfl
    · exact Client.publish_call _ _ _ _
  | setTimeout sid afterMs expected auto callback =>
    simp only [Client.step, Client.setTimeout]
    split <;> rfl
  | stop => exact c.stop_call
  | setErrorHandler | setConnectHandler | flush | unsubscribe => rfl
  | _ => exact he.elim

namespace Client

theorem expire_call_eq_some {c : Client κ} {sid token : Nat} {callback : κ} {call : Call κ} :
    (c.expire sid token callback).call = some call ↔
      call = .timeout callback sid ∧ (c.registry.claim sid token).1.isSome := by
  unfold expire
  split
  · rename_i h
    simp [h]
  · rename_i h
    simp [h, eq_comm]

theorem lost_call {c : Client κ} {generation : Nat} {call : Call κ}
    (h : (c.lost generation).call = some call) :
    ∃ callback e, call = .error callback e ∧ c.onError = .user callback := by
  unfold lost at h
  split at h
  · cases h
  · dsimp only at h
    split at h
    · cases h
    · split at h
      · cases h
      · obtain ⟨callback, hc, ho⟩ := raise_call h
        exact ⟨callback, _, hc, ho⟩

theorem wake_call {c : Client κ} {call : Call κ} (h : c.wake.2.call = some call) :
    ∃ callback e, call = .error callback e ∧ c.onError = .user callback := by
  unfold wake at h
  split at h
  · cases h
  · dsimp only at h
    split at h
    · obtain ⟨callback, hc, ho⟩ := raise_call h
      exact ⟨callback, _, hc, ho⟩
    · cases h

theorem deliver_call {c : Client κ} {m : Message} {call : Call κ}
    (h : (c.deliver m).call = some call) : ∃ callback finished, call = .message callback m ∧
      (c.registry.dispatch m).1 = .deliver callback m finished := by
  unfold deliver at h
  split at h
  · cases h
  · cases h
  · rename_i callback n finished registry hd
    have hd : (c.registry.dispatch m).1 = .deliver callback n finished := by rw [hd]
    obtain rfl := Registry.dispatch_deliver hd
    exact ⟨callback, finished, (Option.some.inj h).symm, hd⟩

theorem pong_call {c : Client κ} {call : Call κ} (h : c.pong.call = some call) :
    c.Runs (.event (.frame c.generation .pong)) call := by
  rw [pong_eq] at h
  cases hp : c.outbox.pongs with
  | nil =>
    rw [hp] at h
    cases h
  | cons purpose pongs =>
    rw [hp] at h
    cases purpose with
    | handshake n =>
      simp only [answer, established] at h
      split at h
      · rename_i he
        obtain ⟨hn, hph⟩ := he
        obtain ⟨callback, hk, rfl⟩ := Option.map_eq_some_iff.1 h
        exact ⟨rfl, hph, hk, pongs, hp.trans (congrArg (.handshake · :: pongs) hn.symm)⟩
      · cases h
    | user callback =>
      obtain rfl := Option.some.inj h
      exact ⟨rfl, pongs, hp⟩

theorem receive_call {c : Client κ} {generation : Nat} {f : Frame} {call : Call κ}
    (h : (c.receive generation f).call = some call) :
    c.Runs (.event (.frame generation f)) call := by
  have hraise {e : ClientError} (h : (c.raise e).call = some call) :
      c.Runs (.event (.frame generation f)) call := by
    obtain ⟨callback, rfl, ho⟩ := raise_call h
    exact ho
  unfold receive at h
  split at h
  · cases h
  rename_i hg
  obtain rfl : c.generation = generation := Decidable.not_not.1 hg
  cases f with
  | message m =>
    obtain ⟨callback, finished, rfl, hd⟩ := deliver_call h
    exact ⟨rfl, finished, hd⟩
  | ok | ping => cases h
  | error text | unknown line => exact hraise h
  | pong => exact pong_call h
  | info text =>
    simp only at h
    split at h <;> cases h

/-- A callback runs only for what it is there for. -/
theorem turn_call {c : Client κ} {t : Turn κ} {call : Call κ} (h : (c.turn t).call = some call) :
    c.Runs t call := by
  rcases t with e | _
  · by_cases he : e.Spoken
    · cases (he.call_eq_none c).symm.trans h
    cases e with
    | begin uri =>
      simp only [turn, step] at h
      split at h <;> cases h
    | connected uri =>
      simp only [turn, step, bind?] at h
      cases hw : c.wantsConnection <;> cases hu : c.uri <;> simp only [hw, hu] at h <;> cases h
    | connectFailed uri =>
      have ho : (if c.phase = .connecting then { c with phase := .disconnected } else c).onError =
          c.onError := by split <;> rfl
      simp only [turn, step, connectFailed] at h
      split at h
      · rename_i callback _ he
        obtain rfl := Option.some.inj h
        exact ho.symm.trans he
      · cases h
    | frame generation f => exact receive_call h
    | lost generation =>
      obtain ⟨callback, e, rfl, ho⟩ := lost_call h
      exact ho
    | wake loop =>
      obtain ⟨callback, e, rfl, ho⟩ := wake_call h
      exact ho
    | attemptFailed loop => cases h
    | expire sid token callback =>
      obtain ⟨rfl, -⟩ := expire_call_eq_some.1 h
      exact ⟨token, rfl⟩
    | _ => exact absurd trivial he
  · cases h

end Client

end Herald
