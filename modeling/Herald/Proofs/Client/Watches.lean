import Herald.Proofs.Client.Awaiting

namespace Herald

variable {κ : Type}

def Output.watch? : Output κ → Option (Nat × Nat)
  | .watch sid token _ _ => some (sid, token)
  | _ => none

namespace Reaction

def watches (r : Reaction κ) : List (Nat × Nat) := r.outputs.filterMap Output.watch?

theorem watches_andThen (r : Reaction κ) (f : Client κ → Reaction κ) :
    (r.andThen f).watches = r.watches ++ (f r.client).watches := List.filterMap_append

end Reaction

namespace Client

open Reaction

theorem watches_writes (sents : List (Sent Command)) :
    (sents.map (Output.write (κ := κ))).filterMap Output.watch? = [] := by
  simp [List.filterMap_map, Function.comp_def, Output.watch?]

theorem withOutbox_watches (c : Client κ)
    (r : List (Sent Command) × Outbox Command (RoundTrip κ)) : (c.withOutbox r).watches = [] :=
  watches_writes r.1

theorem publish_watches (c : Client κ) (subject : String) (reply : Option String)
    (payload : Bytes) : (c.publish subject reply payload).watches = [] := by
  unfold publish
  split
  · rfl
  · exact c.withOutbox_watches _

theorem unsubscribe_watches (c : Client κ) (sid max : Nat) :
    (c.unsubscribe sid max).watches = [] := by
  rw [unsubscribe, watches_andThen, send, withOutbox_watches]
  rfl

theorem subscribe_watches (c : Client κ) (subject : String) (queue : Option String)
    (max : Option Nat) (callback : κ) :
    (c.subscribe subject queue max callback).2.watches = [] := by
  unfold subscribe
  split
  · rfl
  · cases max with
    | none => exact watches_writes _
    | some max =>
      dsimp only
      rw [watches_andThen, unsubscribe_watches, List.append_nil]
      exact watches_writes _

theorem stop_watches (c : Client κ) : c.stop.watches = [] := by
  unfold stop
  split
  · rfl
  · cases c.outbox.writer <;> cases c.loop <;> rfl

theorem raise_watches (c : Client κ) (e : ClientError) : (c.raise e).watches = [] := by
  unfold raise
  split
  · rfl
  · exact stop_watches _
  · rfl

theorem deliver_watches (c : Client κ) (m : Message) : (c.deliver m).watches = [] := by
  unfold deliver
  split
  · rfl
  · exact withOutbox_watches _ _
  · rename_i finished registry _
    cases finished with
    | true => exact withOutbox_watches { c with registry } _
    | false => rfl

theorem pong_watches (c : Client κ) : c.pong.watches = [] := by
  rw [pong_eq]
  rcases c.outbox.pongs with _ | ⟨generation | callback, pongs⟩
  · rfl
  · simp only [answer, established]
    split <;> rfl
  · rfl

theorem receive_watches (c : Client κ) (generation : Nat) (f : Frame) :
    (c.receive generation f).watches = [] := by
  unfold receive
  split
  · rfl
  cases f with
  | message m => exact c.deliver_watches m
  | ok => rfl
  | ping => exact c.withOutbox_watches _
  | pong => exact c.pong_watches
  | error text | unknown line => exact c.raise_watches _
  | info text =>
    simp only
    split <;> rfl

theorem lost_watches (c : Client κ) (generation : Nat) : (c.lost generation).watches = [] := by
  have hn (outputs : List (Output κ)) :
      (c.outbox.writer.toList.map (fun (w : Writer) ↦ Output.hangUp w.number) ++ outputs).filterMap
        Output.watch? = outputs.filterMap Output.watch? := by
    cases c.outbox.writer <;> rfl
  unfold lost
  split
  · rfl
  dsimp only
  split
  · exact hn _
  · split
    · exact (congrArg _ (List.append_nil _)).symm.trans (hn [])
    · exact (hn _).trans (raise_watches _ _)

theorem bind?_watches {c : Client κ} {r : Reaction κ} (h : c.bind? = some r) : r.watches = [] := by
  unfold bind? at h
  split at h
  · obtain rfl := Option.some.inj h
    rw [watches_andThen, withOutbox_watches, roundTrip, withOutbox_watches]
    rfl
  · cases h

theorem wake_watches (c : Client κ) : c.wake.2.watches = [] := by
  unfold wake
  split
  · rfl
  · dsimp only
    split
    · exact raise_watches _ _
    · rfl

theorem expire_watches (c : Client κ) (sid token : Nat) (callback : κ) :
    (c.expire sid token callback).watches = [] := by
  unfold expire
  split
  · rfl
  · rename_i auto registry _
    cases auto with
    | true => exact unsubscribe_watches { c with registry } sid 0
    | false => rfl

/-- A client has no timeout watched but one that is new, under the last token that it has given
out. -/
theorem token_of_watches {c : Client κ} {t : Turn κ} {sid token : Nat}
    (h : (sid, token) ∈ (c.turn t).watches) : token = c.registry.lastToken + 1 ∧
      (c.turn t).client.registry.lastToken = token := by
  have hnone (hn : (c.turn t).watches = []) : token = c.registry.lastToken + 1 ∧
      (c.turn t).client.registry.lastToken = token := by
    rw [hn] at h
    cases h
  rcases t with e | _
  · cases e with
    | setTimeout n afterMs expected auto callback =>
      simp only [turn, step, setTimeout] at h ⊢
      split at h
      · cases h
      · rename_i token' registry hn
        obtain ⟨-, rfl⟩ : sid = n ∧ token = token' := by
          simpa [watches, Output.watch?] using h
        have hr := Registry.nextToken_eq_some (congrArg Prod.fst hn)
        rw [hn] at hr
        exact hr
    | publish subject reply payload => exact hnone (c.publish_watches subject reply payload)
    | publishAcked subject payload callback =>
      refine hnone ?_
      simp only [turn, step, publishAcked]
      split
      · rfl
      · rw [watches_andThen, publish_watches, flush, roundTrip, withOutbox_watches]
        rfl
    | flush callback => exact hnone (c.withOutbox_watches _)
    | subscribe subject queue max callback =>
      exact hnone (c.subscribe_watches subject queue max callback)
    | request inbox subject payload queue max callback =>
      refine hnone ?_
      simp only [turn, step, request]
      split
      · rfl
      · rw [watches_andThen, subscribe_watches, publish_watches]
        rfl
    | unsubscribe n max => exact hnone (c.unsubscribe_watches n max)
    | stop => exact hnone c.stop_watches
    | begin uri =>
      refine hnone ?_
      simp only [turn, step]
      split <;> rfl
    | connected uri =>
      refine hnone ?_
      simp only [turn, step]
      split
      · rename_i hb
        exact bind?_watches hb
      · rfl
    | connectFailed uri =>
      refine hnone ?_
      simp only [turn, step, connectFailed]
      split <;> rfl
    | frame generation f => exact hnone (c.receive_watches generation f)
    | lost generation => exact hnone (c.lost_watches generation)
    | wake loop => exact hnone c.wake_watches
    | expire n token' callback => exact hnone (c.expire_watches n token' callback)
    | setErrorHandler | setConnectHandler | attemptFailed => exact hnone rfl
  · exact hnone rfl

end Client

end Herald
