import Herald.Client.Event
import Herald.Proofs.Outbox.Run

namespace Herald

variable {κ : Type}

abbrev Use (κ : Type) := Outbox.Op Command (RoundTrip κ)

def Output.sent? : Output κ → Option (Sent Command)
  | .write sent => some sent
  | _ => none

namespace Reaction

def written (r : Reaction κ) : List (Sent Command) := r.outputs.filterMap Output.sent?

structure Follows (r : Reaction κ) (o : Outbox Command (RoundTrip κ)) (ops : List (Use κ)) :
    Prop where
  written : r.written = (o.run ops).1
  outbox : r.client.outbox = (o.run ops).2

theorem Follows.andThen {r : Reaction κ} {f : Client κ → Reaction κ}
    {o : Outbox Command (RoundTrip κ)} {ops ops' : List (Use κ)} (h : r.Follows o ops)
    (h' : (f r.client).Follows r.client.outbox ops') : (r.andThen f).Follows o (ops ++ ops') := by
  rw [h.outbox] at h'
  refine ⟨?_, ?_⟩
  · rw [Outbox.run_append, ← h'.written, ← h.written]
    exact List.filterMap_append
  · rw [Outbox.run_append, ← h'.outbox]
    rfl

theorem Follows.none {r : Reaction κ} {o : Outbox Command (RoundTrip κ)} (h : r.written = [])
    (h' : r.client.outbox = o) : r.Follows o [] := ⟨h, h'⟩

end Reaction

namespace Client

def stopUses (c : Client κ) : List (Use κ) := if c.closing then [] else [.close]

def raiseUses (c : Client κ) : List (Use κ) :=
  match c.onError with
  | .fallback => c.stopUses
  | _ => []

theorem eq_close_of_mem_raiseUses {c : Client κ} {op : Use κ} (h : op ∈ c.raiseUses) :
    op = .close := by
  unfold raiseUses stopUses at h
  split at h
  · split at h
    · cases h
    · exact List.mem_singleton.1 h
  · cases h

def publishUses (subject : String) (reply : Option String) (payload : Bytes) : List (Use κ) :=
  if subject = "" then [] else [.send (.pub subject (reply.filter (· ≠ "")) payload)]

def subscribeUses (c : Client κ) (subject : String) (queue : Option String) (max : Option Nat) :
    List (Use κ) :=
  let sid := c.registry.lastSid + 1
  if subject = "" then []
  else .sendIfLive (.sub subject (queue.filter (· ≠ "")) sid) ::
    (max.map fun max ↦ .send (.unsub sid (some max))).toList

def deliverUses (c : Client κ) (m : Message) : List (Use κ) :=
  match (c.registry.dispatch m).1 with
  | .dropped => [.send (.unsub m.sid none)]
  | .deliver _ m true => [.send (.unsub m.sid none)]
  | _ => []

def receiveUses (c : Client κ) : Frame → List (Use κ)
  | .message m => c.deliverUses m
  | .ok | .info _ => []
  | .error _ | .unknown _ => c.raiseUses
  | .ping => [.send .pong]
  | .pong => [.complete]

def bindUses (c : Client κ) : List (Use κ) :=
  match c.wantsConnection, c.uri with
  | true, some uri =>
    [.attach ⟨c.generation + 1, true⟩ (c.handshake uri), .roundTrip (.handshake (c.generation + 1))]
  | _, _ => []

def lostUses (c : Client κ) (generation : Nat) : List (Use κ) :=
  if c.generation ≠ generation ∨ c.phase ≠ .connected then []
  else .detach :: if c.closing || c.options.reconnect then [] else c.raiseUses

def wakeUses (c : Client κ) : List (Use κ) :=
  if c.closing ∨ c.phase ≠ .reconnecting then []
  else if c.options.maxReconnectAttempts < c.attempts + 1 then c.raiseUses
  else []

def expireUses (c : Client κ) (sid token : Nat) : List (Use κ) :=
  match (c.registry.claim sid token).1 with
  | some true => [.send (.unsub sid (some 0))]
  | _ => []

def uses (c : Client κ) : Event κ → List (Use κ)
  | .publish subject reply payload => publishUses subject reply payload
  | .publishAcked subject payload callback =>
    if subject = "" then [] else publishUses subject none payload ++ [.roundTrip (.user callback)]
  | .flush callback => [.roundTrip (.user callback)]
  | .subscribe subject queue max _ => c.subscribeUses subject queue max
  | .request inbox subject payload queue max _ =>
    if subject = "" then []
    else c.subscribeUses inbox queue max ++ publishUses subject (some inbox) payload
  | .unsubscribe sid max => [.send (.unsub sid (some max))]
  | .stop => c.stopUses
  | .connected _ => c.bindUses
  | .frame generation f => if c.generation ≠ generation then [] else c.receiveUses f
  | .lost generation => c.lostUses generation
  | .wake _ => c.wakeUses
  | .expire sid token _ => c.expireUses sid token
  | .setErrorHandler _ | .setConnectHandler _ | .setTimeout .. | .begin _ | .connectFailed _
  | .attemptFailed _ => []

open Reaction

theorem withOutbox_follows (c : Client κ) (r : List (Sent Command) × Outbox Command (RoundTrip κ))
    {o : Outbox Command (RoundTrip κ)} {ops : List (Use κ)} (h : r = o.run ops) :
    (c.withOutbox r).Follows o ops := by
  subst h
  refine ⟨?_, rfl⟩
  simp [written, withOutbox, List.filterMap_map, Function.comp_def, Output.sent?]

theorem send_follows (c : Client κ) (command : Command) :
    (c.send command).Follows c.outbox [.send command] :=
  c.withOutbox_follows _ (by rw [Outbox.run_singleton]; rfl)

theorem roundTrip_follows (c : Client κ) (purpose : RoundTrip κ) :
    (c.roundTrip purpose).Follows c.outbox [.roundTrip purpose] :=
  c.withOutbox_follows _ (by rw [Outbox.run_singleton]; rfl)

theorem publish_follows (c : Client κ) (subject : String) (reply : Option String)
    (payload : Bytes) :
    (c.publish subject reply payload).Follows c.outbox (publishUses subject reply payload) := by
  unfold publish publishUses
  split
  · exact .none rfl rfl
  · exact c.send_follows _

theorem unsubscribe_follows (c : Client κ) (sid max : Nat) :
    (c.unsubscribe sid max).Follows c.outbox [.send (.unsub sid (some max))] := by
  have h := (c.send_follows (.unsub sid (some max))).andThen
    (f := fun c ↦ { client := { c with registry := (c.registry.unsubscribe sid max).2 } })
    (.none rfl rfl)
  exact h

theorem subscribe_follows (c : Client κ) (subject : String) (queue : Option String)
    (max : Option Nat) (callback : κ) : (c.subscribe subject queue max callback).2.Follows c.outbox
      (c.subscribeUses subject queue max) := by
  unfold subscribe subscribeUses
  split
  · exact .none rfl rfl
  · have hs : Follows (κ := κ) { outputs := (c.outbox.sendIfLive (.command (.sub subject
        (queue.filter (· ≠ "")) (c.registry.lastSid + 1)))).map .write, client := { c with
          registry := (c.registry.insert subject (queue.filter (· ≠ "")) callback).2 } } c.outbox
        [.sendIfLive (.sub subject (queue.filter (· ≠ "")) (c.registry.lastSid + 1))] := by
      refine ⟨?_, rfl⟩
      rw [Outbox.run_singleton]
      simp [written, List.filterMap_map, Function.comp_def, Output.sent?, Outbox.apply]
    cases max with
    | none => exact hs
    | some max => exact hs.andThen (f := (·.unsubscribe _ max)) (unsubscribe_follows _ _ _)

theorem stop_follows (c : Client κ) : c.stop.Follows c.outbox c.stopUses := by
  unfold stop stopUses
  split
  · exact .none rfl rfl
  · refine ⟨?_, rfl⟩
    rw [Outbox.run_singleton]
    simp [written, List.filterMap_map, Function.comp_def, Output.sent?, Outbox.apply]

theorem stop_written (c : Client κ) : c.stop.written = [] := by
  rw [c.stop_follows.written, stopUses]
  split <;> rfl

theorem raise_follows (c : Client κ) (e : ClientError) :
    (c.raise e).Follows c.outbox c.raiseUses := by
  unfold raise
  split
  · rename_i h
    rw [raiseUses, h]
    exact .none rfl rfl
  · rename_i h
    have hu : c.raiseUses = c.stopUses := by rw [raiseUses, h]
    rw [hu]
    exact stop_follows { c with lastError := some e }
  · rename_i h
    rw [raiseUses, h]
    exact .none rfl rfl

theorem deliver_follows (c : Client κ) (m : Message) :
    (c.deliver m).Follows c.outbox (c.deliverUses m) := by
  unfold deliver
  split
  · rename_i registry h
    rw [deliverUses, h]
    exact .none rfl rfl
  · rename_i registry h
    rw [deliverUses, h]
    exact send_follows { c with registry } _
  · rename_i callback n finished registry h
    rw [deliverUses, h]
    cases finished with
    | false => exact .none rfl rfl
    | true =>
      have hs := send_follows { c with registry } (.unsub n.sid none)
      exact ⟨hs.written, hs.outbox⟩

theorem established_follows (c : Client κ) (generation : Nat) :
    (c.established generation).Follows c.outbox [] := by
  unfold established
  split <;> exact .none rfl rfl

def answer (c : Client κ) : RoundTrip κ → Reaction κ
  | .handshake generation => c.established generation
  | .user callback => { client := c, call := some (.acked callback) }

theorem answer_follows (c : Client κ) (purpose : RoundTrip κ) :
    (c.answer purpose).Follows c.outbox [] := by
  cases purpose with
  | handshake generation => exact c.established_follows generation
  | user callback => exact .none rfl rfl

theorem pong_eq (c : Client κ) : c.pong =
    match c.outbox.pongs with
    | [] => { client := c }
    | purpose :: pongs => answer { c with outbox := { c.outbox with
        pongs, inFlight := c.outbox.inFlight - 1 } } purpose := by
  unfold pong Outbox.complete
  rcases c.outbox.pongs with _ | ⟨_ | _, _⟩ <;> rfl

theorem pong_follows (c : Client κ) : c.pong.Follows c.outbox [.complete] := by
  have hr : c.outbox.run [.complete] = ([], c.outbox.complete.2) := Outbox.run_singleton ..
  rw [pong_eq]
  cases h : c.outbox.pongs with
  | nil => exact ⟨by rw [hr]; rfl, by simp [hr, Outbox.complete, h]⟩
  | cons purpose pongs =>
    have ha := answer_follows { c with outbox := { c.outbox with
      pongs, inFlight := c.outbox.inFlight - 1 } } purpose
    exact ⟨by rw [hr]; exact ha.written, by rw [ha.outbox]; simp [hr, Outbox.complete, h,
      Outbox.run_nil]⟩

theorem receive_follows (c : Client κ) (generation : Nat) (f : Frame) :
    (c.receive generation f).Follows c.outbox
      (if c.generation ≠ generation then [] else c.receiveUses f) := by
  unfold receive
  split
  · exact .none rfl rfl
  · cases f with
    | message m => exact c.deliver_follows m
    | ok => exact .none rfl rfl
    | error text => exact c.raise_follows _
    | ping => exact c.send_follows _
    | pong => exact c.pong_follows
    | info text =>
      simp only
      split <;> exact .none rfl rfl
    | unknown line => exact c.raise_follows _

theorem bind?_follows (c : Client κ) {r : Reaction κ} (h : c.bind? = some r) :
    r.Follows c.outbox c.bindUses := by
  unfold bind? at h
  split at h
  · rename_i uri hw hu
    obtain rfl := Option.some.inj h
    rw [bindUses, hw, hu]
    have hr : c.outbox.run [.attach ⟨c.generation + 1, true⟩ (c.handshake uri)] =
        c.outbox.attach ⟨c.generation + 1, true⟩ (c.handshake uri) := Outbox.run_singleton ..
    exact (withOutbox_follows _ _ hr.symm).andThen (roundTrip_follows _ _)
  · cases h

theorem bindUses_eq_nil (c : Client κ) (h : c.bind? = none) : c.bindUses = [] := by
  unfold bindUses
  split
  · rename_i uri hw hu
    simp [bind?, hw, hu] at h
  · rfl

theorem filterMap_sent?_released (w : Option Writer) (outputs : List (Output κ)) :
    (w.toList.map (fun (w : Writer) ↦ Output.hangUp w.number) ++ outputs).filterMap
      Output.sent? = outputs.filterMap Output.sent? := by
  cases w <;> rfl

theorem lost_follows (c : Client κ) (generation : Nat) :
    (c.lost generation).Follows c.outbox (c.lostUses generation) := by
  have hn := filterMap_sent?_released (κ := κ) c.outbox.writer
  unfold lost lostUses
  split
  · exact .none rfl rfl
  dsimp only
  split
  · rename_i hk
    rw [if_pos (by simp at hk; simp [hk])]
    exact ⟨hn _, rfl⟩
  · rename_i hk
    split
    · rename_i hc
      rw [if_pos (by simp [hc])]
      have hn := hn []
      rw [List.append_nil] at hn
      exact ⟨hn, rfl⟩
    · rename_i hc
      rw [if_neg (by simp at hk; simp [hc, hk])]
      let d : Client κ :=
        { c with outbox := c.outbox.detach, reader := none, phase := .disconnected }
      have hr := raise_follows d (.disconnected d.uriText)
      exact ⟨(hn _).trans hr.written, hr.outbox⟩

theorem wake_follows (c : Client κ) : c.wake.2.Follows c.outbox c.wakeUses := by
  unfold wake wakeUses
  split
  · exact .none rfl rfl
  · dsimp only
    split
    · exact raise_follows
        { c with attempts := c.attempts + 1, phase := .disconnected, loop := none } _
    · exact .none rfl rfl

theorem expire_follows (c : Client κ) (sid token : Nat) (callback : κ) :
    (c.expire sid token callback).Follows c.outbox (c.expireUses sid token) := by
  unfold expire
  split
  · rename_i h
    rw [expireUses, h]
    exact .none rfl rfl
  · rename_i auto registry h
    rw [expireUses, h]
    cases auto with
    | false => exact .none rfl rfl
    | true =>
      have hs := unsubscribe_follows { c with registry } sid 0
      exact ⟨hs.written, hs.outbox⟩

/-- At every event a client leaves its outbox to these uses, and writes what they hand over. -/
theorem step_follows (c : Client κ) (e : Event κ) : (c.step e).2.Follows c.outbox (c.uses e) := by
  cases e with
  | publish subject reply payload => exact c.publish_follows subject reply payload
  | publishAcked subject payload callback =>
    simp only [step, publishAcked, uses]
    split
    · exact .none rfl rfl
    · exact (c.publish_follows subject none payload).andThen (roundTrip_follows _ _)
  | flush callback => exact c.roundTrip_follows _
  | subscribe subject queue max callback => exact c.subscribe_follows subject queue max callback
  | request inbox subject payload queue max callback =>
    simp only [step, request, uses]
    split
    · exact .none rfl rfl
    · exact (c.subscribe_follows inbox queue max callback).andThen
        (f := (·.publish subject (some inbox) payload)) (publish_follows _ _ _ _)
  | unsubscribe sid max => exact c.unsubscribe_follows sid max
  | setTimeout sid afterMs expected auto callback =>
    simp only [step, setTimeout]
    split <;> exact .none rfl rfl
  | stop => exact c.stop_follows
  | begin uri =>
    simp only [step, begin?]
    split <;> rename_i h
    · split at h <;> cases h
      all_goals exact .none rfl rfl
    · exact .none rfl rfl
  | connected uri =>
    simp only [step, uses]
    split
    · rename_i r h
      exact c.bind?_follows h
    · rename_i h
      rw [c.bindUses_eq_nil h]
      exact .none rfl rfl
  | connectFailed uri =>
    simp only [step, connectFailed]
    split <;> split <;> exact .none rfl rfl
  | frame generation f => exact c.receive_follows generation f
  | lost generation => exact c.lost_follows generation
  | wake loop => exact c.wake_follows
  | attemptFailed loop => exact .none rfl rfl
  | expire sid token callback => exact c.expire_follows sid token callback
  | setErrorHandler callback | setConnectHandler callback => exact .none rfl rfl

end Client

end Herald
