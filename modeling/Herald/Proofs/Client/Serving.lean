import Herald.Proofs.Client.Confirmation
import Herald.Proofs.Client.Failing
import Herald.Proofs.Client.Operations

namespace Herald

variable {κ : Type}

def Turn.brings? (sid : Nat) : Turn κ → Option Message
  | .event (.frame _ (.message m)) => if m.sid = sid then some m else none
  | _ => none

def Call.message? : Call κ → Option Message
  | .message _ m => some m
  | .error .. | .connected _ | .acked _ | .timeout .. => none

def Call.IsTimeout : Call κ → Prop
  | .timeout .. => True
  | .message .. | .error .. | .connected _ | .acked _ => False

def Subscription.left (s : Subscription κ) (quota : Option Nat) (received : Nat) :
    List (Subscription κ) :=
  if quota.all (received < ·) then [{ s with received, max := quota.getD 0, timeout := none }]
  else []

def Message.within (quota : Option Nat) (ms : List Message) : List Message :=
  quota.elim ms (ms.take ·)

theorem Message.within_nil (quota : Option Nat) : within quota [] = [] := by
  cases quota with
  | none => rfl
  | some n => exact List.take_nil

theorem Message.within_concat (quota : Option Nat) (ms : List Message) (m : Message) :
    within quota (ms ++ [m]) =
      within quota ms ++ if quota.all ((within quota ms).length < ·) then [m] else [] := by
  cases quota with
  | none => simp [within]
  | some n =>
    simp only [within, Option.elim_some, Option.all_some, List.length_take, decide_eq_true_eq]
    by_cases hn : ms.length < n
    · rw [if_pos (by omega), List.take_of_length_le (by simp; omega),
        List.take_of_length_le (by omega)]
    · rw [if_neg (by omega), List.take_append_of_le_length (by omega), List.append_nil]

namespace Registry

variable {r : Registry κ} {s : Subscription κ} {quota : Option Nat} {received : Nat}

theorem unarmed_of_left (h : r.subs = s.left quota received) : r.Unarmed := by
  intro s' hs
  rw [h, Subscription.left] at hs
  split at hs
  · rw [List.mem_singleton.1 hs]
  · cases hs

theorem unsubscribe_left (h : r.subs = s.left none received) (n : Nat) :
    (r.unsubscribe s.sid n).2.subs = s.left (some n) received := by
  have hf : r.find? s.sid = some { s with received, max := 0, timeout := none } := by
    rw [find?, h]
    simp [Subscription.left]
  unfold unsubscribe
  rw [hf]
  dsimp only
  split
  · have hn : ¬received < n := by omega
    simp [erase, h, Subscription.left, hn]
  · have hn : received < n := by omega
    simp [update, h, Subscription.left, hn]
/-- A message for a subscription with a quota counts as long as the quota is not used up. -/
theorem dispatch_left (h : r.subs = s.left quota received) {m : Message} (hm : m.sid = s.sid)
    (hq : quota.all (received < ·)) : ∃ finished,
      (r.dispatch m).1 = .deliver s.callback m finished ∧
        (r.dispatch m).2.subs = s.left quota (received + 1) := by
  rw [Subscription.left, if_pos hq] at h
  have hf : r.find? m.sid = some { s with received, max := quota.getD 0, timeout := none } := by
    rw [find?, h, hm, List.find?_singleton]
    simp
  unfold dispatch
  rw [hf]
  dsimp only
  cases quota with
  | none =>
    rw [if_neg (by simp), if_neg (by simp)]
    refine ⟨false, rfl, ?_⟩
    simp [update, h, hm, Subscription.left]
  | some n =>
    have hlt : received < n := by simpa using hq
    rw [if_neg (by simp; omega)]
    by_cases hn : received + 1 = n
    · have he : 0 < (some n).getD 0 ∧ received + 1 = (some n).getD 0 :=
        ⟨by simp; omega, by simp [hn]⟩
      rw [if_pos he]
      refine ⟨true, rfl, ?_⟩
      simp [erase, h, hm, Subscription.left, hn]
    · rw [if_neg (by simp; omega)]
      have hlt' : received + 1 < n := by omega
      refine ⟨false, rfl, ?_⟩
      simp [update, h, hm, Subscription.left, hlt']

theorem dispatch_of_left (h : r.subs = s.left quota received) {m : Message}
    (hm : ¬(m.sid = s.sid ∧ quota.all (received < ·))) : r.dispatch m = (.unknown, r) := by
  have hf : r.find? m.sid = none := by
    rw [find?, h, Subscription.left]
    split
    · rename_i hq
      have hne : ¬s.sid = m.sid := fun he ↦ hm ⟨he.symm, hq⟩
      simp [hne]
    · rfl
  unfold dispatch
  rw [hf]

end Registry

namespace Client

variable {c : Client κ} {t : Turn κ} {s : Subscription κ} {quota : Option Nat} {received : Nat}

/-- At a turn nothing comes in on a connection other than the one in use. -/
def Timely (c : Client κ) (t : Turn κ) : Prop :=
  ∀ generation f, t = .event (.frame generation f) → generation = c.generation

structure Tends (c : Client κ) (s : Subscription κ) (quota : Option Nat) (received : Nat) :
    Prop where
  heeded : ∃ callback, c.onError = .user callback
  subs : c.registry.subs = s.left quota received

/-- A client without subscriptions that makes one. -/
theorem subscribe_left (h : c.registry.subs = []) (subject : String) (queue : Option String)
    (max : Option Nat) (callback : κ) :
    let r := (c.subscribe subject queue max callback).2
    r.call = none ∧ r.client.onError = c.onError ∧
      r.client.registry.subs = Subscription.left
        { sid := c.registry.lastSid + 1, subject, queue := queue.filter (· ≠ ""), callback }
        (if subject = "" then some 0 else max) 0 := by
  by_cases hs : subject = ""
  · subst hs
    exact ⟨rfl, rfl, h⟩
  · have hinsert : (c.registry.insert subject (queue.filter (· ≠ "")) callback).2.subs =
        Subscription.left
          { sid := c.registry.lastSid + 1, subject, queue := queue.filter (· ≠ ""), callback }
          none 0 := by
      simp [Registry.insert, h, Subscription.left]
    intro r
    simp only [r, subscribe, if_neg hs]
    cases max with
    | none => exact ⟨rfl, rfl, hinsert⟩
    | some n => exact ⟨rfl, rfl, Registry.unsubscribe_left hinsert n⟩
theorem heeded_turn (h : ∃ callback, c.onError = .user callback) (ht : t.Unasked) :
    ∃ callback, (c.turn t).client.onError = .user callback := by
  obtain ⟨callback, ho⟩ := h
  refine ⟨callback, ?_⟩
  by_cases hb : ∃ uri r, t = .event (.connected uri) ∧ c.bind? = some r
  · obtain ⟨uri, r, rfl, hr⟩ := hb
    have hc : (c.turn (.event (.connected uri))).client = r.client := by
      simp only [turn, step, hr]
    rw [hc]
    unfold bind? at hr
    split at hr
    · obtain rfl := Option.some.inj hr
      simp [Reaction.andThen, roundTrip, withOutbox, ho]
    · cases hr
  · have hset : ∀ callback, t ≠ .event (.setErrorHandler callback) := by
      intro callback he
      exact (he ▸ ht : Turn.Unasked (.event (.setErrorHandler callback))) trivial
    have hnone : ∀ uri, t = .event (.connected uri) → c.bind? = none := fun uri he ↦
      Option.eq_none_iff_forall_ne_some.2 fun r hr ↦ hb ⟨uri, r, he, hr⟩
    exact (turn_heeds hset hnone).onError.trans ho

/-- A client that brings its errors to the application keeps its connection at every frame. -/
theorem receive_generation (h : ∃ callback, c.onError = .user callback) (n : Nat) (f : Frame) :
    (c.receive n f).client.generation = c.generation := by
  obtain ⟨callback, ho⟩ := h
  have hraise (e : ClientError) : (c.raise e).client = c := by rw [raise, ho]
  have hquiet {r : Reaction κ} (hr : c.Quiet r) : r.client.generation = c.generation :=
    congrArg (·.2.1) hr.standing
  unfold receive
  split
  · rfl
  cases f with
  | message m => exact hquiet (c.deliver_quiet m)
  | ok => rfl
  | error text | unknown line => exact congrArg generation (hraise _)
  | ping => exact hquiet (c.withOutbox_quiet _)
  | pong => exact hquiet c.pong_quiet
  | info text =>
    simp only
    split <;> rfl

/-- Without timeouts only messages have an effect on the subscriptions of a client that nobody
calls. -/
theorem subs_turn (ht : t.Unasked) (hr : c.registry.Unarmed)
    (hm : ∀ m, t ≠ .event (.frame c.generation (.message m))) :
    (c.turn t).client.registry.subs = c.registry.subs := by
  rw [turn_registry]
  have ha := c.turn_asks t
  generalize c.operations t = ops at ha ⊢
  rcases ha with rfl | ⟨-, ha⟩
  · show c.registry.subs.map (fun s ↦ { s with timeout := none }) = c.registry.subs
    refine (List.map_congr_left fun s hs ↦ ?_).trans (List.map_id _)
    rw [← hr s hs]
    rfl
  · cases ha with
    | nothing => rfl
    | subscribe max hs =>
      rcases t with e | _
      · cases e with
        | subscribe | request => exact (ht trivial).elim
        | _ => cases hs
      · cases hs
    | unsubscribe he =>
      subst he
      exact (ht trivial).elim
    | setTimeout he =>
      subst he
      exact (ht trivial).elim
    | hear he => exact (hm _ he).elim
    | @expire sid token callback he =>
      have hc := hr.claim sid token
      rw [expireOperations, hc, if_neg nofun]
      show (c.registry.claim sid token).2.subs = c.registry.subs
      rw [hc]

theorem call_timeout (ht : c.registry.Unarmed) {call : Call κ} (hc : (c.turn t).call = some call) :
    ¬call.IsTimeout := by
  intro hi
  cases call with
  | timeout callback sid =>
    obtain ⟨token, rfl⟩ := turn_call hc
    have hs := (expire_call_eq_some.1 hc).2
    rw [ht.claim] at hs
    cases hs
  | message | error | connected | acked => exact hi

/-- What a client does with a subscription that is left alone: it gets the messages that come for it
on the connection in use, until its quota is used up. -/
theorem Tends.turn (h : c.Tends s quota received) (ht : t.Unasked) (hc : c.Timely t) :
    (c.turn t).call.bind Call.message? =
        (if quota.all (received < ·) then t.brings? s.sid else none) ∧
      (c.turn t).client.Tends s quota
        (received + ((c.turn t).call.bind Call.message?).toList.length) := by
  have hu := Registry.unarmed_of_left h.subs
  have hh := heeded_turn h.heeded ht
  by_cases hm : ∃ m, t = .event (.frame c.generation (.message m))
  · obtain ⟨m, rfl⟩ := hm
    have hturn : c.turn (.event (.frame c.generation (.message m))) = c.deliver m :=
      if_neg (not_not_intro rfl)
    rw [hturn] at hh ⊢
    have hreg : (c.deliver m).client.registry = (c.registry.dispatch m).2 := c.deliver_registry m
    by_cases hl : m.sid = s.sid ∧ quota.all (received < ·)
    · obtain ⟨finished, hd, hs⟩ := Registry.dispatch_left h.subs hl.1 hl.2
      have hcall : (c.deliver m).call = some (.message s.callback m) := by
        unfold deliver
        generalize c.registry.dispatch m = d at hd
        obtain ⟨d, registry⟩ := d
        subst hd
        rfl
      simp only [hcall, Option.bind_some, Call.message?, Turn.brings?, if_pos hl.1, if_pos hl.2]
      exact ⟨trivial, hh, hreg.symm ▸ hs⟩
    · have hd := Registry.dispatch_of_left h.subs hl
      have hcall : (c.deliver m).call = none := by rw [deliver, hd]
      have hb : (if quota.all (received < ·) then
          Turn.brings? s.sid (.event (.frame c.generation (.message m)) : Turn κ) else none) =
            none := by
        split
        · rename_i hq
          exact if_neg fun he ↦ hl ⟨he, hq⟩
        · rfl
      rw [hcall, hb]
      refine ⟨rfl, hh, ?_⟩
      rw [hreg, hd]
      exact h.subs
  · have hne : ∀ m, t ≠ .event (.frame c.generation (.message m)) := not_exists.1 hm
    have hcall : (c.turn t).call.bind Call.message? = none := by
      cases hcall : (c.turn t).call with
      | none => rfl
      | some call =>
        cases call with
        | message callback m => exact (hne m (turn_call hcall).1).elim
        | error | connected | acked | timeout => rfl
    have hb : t.brings? s.sid = none := by
      unfold Turn.brings?
      split
      · rename_i n m
        exact (hne m (by rw [hc n _ rfl])).elim
      · rfl
    rw [hcall, hb, ite_self]
    exact ⟨rfl, hh, (subs_turn ht hu hne).trans h.subs⟩

def calls (c : Client κ) (ts : List (Turn κ)) : List (Call κ) := (c.turns ts).1.filterMap (·.call)

theorem calls_snoc (c : Client κ) (ts : List (Turn κ)) (t : Turn κ) :
    c.calls (ts ++ [t]) = c.calls ts ++ ((c.turns ts).2.turn t).call.toList := by
  rw [calls, turns_snoc, List.filterMap_append]
  cases h : ((c.turns ts).2.turn t).call <;> simp [calls, h]

def delivered (c : Client κ) (ts : List (Turn κ)) : List Message :=
  (c.calls ts).filterMap Call.message?

theorem delivered_snoc (c : Client κ) (ts : List (Turn κ)) (t : Turn κ) :
    c.delivered (ts ++ [t]) =
      c.delivered ts ++ (((c.turns ts).2.turn t).call.bind Call.message?).toList := by
  rw [delivered, delivered, calls_snoc, List.filterMap_append]
  cases ((c.turns ts).2.turn t).call with
  | none => rfl
  | some call => cases hm : call.message? <;> simp [hm]

/-- A subscription that was left alone in several turns: the messages that went to its callback are
those that came for it, as far as its quota goes, and no timeout was reported. -/
structure Served (c : Client κ) (s : Subscription κ) (quota : Option Nat) (ts : List (Turn κ)) :
    Prop where
  tends : (c.turns ts).2.Tends s quota (c.delivered ts).length
  messages : c.delivered ts = Message.within quota (ts.filterMap (Turn.brings? s.sid))
  timeouts : ∀ call ∈ c.calls ts, ¬call.IsTimeout

variable {ts : List (Turn κ)}

theorem Served.snoc (h : c.Served s quota ts) (ht : t.Unasked) (hc : (c.turns ts).2.Timely t) :
    c.Served s quota (ts ++ [t]) := by
  obtain ⟨hcall, htends⟩ := h.tends.turn ht hc
  refine ⟨?_, ?_, ?_⟩
  · rw [turns_snoc, delivered_snoc, List.length_append]
    exact htends
  · rw [delivered_snoc, hcall, h.messages, List.filterMap_append]
    cases hb : t.brings? s.sid with
    | none => simp [hb]
    | some m =>
      have hone : [t].filterMap (Turn.brings? s.sid) = [m] := by simp [hb]
      rw [hone, Message.within_concat]
      split <;> rfl
  · rw [calls_snoc]
    intro call hm
    rcases List.mem_append.1 hm with hm | hm
    · exact h.timeouts call hm
    · exact call_timeout (Registry.unarmed_of_left h.tends.subs) (Option.mem_toList.1 hm)

theorem Served.append (h : c.Served s quota ts) {us : List (Turn κ)} (hu : ∀ u ∈ us, u.Unasked)
    (hc : (c.turns ts).2.Along Timely us) : c.Served s quota (ts ++ us) := by
  induction us generalizing ts with
  | nil =>
    rw [List.append_nil]
    exact h
  | cons u us ih =>
    obtain ⟨hu₁, hu₂⟩ := List.forall_mem_cons.1 hu
    have hs := h.snoc hu₁ hc.1
    have hrest := ih hs hu₂ (by
      rw [turns_snoc]
      exact hc.2)
    rwa [List.append_assoc] at hrest

end Client

end Herald
