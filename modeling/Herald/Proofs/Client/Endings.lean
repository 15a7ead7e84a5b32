import Herald.Proofs.Client.ServerView
import Herald.Proofs.Client.Timeouts

namespace Herald

variable {κ : Type}

namespace Registry

theorem find?_run_timing {ops : List (Op κ)} (h : ∀ op ∈ ops, op.Timing) (r : Registry κ)
    (sid : Nat) : ((r.run ops).2.find? sid).isSome = (r.find? sid).isSome := by
  induction ops generalizing r with
  | nil => rfl
  | cons op ops ih =>
    obtain ⟨ho, hops⟩ := List.forall_mem_cons.1 h
    obtain ⟨f, hf⟩ := ho.find? r sid
    have hr := ih hops (r.apply op).2
    rw [hf, Option.isSome_map] at hr
    exact hr

theorem lastSid_run_timing {ops : List (Op κ)} (h : ∀ op ∈ ops, op.Timing) (r : Registry κ) :
    (r.run ops).2.lastSid = r.lastSid := by
  induction ops generalizing r with
  | nil => rfl
  | cons op ops ih =>
    obtain ⟨ho, hops⟩ := List.forall_mem_cons.1 h
    exact (ih hops (r.apply op).2).trans (ho.lastSid r)

def Op.Drops (s : Subscription κ) : Op κ → Prop
  | .unsubscribe n max => n = s.sid ∧ (max = 0 ∨ max ≤ s.received)
  | .dispatch m => m.sid = s.sid ∧ s.received + 1 = s.max
  | _ => False

theorem Valid.find?_apply_eq_none {r : Registry κ} (h : r.Valid) {s : Subscription κ}
    (hs : r.find? s.sid = some s) (op : Op κ) :
    (r.apply op).2.find? s.sid = none ↔ op.Drops s := by
  by_cases ht : op.Timing
  · obtain ⟨f, hf⟩ := ht.find? r s.sid
    rw [hf, hs]
    cases op with
    | token | arm | claim | cancelAll => simp [Op.Drops]
    | insert | unsubscribe | dispatch => exact ht.elim
  cases op with
  | insert subject queue callback =>
    have hi := (Valid.find?_insert_of_le (h.sid_le hs) subject queue callback).trans hs
    simp [Registry.apply, hi, Op.Drops]
  | unsubscribe n max =>
    simp only [Registry.apply, find?_unsubscribe, Op.Drops]
    by_cases hn : n = s.sid
    · by_cases hm : max = 0 ∨ max ≤ s.received <;> simp [hn, hs, hm]
    · simp [hn, hs]
  | dispatch m =>
    simp only [Registry.apply, h.find?_dispatch, Op.Drops]
    by_cases hm : m.sid = s.sid
    · by_cases he : s.received + 1 = s.max <;> simp [hm, hs, he]
    · simp [hm, hs]
  | token | arm | claim | cancelAll => exact (ht trivial).elim

end Registry

def Call.IsFor (sid : Nat) : Call κ → Prop
  | .message _ m => m.sid = sid
  | .timeout _ n => n = sid
  | .error .. | .connected _ | .acked _ => False

namespace Client

theorem setTimeoutOperations_timing (c : Client κ) (sid expected : Nat) (auto : Bool) :
    ∀ op ∈ c.setTimeoutOperations sid expected auto, op.Timing := by
  unfold setTimeoutOperations
  cases (c.registry.nextToken sid).1 <;> simp [Registry.Op.Timing]

/-- A subscription has a valid number, and without a subject there is none. -/
theorem subscribe_isValid (c : Client κ) (subject : String) (queue : Option String)
    (max : Option Nat) (callback : κ) :
    Sid.isValid (c.subscribe subject queue max callback).1 ↔ subject ≠ "" := by
  unfold subscribe
  split
  · exact iff_of_false Bool.false_ne_true (not_not_intro ‹_›)
  · exact iff_of_true rfl ‹_›

/-- A turn gives out the next number for a subscription that it begins, and none otherwise. -/
theorem lastSid_turn (c : Client κ) (t : Turn κ) :
    (c.turn t).client.registry.lastSid = c.registry.lastSid ∨ t.subscribes?.isSome ∧
      (c.turn t).client.registry.lastSid = c.registry.lastSid + 1 := by
  rw [turn_registry]
  have ha := c.turn_asks t
  generalize c.operations t = ops at ha ⊢
  rcases ha with rfl | ⟨-, ha⟩
  · exact .inl rfl
  cases ha with
  | nothing => exact .inl rfl
  | @subscribe subject queue callback max hs =>
    refine .inr ⟨Option.isSome_iff_exists.2 ⟨_, hs⟩, ?_⟩
    cases max with
    | none => rfl
    | some max => exact Registry.unsubscribe_lastSid _ _ max
  | @unsubscribe sid max => exact .inl (Registry.unsubscribe_lastSid _ sid max)
  | setTimeout =>
    exact .inl (Registry.lastSid_run_timing (c.setTimeoutOperations_timing _ _ _) _)
  | @hear m => exact .inl (Registry.dispatch_lastSid _ m)
  | @expire sid token callback =>
    refine .inl ?_
    have ht : Registry.Op.Timing (κ := κ) (.claim sid token) := trivial
    have hc : (c.registry.apply (.claim sid token)).2.lastSid = c.registry.lastSid :=
      ht.lastSid _
    unfold expireOperations
    split
    · exact (Registry.unsubscribe_lastSid _ sid 0).trans hc
    · exact hc

theorem returned_of_none {c : Client κ} {t : Turn κ} (h : t.subscribes? = none) :
    (c.returned t).filter (0 < ·) = [] := by
  rcases t with e | _
  · cases e with
    | subscribe subject queue max callback =>
      simp only [Turn.subscribes?] at h
      split at h
      · rename_i hs
        simp [returned, step, subscribe, hs]
      · cases h
    | request inbox subject payload queue max callback =>
      simp only [Turn.subscribes?] at h
      split at h
      · rename_i hs
        by_cases hn : subject = ""
        · simp [returned, step, request, hn]
        · simp [returned, step, request, subscribe, hn, hs.resolve_left hn]
      · cases h
    | begin uri =>
      simp only [returned, step]
      cases c.begin? uri <;> rfl
    | connected uri =>
      simp only [returned, step]
      cases c.bind? <;> rfl
    | setErrorHandler | setConnectHandler | publish | publishAcked | flush | unsubscribe
    | setTimeout | stop | connectFailed | frame | lost | wake | attemptFailed | expire => rfl
  · rfl

theorem returned_of_some {c : Client κ} {t : Turn κ} {x : String × Option String × κ}
    (h : t.subscribes? = some x) : c.returned t = [c.registry.lastSid + 1] ∧
      (c.turn t).client.registry.lastSid = c.registry.lastSid + 1 := by
  cases t with
  | event e =>
    have hs := step_subscribes (c := c) h
    have hle : c.registry.lastSid + 1 ≤ (c.turn (.event e)).client.registry.lastSid :=
      step_lastSid hs
    refine ⟨by rw [returned, hs], ?_⟩
    rcases c.lastSid_turn (.event e) with he | ⟨-, he⟩
    · omega
    · exact he
  | broken => cases h

def sids (c : Client κ) : List (Turn κ) → List Nat
  | [] => []
  | t :: ts => (c.returned t).filter (0 < ·) ++ (c.turn t).client.sids ts

/-- Numbers are given out one after another. -/
theorem sids_eq (c : Client κ) (ts : List (Turn κ)) :
    c.sids ts = List.range' (c.registry.lastSid + 1) (c.sids ts).length ∧
      (c.turns ts).2.registry.lastSid = c.registry.lastSid + (c.sids ts).length := by
  induction ts generalizing c with
  | nil => exact ⟨rfl, rfl⟩
  | cons t ts ih =>
    obtain ⟨hs, hl⟩ := ih (c.turn t).client
    simp only [sids, turns]
    cases h : t.subscribes? with
    | none =>
      have he : (c.turn t).client.registry.lastSid = c.registry.lastSid := by
        rcases c.lastSid_turn t with he | ⟨hn, -⟩
        · exact he
        · simp [h] at hn
      rw [returned_of_none h, List.nil_append, ← he]
      exact ⟨hs, hl⟩
    | some x =>
      obtain ⟨hr, he⟩ := returned_of_some (c := c) h
      rw [he] at hs hl
      rw [hr, List.filter_cons_of_pos (by simp), List.filter_nil, List.singleton_append,
        List.length_cons, List.range'_succ, ← hs]
      exact ⟨rfl, by rw [hl]; omega⟩

inductive Ends (c : Client κ) (s : Subscription κ) (t : Turn κ) : Prop
  | unsubscribed (max : Nat) : t = .event (.unsubscribe s.sid max) →
    max = 0 ∨ max ≤ s.received → Ends c s t
  | filled (m : Message) : t = .event (.frame c.generation (.message m)) → m.sid = s.sid →
    s.received + 1 = s.max → Ends c s t
  | expired (token : Nat) (callback : κ) : t = .event (.expire s.sid token callback) →
    (c.registry.claim s.sid token).1 = some true → Ends c s t

section

variable {c : Client κ} (hr : c.registry.Valid) {s : Subscription κ} (hs : s ∈ c.registry.subs)

include hr hs

theorem Ends.find? {t : Turn κ} (h : c.Ends s t) :
    (c.turn t).client.registry.find? s.sid = none := by
  have hf := hr.mem_subs.1 hs
  rw [turn_registry]
  cases h with
  | unsubscribed max ht hm =>
    subst ht
    exact (hr.find?_apply_eq_none hf (.unsubscribe s.sid max)).2 ⟨rfl, hm⟩
  | filled m ht hm he =>
    subst ht
    rw [operations, if_neg (by simp)]
    exact (hr.find?_apply_eq_none hf (.dispatch m)).2 ⟨hm, he⟩
  | expired token callback ht hc =>
    subst ht
    have hu := Registry.find?_unsubscribe (c.registry.claim s.sid token).2 s.sid 0 s.sid
    rw [if_pos rfl] at hu
    rw [operations, expireOperations, if_pos hc]
    exact hu.trans (by simp)

/-- A live subscription ends at a turn in one of these ways only. -/
theorem ends_of_find? {t : Turn κ} (h : (c.turn t).client.registry.find? s.sid = none) :
    c.Ends s t := by
  have hf := hr.mem_subs.1 hs
  have hkeeps {ops : List (Registry.Op κ)} (ho : ∀ op ∈ ops, op.Timing) :
      (c.registry.run ops).2.find? s.sid ≠ none := by
    rw [← Option.isSome_iff_ne_none, Registry.find?_run_timing ho, hf]
    rfl
  rw [turn_registry] at h
  have ha := c.turn_asks t
  generalize c.operations t = ops at ha h
  rcases ha with rfl | ⟨-, ha⟩
  · exact absurd h (hkeeps (by simp [Registry.Op.Timing]))
  cases ha with
  | nothing => exact absurd h (hkeeps (by simp))
  | @subscribe subject queue callback max =>
    have hle := hr.sid_le hf
    have hi : (c.registry.insert subject queue callback).2.find? s.sid = some s :=
      (Registry.Valid.find?_insert_of_le hle subject queue callback).trans hf
    cases max with
    | none => cases hi.symm.trans h
    | some max =>
      obtain ⟨hn, -⟩ := ((hr.insert subject queue callback).find?_apply_eq_none hi
        (.unsubscribe (c.registry.lastSid + 1) max)).1 h
      omega
  | @unsubscribe sid max ht =>
    obtain ⟨rfl, hm⟩ := (hr.find?_apply_eq_none hf (.unsubscribe sid max)).1 h
    exact .unsubscribed max ht hm
  | setTimeout => exact absurd h (hkeeps (c.setTimeoutOperations_timing _ _ _))
  | @hear m ht =>
    obtain ⟨hm, he⟩ := (hr.find?_apply_eq_none hf (.dispatch m)).1 h
    exact .filled m ht hm he
  | @expire sid token callback ht =>
    have htiming : ∀ op ∈ [Registry.Op.claim (κ := κ) sid token], op.Timing := by
      simp [Registry.Op.Timing]
    have hclaim : (c.registry.claim sid token).2.find? s.sid ≠ none := hkeeps htiming
    unfold expireOperations at h
    split at h
    · rename_i hc
      have hu := Registry.find?_unsubscribe (c.registry.claim sid token).2 sid 0 s.sid
      by_cases hn : sid = s.sid
      · subst hn
        exact .expired token callback ht hc
      · rw [if_neg hn] at hu
        exact absurd (hu.symm.trans h) hclaim
    · exact absurd h hclaim

end

/-- A callback for a subscription runs only while it is live. -/
theorem find?_of_call {c : Client κ} {t : Turn κ} {call : Call κ} {sid : Nat}
    (h : (c.turn t).call = some call) (hc : call.IsFor sid) :
    (c.registry.find? sid).isSome := by
  have hr := turn_call h
  cases call with
  | message callback m =>
    obtain rfl : m.sid = sid := hc
    obtain ⟨-, finished, hd⟩ := hr
    rw [← Option.ne_none_iff_isSome]
    intro hn
    rw [Registry.Valid.dispatch_of_none hn] at hd
    cases hd
  | timeout callback n =>
    obtain rfl : n = sid := hc
    obtain ⟨token, rfl⟩ := hr
    obtain ⟨-, hs⟩ := expire_call_eq_some.1 h
    obtain ⟨auto, hs⟩ := Option.isSome_iff_exists.1 hs
    obtain ⟨expected, ht⟩ := Registry.claim_eq_some_iff.1 hs
    obtain ⟨s, hs, -⟩ := Option.bind_eq_some_iff.1 ht
    rw [hs]
    rfl
  | error | connected | acked => exact hc.elim

theorem turns_of_gone {c : Client κ} (hr : c.registry.Valid) {sid : Nat}
    (hg : c.registry.Gone sid) (ts : List (Turn κ)) :
    ∀ r ∈ (c.turns ts).1, ∀ call, r.call = some call → ¬call.IsFor sid := by
  induction ts generalizing c with
  | nil => exact List.forall_mem_nil _
  | cons t ts ih =>
    refine List.forall_mem_cons.2 ⟨?_, ih (turn_valid hr t) (hg.continue (turn_continues hr t))⟩
    intro call hc hf
    have hl := find?_of_call hc hf
    rw [hg.2] at hl
    cases hl

/-- A handshake says nothing about a number that is not live. -/
theorem handshake_of_gone {c : Client κ} (hr : c.registry.Valid) {sid : Nat}
    (hg : c.registry.Gone sid) (uri : ServerUri) :
    ∀ command ∈ c.handshake uri, command.sid? ≠ some sid := by
  intro command hc hs
  have ha := handshake_about c hr uri sid
  rw [hg.2] at ha
  have hm : command ∈ (c.handshake uri).filter (·.sid? == some sid) :=
    List.mem_filter.2 ⟨hc, by simp [hs]⟩
  rw [ha] at hm
  cases hm

/-- Subscriptions have the numbers from one on, each its own. One that has ended stays so: no
callback runs for it any more, and no handshake tells a server of it. -/
theorem endings_final (options : ClientOptions) (ts : List (Turn κ)) :
    let c : Client κ := (Client.turns { options } ts).2
    Client.sids { options } ts = List.range' 1 c.registry.lastSid ∧
      (∀ s ∈ c.registry.subs, ∀ t,
        (c.turn t).client.registry.find? s.sid = none ↔ c.Ends s t) ∧
      ∀ sid ∈ Client.sids { options } ts, c.registry.find? sid = none → ∀ later,
        (∀ r ∈ (c.turns later).1, ∀ call, r.call = some call → ¬call.IsFor sid) ∧
          (c.turns later).2.registry.find? sid = none ∧
          ∀ uri, ∀ command ∈ (c.turns later).2.handshake uri, command.sid? ≠ some sid := by
  intro c
  have hr : c.registry.Valid := turns_valid .new ts
  have hsids : Client.sids { options } ts = List.range' 1 c.registry.lastSid := by
    obtain ⟨hs, hl⟩ := sids_eq ({ options } : Client κ) ts
    have hl : c.registry.lastSid = (Client.sids ({ options } : Client κ) ts).length :=
      hl.trans (Nat.zero_add _)
    rw [hl]
    exact hs
  refine ⟨hsids, ?_, ?_⟩
  · intro s hs t
    exact ⟨ends_of_find? hr hs, Ends.find? hr hs⟩
  · intro sid hs hn later
    rw [hsids, List.mem_range'_1] at hs
    have hg : c.registry.Gone sid := ⟨by omega, hn⟩
    have hg' := hg.continue (turns_continues hr later)
    exact ⟨turns_of_gone hr hg later, hg'.2, handshake_of_gone (turns_valid hr later) hg'⟩

def exhausted : List (Turn Nat) :=
  [.event (.begin .localhost), .event (.connected .localhost),
    .event (.subscribe "news" none (some 1) 7), .event (.setTimeout 1 100 2 true 8),
    .event (.frame 1 (.message ⟨"news", 1, none, []⟩))]

def belated : List (Turn Nat) :=
  [.event (.frame 1 (.message ⟨"news", 1, none, []⟩)), .event (.expire 1 1 8), .event (.lost 1),
    .event (.wake 0), .event (.connected .localhost),
    .event (.frame 2 (.message ⟨"news", 1, none, []⟩))]

theorem endings_final_belated :
    let c : Client Nat := (Client.turns { options := {} } exhausted).2
    Client.sids ({ options := {} } : Client Nat) exhausted = [1] ∧ c.registry.find? 1 = none ∧
      (∀ r ∈ (c.turns belated).1, ∀ call, r.call = some call → ¬call.IsFor 1) ∧
      ∀ uri, ∀ command ∈ (c.turns belated).2.handshake uri, command.sid? ≠ some 1 := by
  intro c
  have hs : Client.sids ({ options := {} } : Client Nat) exhausted = [1] := by decide
  have hn : c.registry.find? 1 = none := rfl
  obtain ⟨-, -, hfinal⟩ := endings_final (κ := Nat) {} exhausted
  obtain ⟨hcalls, -, hand⟩ := hfinal 1 (by simp [hs]) hn belated
  exact ⟨hs, hn, hcalls, hand⟩

end Client

end Herald
