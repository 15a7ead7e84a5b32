import Herald.Proofs.Client.Watches
import Herald.Proofs.Host.Occurrence

namespace Herald

variable {κ : Type}

def Timer.timeout? (t : Timer κ) : Option (Nat × Nat) :=
  match t.alarm with
  | .expire sid token _ => some (sid, token)
  | .wake _ => none

def Turn.timed? : Turn κ → Option Nat
  | .event (.setTimeout sid ..) | .event (.expire sid ..) => some sid
  | _ => none

/-- An occurrence that sets no timeout on a subscription, and leaves the one that is set to its
timer. -/
def Occurrence.Unhurried (sid : Nat) : Occurrence κ → Prop
  | .event e => (Turn.event e).timed? ≠ some sid
  | _ => True

instance (sid : Nat) : (o : Occurrence κ) → Decidable (o.Unhurried sid)
  | .event e => inferInstanceAs (Decidable ((Turn.event e).timed? ≠ some sid))
  | .broken | .connect _ | .network _ | .pass _ => instDecidableTrue

namespace Host

def expiry? (h : Host κ) : Occurrence κ → Option (Nat × Nat)
  | .pass deadline => (h.nextTimer? deadline).bind (·.1.timeout?)
  | _ => none

def expiries (h : Host κ) : List (Occurrence κ) → List (Nat × Nat)
  | [] => []
  | o :: os => (h.expiry? o).toList ++ (h.occur o).2.expiries os

def calls (h : Host κ) : List (Occurrence κ) → List (Call κ)
  | [] => []
  | o :: os => (h.occur o).1.toList ++ (h.occur o).2.calls os

/-- No other timeout is set on a subscription, which stays live, and nobody stops the client. -/
structure Undisturbed (sid : Nat) (h : Host κ) (o : Occurrence κ) : Prop where
  unhurried : o.Unhurried sid
  live : ((h.occur o).2.client.registry.find? sid).isSome
  goes : (h.occur o).2.client.closing → h.client.closing

instance (sid : Nat) (h : Host κ) (o : Occurrence κ) : Decidable (h.Undisturbed sid o) :=
  decidable_of_iff (o.Unhurried sid ∧ ((h.occur o).2.client.registry.find? sid).isSome ∧
    ((h.occur o).2.client.closing → h.client.closing))
    ⟨fun ⟨hu, hl, hg⟩ ↦ ⟨hu, hl, hg⟩, fun ⟨hu, hl, hg⟩ ↦ ⟨hu, hl, hg⟩⟩

def timersFor (h : Host κ) (key : Nat × Nat) : List (Timer κ) :=
  h.timers.filter (·.timeout? = some key)

variable {h h' : Host κ} {key : Nat × Nat}

theorem perform_timersFor (h : Host κ) {o : Output κ} (ho : o.watch? ≠ some key) :
    (h.perform o).timersFor key = h.timersFor key := by
  cases o with
  | write sent => rfl
  | hangUp generation =>
    unfold perform
    dsimp only
    split
    · split <;> rfl
    · rfl
  | sleep loop => simp [perform, setTimer, timersFor, Timer.timeout?]
  | abort loop =>
    simp only [perform, timersFor, List.filter_filter]
    refine List.filter_congr fun t _ ↦ ?_
    rcases t with ⟨due, _ | other⟩ <;> simp [Timer.timeout?]
  | watch sid token afterMs callback =>
    have ho : (sid, token) ≠ key := fun hk ↦ ho (congrArg some hk)
    simp [perform, setTimer, timersFor, Timer.timeout?, ho]

theorem foldl_perform_timersFor (h : Host κ) {os : List (Output κ)}
    (ho : key ∉ os.filterMap Output.watch?) :
    (os.foldl perform h).timersFor key = h.timersFor key := by
  induction os generalizing h with
  | nil => rfl
  | cons o os ih =>
    have hn : o.watch? ≠ some key := fun hk ↦
      ho (List.mem_filterMap.2 ⟨o, List.mem_cons_self, hk⟩)
    have hs : key ∉ os.filterMap Output.watch? := fun hk ↦ by
      obtain ⟨o', hm, hk⟩ := List.mem_filterMap.1 hk
      exact ho (List.mem_filterMap.2 ⟨o', List.mem_cons_of_mem _ hm, hk⟩)
    exact (ih _ hs).trans (h.perform_timersFor hn)

structure Takes (h : Host κ) (t : Turn κ) (h' : Host κ) : Prop where
  client : h'.client = (h.client.turn t).client
  punctual : h.Punctual → h'.Punctual
  timersFor : ∀ key, key ∉ (h.client.turn t).watches → h'.timersFor key = h.timersFor key

theorem handle_takes (h : Host κ) (e : Event κ) : h.Takes (.event e) (h.handle e).2.2 where
  client := (h.handle_performs e).client
  punctual := (h.handle_performs e).punctual
  timersFor _ hk := foldl_perform_timersFor { h with client := (h.client.step e).2.client } hk

theorem connect_takes (h : Host κ) (uri : ServerUri) :
    h.Takes (.event (.connected uri)) (h.connect uri).2 := by
  have ht := handle_takes { h with established := h.established + 1 } (.connected uri)
  unfold connect
  dsimp only
  split <;> exact ⟨ht.client, ht.punctual, ht.timersFor⟩

theorem wake_of_none (hw : h.client.wake.1 = none) (loop : Nat) :
    (h.wake loop).1 = (h.client.turn (.event (.wake loop))).call ∧
      h.Takes (.event (.wake loop)) (h.wake loop).2 := by
  simp only [wake_eq, hw]
  exact ⟨rfl, h.handle_takes _⟩

/-- A reconnect loop that tries the server takes a second turn. -/
theorem wake_of_some {uri : ServerUri} (hw : h.client.wake.1 = some uri) (loop : Nat) :
    ∃ t : Turn κ, t.timed? = none ∧ (h.wake loop).1 = (h.client.tried.turn t).call ∧
      Takes { h with client := h.client.tried } t (h.wake loop).2 := by
  have hr : h.client.wake.2 = { client := h.client.tried } := by
    unfold Client.wake at hw ⊢
    split at hw
    · cases hw
    · rename_i hn
      rw [if_neg hn]
      dsimp only at hw ⊢
      split at hw
      · cases hw
      · rename_i hm
        rw [if_neg hm]
        rfl
  have hh : (h.handle (.wake loop)).2.2 = { h with client := h.client.tried } := by
    simp only [handle, Client.step, hr]
    rfl
  simp only [wake_eq, hw, hh]
  split
  · exact ⟨.event (.attemptFailed loop), rfl, rfl, handle_takes _ _⟩
  · exact ⟨.event (.connected uri), rfl, (connect_spec _ uri).1, connect_takes _ uri⟩

/-- All that an occurrence can come to for a client and its timeouts: the time goes by at most, or
the client takes a turn, which has to do with a timeout only if the occurrence has. -/
inductive Unfolds (h : Host κ) (o : Occurrence κ) : Prop
  | rests (h' : Host κ) : h'.client = h.client → h'.timers = h.timers → h'.Punctual →
    h.expiry? o = none → h.occur o = (none, h') → Unfolds h o
  | turns (h₁ h₂ : Host κ) (t : Turn κ) : h₁.client.registry = h.client.registry →
    h₁.client.closing = h.client.closing → h₁.Punctual →
    (∀ key, h.expiry? o ≠ some key → h₁.timersFor key = h.timersFor key) →
    (∀ sid, t.timed? = some sid → ¬o.Unhurried sid ∨
      ∃ token callback, h.expiry? o = some (sid, token) ∧
        t = .event (.expire sid token callback)) →
    h₁.Takes t h₂ → h.occur o = ((h₁.client.turn t).call, h₂) → Unfolds h o

theorem timersFor_of_timers {xs ys : List (Timer κ)} {t : Timer κ} (hs : h.timers = xs ++ t :: ys)
    (hs' : h'.timers = xs ++ ys) (ht : t.timeout? ≠ some key) :
    h'.timersFor key = h.timersFor key := by
  simp [timersFor, hs, hs', ht]

theorem unfolds (hp : h.Punctual) (o : Occurrence κ) : h.Unfolds o := by
  have hevent (e : Event κ) (sid : Nat) (hs : (Turn.event e).timed? = some sid) :
      ¬(Occurrence.event e).Unhurried sid := fun hu ↦ hu hs
  cases o with
  | event e =>
    exact .turns h _ (.event e) rfl rfl hp (fun _ _ ↦ rfl) (fun sid hs ↦ .inl (hevent e sid hs))
      (h.handle_takes e) rfl
  | broken =>
    exact .turns h { h with client := (h.client.turn .broken).client } .broken rfl rfl hp
      (fun _ _ ↦ rfl) (fun _ hs ↦ by cases hs) ⟨rfl, id, fun _ _ ↦ rfl⟩ rfl
  | connect uri =>
    exact .turns h _ (.event (.connected uri)) rfl rfl hp (fun _ _ ↦ rfl)
      (fun _ hs ↦ by cases hs) (h.connect_takes uri) (Prod.ext (h.connect_spec uri).1 rfl)
  | network n => exact .rests { h with network := n } rfl rfl hp rfl rfl
  | pass deadline =>
    cases hn : h.nextTimer? deadline with
    | none =>
      refine .rests { h with now := max h.now deadline } rfl rfl (nextTimer?_eq_none hp hn) ?_ ?_
      · simp only [expiry?, hn, Option.bind_none]
      · simp only [occur, hn]
    | some p =>
      obtain ⟨timer, h₁⟩ := p
      obtain ⟨xs, ys, hs, rfl, hp₁⟩ := nextTimer?_eq_some hp hn
      have hx : h.expiry? (.pass deadline) = timer.timeout? := by
        simp only [expiry?, hn, Option.bind_some]
      let h₁ : Host κ := { h with timers := xs ++ ys, now := timer.due }
      have ho : h.occur (.pass deadline) = h₁.ring timer.alarm := by
        simp only [occur, hn, h₁]
      have hk (key : Nat × Nat) (hne : h.expiry? (.pass deadline) ≠ some key) :
          h₁.timersFor key = h.timersFor key := timersFor_of_timers hs rfl (hx ▸ hne)
      rcases timer with ⟨due, ⟨sid, token, callback⟩ | loop⟩
      · refine .turns h₁ _ (.event (.expire sid token callback)) rfl rfl hp₁ hk ?_
          (h₁.handle_takes _) ho
        rintro _ hs
        cases hs
        exact .inr ⟨token, callback, hx, rfl⟩
      · cases hw : h.client.wake.1 with
        | none =>
          obtain ⟨hc, ht⟩ := wake_of_none (h := h₁) hw loop
          exact .turns h₁ _ (.event (.wake loop)) rfl rfl hp₁ hk (fun _ hs ↦ by cases hs) ht
            (ho.trans (Prod.ext hc rfl))
        | some uri =>
          obtain ⟨t, hn, hc, ht⟩ := wake_of_some (h := h₁) hw loop
          refine .turns { h₁ with client := h.client.tried } _ t rfl rfl hp₁ hk (fun _ hs ↦ ?_) ht
            (ho.trans (Prod.ext hc rfl))
          rw [hn] at hs
          cases hs

theorem expiry?_eq_some (hp : h.Punctual) {o : Occurrence κ} (hx : h.expiry? o = some key) :
    ∃ (t : Timer κ) (xs ys : List (Timer κ)), t.timeout? = some key ∧ h.timers = xs ++ t :: ys ∧
      h.occur o = ring { h with timers := xs ++ ys, now := t.due } t.alarm := by
  cases o with
  | pass deadline =>
    obtain ⟨⟨t, h₁⟩, hn, ht⟩ := Option.bind_eq_some_iff.1 hx
    obtain ⟨xs, ys, hs, rfl, -⟩ := nextTimer?_eq_some hp hn
    refine ⟨t, xs, ys, ht, hs, ?_⟩
    simp only [occur, hn]
  | event | broken | connect | network => cases hx

structure Pledged (h : Host κ) (key : Nat × Nat) (ts : List (Timer κ)) : Prop where
  timersFor : h.timersFor key = ts
  issued : key.2 ≤ h.client.registry.lastToken

structure Timely (h : Host κ) : Prop where
  punctual : h.Punctual
  valid : h.client.registry.Valid
  fresh : ∀ key, h.client.registry.lastToken < key.2 → h.timersFor key = []

theorem Timely.new (options : ClientOptions) (network : Network) :
    (new (κ := κ) options network).Timely where
  punctual _ ht := by cases ht
  valid := .new
  fresh _ _ := rfl

theorem timersFor_ne_nil (hp : h.Punctual) {o : Occurrence κ} (hx : h.expiry? o = some key) :
    h.timersFor key ≠ [] := by
  obtain ⟨t, xs, ys, ht, hs, -⟩ := expiry?_eq_some hp hx
  simp [Host.timersFor, hs, ht]

theorem lastToken_le_turn (c : Client κ) (t : Turn κ) :
    c.registry.lastToken ≤ (c.turn t).client.registry.lastToken := by
  rw [Client.turn_registry]
  exact Registry.lastToken_le_run _ _

theorem Timely.occur (ht : h.Timely) (o : Occurrence κ) : (h.occur o).2.Timely := by
  cases unfolds ht.punctual o with
  | rests h' hc htimers hp _ ho =>
    rw [ho]
    refine ⟨hp, hc ▸ ht.valid, fun key hk ↦ ?_⟩
    rw [timersFor, htimers]
    exact ht.fresh key (hc ▸ hk)
  | turns h₁ h₂ t hr _ hp hsame _ htakes ho =>
    rw [ho]
    refine ⟨htakes.punctual hp, ?_, fun key hk ↦ ?_⟩
    · rw [htakes.client]
      exact Client.turn_valid (hr ▸ ht.valid) t
    · rw [htakes.client] at hk
      have hw : key ∉ (h₁.client.turn t).watches := fun hw ↦
        absurd (Client.token_of_watches hw).2 (Nat.ne_of_lt hk)
      have hlt := hr ▸ Nat.lt_of_le_of_lt (lastToken_le_turn h₁.client t) hk
      have hx : h.expiry? o ≠ some key := fun hx ↦
        timersFor_ne_nil ht.punctual hx (ht.fresh key hlt)
      rw [htakes.timersFor key hw, hsame key hx]
      exact ht.fresh key hlt

theorem Timely.after (ht : h.Timely) (os : List (Occurrence κ)) : (h.after os).Timely := by
  induction os generalizing h with
  | nil => exact ht
  | cons o os ih => exact ih (ht.occur o)

theorem Pledged.takes {ts : List (Timer κ)} (hk : h.Pledged key ts) {t : Turn κ}
    (ht : h.Takes t h') : h'.Pledged key ts := by
  have hw : key ∉ (h.client.turn t).watches := fun hw ↦
    absurd (Client.token_of_watches hw).1 (Nat.ne_of_lt (Nat.lt_succ_of_le hk.issued))
  refine ⟨(ht.timersFor key hw).trans hk.timersFor, ?_⟩
  rw [ht.client]
  exact Nat.le_trans hk.issued (lastToken_le_turn _ t)

theorem Pledged.occur {ts : List (Timer κ)} (hk : h.Pledged key ts) (hp : h.Punctual)
    {o : Occurrence κ} (hx : h.expiry? o ≠ some key) : (h.occur o).2.Pledged key ts := by
  cases unfolds hp o with
  | rests h' hc htimers _ _ ho =>
    rw [ho]
    refine ⟨?_, hc ▸ hk.issued⟩
    rw [Host.timersFor, htimers]
    exact hk.timersFor
  | turns h₁ h₂ t hr _ _ hsame _ htakes ho =>
    have hk₁ : h₁.Pledged key ts := ⟨(hsame key hx).trans hk.timersFor, hr ▸ hk.issued⟩
    rw [ho]
    exact hk₁.takes htakes

/-- The only timer for a timeout runs out at its time, and leaves none behind. -/
theorem Pledged.expires {due sid token : Nat} {callback : κ}
    (hk : h.Pledged (sid, token) [⟨due, .expire sid token callback⟩]) (hp : h.Punctual)
    {o : Occurrence κ} (hx : h.expiry? o = some (sid, token)) :
    (h.occur o).1 = (h.client.expire sid token callback).call ∧ (h.occur o).2.now = due ∧
      (h.occur o).2.Pledged (sid, token) [] := by
  obtain ⟨t, xs, ys, ht, hs, ho⟩ := expiry?_eq_some hp hx
  have htimers := hk.timersFor
  rw [Host.timersFor, hs, List.filter_append, List.filter_cons_of_pos (by simpa using ht)]
    at htimers
  obtain ⟨hx, rfl, hy⟩ : xs.filter (·.timeout? = some (sid, token)) = [] ∧
      t = ⟨due, .expire sid token callback⟩ ∧
      ys.filter (·.timeout? = some (sid, token)) = [] := by
    rcases List.append_eq_singleton_iff.1 htimers with ⟨hx, hy⟩ | ⟨-, hn⟩
    · exact ⟨hx, List.cons.inj hy⟩
    · cases hn
  let h₁ : Host κ := { h with timers := xs ++ ys, now := due }
  have ho : h.occur o = (h₁.handle (.expire sid token callback)).2 := ho
  have hk₁ : h₁.Pledged (sid, token) [] := by
    refine ⟨?_, hk.issued⟩
    rw [Host.timersFor, List.filter_append, hx, hy]
    rfl
  rw [ho]
  exact ⟨rfl, (h₁.handle_performs _).now, hk₁.takes (h₁.handle_takes _)⟩

theorem Pledged.spent (hk : h.Pledged key []) (ht : h.Timely) (os : List (Occurrence κ)) :
    (h.after os).Pledged key [] := by
  induction os generalizing h with
  | nil => exact hk
  | cons o os ih =>
    have hx : h.expiry? o ≠ some key := fun hx ↦ timersFor_ne_nil ht.punctual hx hk.timersFor
    exact ih (hk.occur ht.punctual hx) (ht.occur o)

theorem not_mem_expiries_cons {o : Occurrence κ} {os : List (Occurrence κ)} :
    key ∉ h.expiries (o :: os) ↔
      h.expiry? o ≠ some key ∧ key ∉ (h.occur o).2.expiries os := by
  simp [expiries]

theorem Pledged.after {ts : List (Timer κ)} (hk : h.Pledged key ts) (ht : h.Timely)
    {os : List (Occurrence κ)} (hn : key ∉ h.expiries os) : (h.after os).Pledged key ts := by
  induction os generalizing h with
  | nil => exact hk
  | cons o os ih =>
    obtain ⟨hx, hn⟩ := not_mem_expiries_cons.1 hn
    exact ih (hk.occur ht.punctual hx) (ht.occur o) hn

/-- A timer runs out once. -/
theorem Pledged.once {due sid token : Nat} {callback : κ}
    (hk : h.Pledged (sid, token) [⟨due, .expire sid token callback⟩]) (ht : h.Timely)
    {os : List (Occurrence κ)} {o : Occurrence κ}
    (hx : (h.after os).expiry? o = some (sid, token)) : (sid, token) ∉ h.expiries os := by
  induction os generalizing h with
  | nil => exact List.not_mem_nil
  | cons o' os ih =>
    have ht' := ht.occur o'
    have hx' : h.expiry? o' ≠ some (sid, token) := by
      intro hx'
      have hs := (hk.expires ht.punctual hx').2.2.spent ht' os
      exact timersFor_ne_nil (ht'.after os).punctual hx hs.timersFor
    exact not_mem_expiries_cons.2 ⟨hx', ih (hk.occur ht.punctual hx') ht' hx⟩

variable {sid before heard : Nat} {timeout : Timeout}

/-- What is left of a timeout after an occurrence that does not disturb it. -/
theorem Undisturbed.awaits {o : Occurrence κ} (hu : h.Undisturbed sid o) (ht : h.Timely)
    (ha : h.client.registry.Awaits sid timeout before heard)
    (hx : h.expiry? o ≠ some (sid, timeout.token)) :
    (h.occur o).2.client.registry.Awaits sid timeout before
      (heard + (h.occur o).1.toList.countP (Call.isMessage sid)) := by
  cases unfolds ht.punctual o with
  | rests h' hc _ _ _ ho =>
    rw [ho, hc]
    exact ha
  | turns h₁ h₂ t hr hclosing _ _ htimed htakes ho =>
    have hdue {token : Nat} {callback : κ} (he : t = .event (.expire sid token callback)) :
        token ≠ timeout.token := by
      rintro rfl
      rcases htimed sid (he ▸ rfl) with hn | ⟨token, callback', hx', he'⟩
      · exact hn hu.unhurried
      · cases he.symm.trans he'
        exact hx hx'
    have hq : ¬h₁.client.Quashes t sid timeout.token := by
      intro hq
      cases hq with
      | replaced afterMs expected auto callback he =>
        subst he
        rcases htimed sid rfl with hn | ⟨token, callback', -, he'⟩
        · exact hn hu.unhurried
        · cases he'
      | ended hn =>
        have hl := hu.live
        rw [ho, htakes.client, hn] at hl
        cases hl
      | stopped hg =>
        refine hg fun hc ↦ ?_
        rw [hclosing]
        refine hu.goes ?_
        rw [ho, htakes.client]
        exact hc
      | due callback he => exact hdue he rfl
    rw [ho, htakes.client]
    exact Client.awaits_turn (hr ▸ ha) (hr ▸ ht.valid) hq

theorem awaits_after (ht : h.Timely) (ha : h.client.registry.Awaits sid timeout before heard)
    {os : List (Occurrence κ)} (hu : h.Along (Undisturbed sid) os)
    (hn : (sid, timeout.token) ∉ h.expiries os) :
    (h.after os).client.registry.Awaits sid timeout before
      (heard + (h.calls os).countP (Call.isMessage sid)) := by
  induction os generalizing h heard with
  | nil => exact ha
  | cons o os ih =>
    obtain ⟨hx, hn⟩ := not_mem_expiries_cons.1 hn
    rw [calls, List.countP_append, ← Nat.add_assoc]
    exact ih (ht.occur o) (hu.1.awaits ht ha hx) hu.2 hn

theorem pledged_setTimeout (ht : h.Timely) {s : Subscription κ}
    (hs : h.client.registry.find? sid = some s) (afterMs expected : Nat) (auto : Bool)
    (callback : κ) :
    let token := h.client.registry.lastToken + 1
    let d := (h.occur (.event (.setTimeout sid afterMs expected auto callback))).2
    d.Pledged (sid, token) [⟨h.now + afterMs, .expire sid token callback⟩] ∧
      d.client.registry.Awaits sid ⟨expected, auto, token⟩ s.received 0 := by
  intro token d
  obtain ⟨ho, ha⟩ := Client.awaits_setTimeout hs afterMs expected auto callback
  have hd : d = { h with
      client := (h.client.setTimeout sid afterMs expected auto callback).client
      timers := h.timers ++ [⟨h.now + afterMs, .expire sid token callback⟩] } := by
    simp only [d, occur, handle, Client.step, ho]
    rfl
  have hw : (sid, token) ∈ (h.client.turn
      (.event (.setTimeout sid afterMs expected auto callback))).watches := by
    rw [Reaction.watches]
    exact List.mem_filterMap.2 ⟨_, ho ▸ List.mem_singleton_self _, rfl⟩
  have hf : h.timersFor (sid, token) = [] := ht.fresh _ (Nat.lt_succ_self _)
  rw [hd]
  refine ⟨⟨?_, Nat.le_of_eq (Client.token_of_watches hw).2.symm⟩, ha⟩
  rw [timersFor] at hf ⊢
  rw [List.filter_append, hf]
  simp [Timer.timeout?]

/-- A timeout that is set on a live subscription runs out at its time and not before, and once. If
nothing else has done away with it until then, it fires unless a message has come since it was set
with which the subscription had received as many as the timeout waits for. Those that came before
it was set count. -/
theorem timeout_fires_iff (options : ClientOptions) (network : Network)
    (before : List (Occurrence κ)) (sid afterMs expected : Nat) (auto : Bool) (callback : κ)
    (s : Subscription κ) :
    let h := (new options network).after before
    let d := (h.occur (.event (.setTimeout sid afterMs expected auto callback))).2
    let key := (sid, h.client.registry.lastToken + 1)
    h.client.registry.find? sid = some s →
      (∀ during, h.now + afterMs < (d.after during).now → key ∈ d.expiries during) ∧
      ∀ during o, (d.after during).expiry? o = some key →
        let e := (d.after during).occur o
        let heard := (d.calls during).countP (Call.isMessage sid)
        key ∉ d.expiries during ∧ e.2.now = h.now + afterMs ∧
          (d.Along (Undisturbed sid) during → e.1 =
            if heard = 0 ∨ s.received + heard < expected then some (.timeout callback sid)
            else none) := by
  intro h d key hs
  have ht : h.Timely := (Timely.new options network).after before
  obtain ⟨hk, ha⟩ := pledged_setTimeout ht hs afterMs expected auto callback
  have htd : d.Timely := ht.occur _
  constructor
  · intro during hlt
    by_contra hn
    have hk' : (d.after during).Pledged key _ := hk.after htd hn
    have hm : ⟨h.now + afterMs, .expire sid key.2 callback⟩ ∈ (d.after during).timersFor key := by
      rw [hk'.timersFor]
      exact List.mem_singleton_self _
    have hle := (htd.after during).punctual _ (List.mem_filter.1 hm).1
    exact absurd hlt (Nat.not_lt_of_le hle)
  · intro during o hx e heard
    have hn : key ∉ d.expiries during := hk.once htd hx
    have hk' : (d.after during).Pledged key _ := hk.after htd hn
    obtain ⟨hcall, hnow, -⟩ := hk'.expires (htd.after during).punctual hx
    refine ⟨hn, hnow, fun hu ↦ ?_⟩
    have ha' := awaits_after htd ha hu hn
    rw [Nat.zero_add] at ha'
    have hcall : e.1 = ((d.after during).client.expire sid key.2 callback).call := hcall
    have hw := ha'.isSome_claim_iff
    simp only [hcall, Client.expire_call]
    exact if_congr hw rfl rfl

def news : Occurrence Nat := .event (.frame 1 (.message ⟨"news", 1, none, []⟩))

def readerOfTwo : List (Occurrence Nat) :=
  [.event (.begin .localhost), .connect .localhost, .event (.subscribe "news" none none 7), news,
    news]

theorem timeout_fires_iff_fourth :
    let h : Host Nat := (new {} {}).after readerOfTwo
    let d := (h.occur (.event (.setTimeout 1 100 4 true 8))).2
    (∃ s, h.client.registry.find? 1 = some s ∧ s.received = 2) ∧
      (d.after [news]).expiry? (.pass 200) = some (1, 1) ∧
      ((d.after [news]).occur (.pass 200)).2.now = 100 ∧
      d.Along (Undisturbed 1) [news] ∧
      ((d.after [news]).occur (.pass 200)).1 = some (.timeout 8 1) ∧
      100 < (d.after [news, .pass 200, .pass 200]).now ∧
      (1, 1) ∈ d.expiries [news, .pass 200, .pass 200] := by
  intro h d
  have hs : h.client.registry.find? 1 = some ⟨1, "news", none, 7, 2, 0, none⟩ := rfl
  obtain ⟨hlate, hdue⟩ := timeout_fires_iff {} {} readerOfTwo 1 100 4 true 8 _ hs
  have hx : (d.after [news]).expiry? (.pass 200) = some (1, 1) := by decide
  have hu : d.Along (Undisturbed 1) [news] := by decide
  have hnow : 100 < (d.after [news, .pass 200, .pass 200]).now := by decide
  obtain ⟨-, ht, hfires⟩ := hdue [news] (.pass 200) hx
  exact ⟨⟨_, hs, rfl⟩, hx, ht, hu, hfires hu, hnow, hlate [news, .pass 200, .pass 200] hnow⟩

/-- One message after a timeout for two is set turns it off if two came before. -/
theorem timeout_counts_earlier :
    ¬∀ (options : ClientOptions) (network : Network) (before during : List (Occurrence Nat))
      (sid afterMs expected : Nat) (auto : Bool) (callback : Nat) (s : Subscription Nat)
      (o : Occurrence Nat), 1 ≤ expected →
      let h := (new options network).after before
      let d := (h.occur (.event (.setTimeout sid afterMs expected auto callback))).2
      h.client.registry.find? sid = some s → d.Along (Undisturbed sid) during →
      (d.after during).expiry? o = some (sid, h.client.registry.lastToken + 1) →
        (((d.after during).occur o).1 = some (.timeout callback sid) ↔
          (d.calls during).countP (Call.isMessage sid) < expected) := by
  intro hall
  have hc := (hall {} {} readerOfTwo [news] 1 100 2 true 8 ⟨1, "news", none, 7, 2, 0, none⟩
    (.pass 100) (by decide) rfl (by decide) (by decide)).2 (by decide)
  cases hc

end Host

end Herald
