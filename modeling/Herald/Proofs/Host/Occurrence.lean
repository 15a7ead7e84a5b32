import Herald.Proofs.Host.Timers

namespace Herald

variable {κ : Type}

/-- What can happen around a client: something happens to it, the task that writes for it ends, the
connect of a start succeeds, the network changes, or time passes until a given moment, or until the
first timer due by then and with it. -/
inductive Occurrence (κ : Type)
  | event (e : Event κ)
  | broken
  | connect (uri : ServerUri)
  | network (n : Network)
  | pass (deadline : Nat)

def Network.Refuses (n : Network) : Prop := (n.routed && n.up) = false

instance (n : Network) : Decidable n.Refuses := inferInstanceAs (Decidable (_ = _))

namespace Host

variable {h : Host κ}

def new (options : ClientOptions) (network : Network) : Host κ :=
  { client := { options }, network }

def occur (h : Host κ) : Occurrence κ → Option (Call κ) × Host κ
  | .event e => (h.handle e).2
  | .broken => (none, { h with client := (h.client.turn .broken).client })
  | .connect uri => h.connect uri
  | .network n => (none, { h with network := n })
  | .pass deadline =>
    match h.nextTimer? deadline with
    | some (t, h) => h.ring t.alarm
    | none => (none, { h with now := max h.now deadline })

def after (h : Host κ) (os : List (Occurrence κ)) : Host κ := os.foldl (fun h o ↦ (h.occur o).2) h

def tick? (h : Host κ) : Occurrence κ → Option (Nat × Option ServerUri)
  | .pass deadline =>
    match h.nextTimer? deadline with
    | some (⟨_, .wake _⟩, h) => some (h.now, h.client.wake.1)
    | _ => none
  | _ => none

def ticks (h : Host κ) : List (Occurrence κ) → List (Nat × Option ServerUri)
  | [] => []
  | o :: os => (h.tick? o).toList ++ (h.occur o).2.ticks os

abbrev Along (P : Host κ → Occurrence κ → Prop) (h : Host κ) (os : List (Occurrence κ)) : Prop :=
  Herald.Along (fun h o ↦ (h.occur o).2) P h os

theorem after_append (h : Host κ) (xs ys : List (Occurrence κ)) :
    h.after (xs ++ ys) = (h.after xs).after ys := List.foldl_append

theorem along_append {P : Host κ → Occurrence κ → Prop} {xs ys : List (Occurrence κ)} :
    Along P h (xs ++ ys) ↔ Along P h xs ∧ Along P (h.after xs) ys := Herald.Along.append

/-- An occurrence that leaves reconnect loops to the host. A connect that succeeds while one runs
comes from a start that was stopped before. -/
def Orderly (h : Host κ) : Occurrence κ → Prop
  | .event e => e.Outer
  | .connect _ => h.client.phase ≠ .reconnecting
  | _ => True

def Refused (h : Host κ) : Occurrence κ → Prop
  | .event e => e.Outer ∧ h.client.Goes (.event e)
  | .connect _ => False
  | .pass _ => h.network.Refuses
  | _ => True

instance (h : Host κ) (o : Occurrence κ) : Decidable (h.Orderly o) := by
  unfold Orderly
  split <;> infer_instance

instance (h : Host κ) (o : Occurrence κ) : Decidable (h.Refused o) := by
  unfold Refused
  split <;> infer_instance

theorem Refused.orderly {o : Occurrence κ} (ho : h.Refused o) : h.Orderly o := by
  cases o with
  | event e => exact ho.1
  | connect uri => exact ho.elim
  | broken | network n | pass deadline => trivial

/-- A host as it is whatever happens in good order: of its timers none is overdue, and one wakes
the reconnect loop, if it runs, and no other. -/
structure Regular (options : ClientOptions) (h : Host κ) : Prop where
  options : h.client.options = options
  settled : h.client.Settled
  addressed : h.client.Addressed
  punctual : h.Punctual
  wakes : h.wakes.map (·.2) = h.client.loop.toList

theorem Regular.new (options : ClientOptions) (network : Network) :
    (new (κ := κ) options network).Regular options where
  options := rfl
  settled := .new options
  addressed _ := .inl rfl
  punctual _ ht := by cases ht
  wakes := rfl

theorem nextTimer?_eq_none {deadline : Nat} (hp : h.Punctual)
    (hn : h.nextTimer? deadline = none) : Punctual { h with now := max h.now deadline } := by
  intro t ht
  refine Nat.max_le.2 ⟨hp t ht, ?_⟩
  unfold nextTimer? at hn
  split at hn
  · rename_i u us hf
    obtain ⟨-, -, -, -, hle⟩ := Timer.first?_eq_some hf
    split at hn
    · cases hn
    · rename_i hd
      have hu : deadline ≤ u.due := Nat.le_of_lt (Nat.lt_of_not_le hd)
      exact Nat.le_trans hu (hle t ht)
  · rename_i hf
    have ht : t ∈ h.timers := ht
    rw [Timer.first?_eq_none_iff.1 hf] at ht
    cases ht

/-- The timer that runs next is taken out of the others, and the clock is set to it. -/
theorem nextTimer?_eq_some {deadline : Nat} {t : Timer κ} {h' : Host κ} (hp : h.Punctual)
    (hn : h.nextTimer? deadline = some (t, h')) : ∃ xs ys, h.timers = xs ++ t :: ys ∧
      h' = { h with timers := xs ++ ys, now := t.due } ∧ h'.Punctual := by
  unfold nextTimer? at hn
  split at hn
  · rename_i u us hf
    obtain ⟨xs, ys, hs, rfl, hle⟩ := Timer.first?_eq_some hf
    split at hn
    · cases hn
      have ht : h.now ≤ t.due := hp t (hs ▸ List.mem_append_right _ List.mem_cons_self)
      rw [Nat.max_eq_right ht]
      refine ⟨xs, ys, hs, rfl, fun u hu ↦ hle u ?_⟩
      rw [hs]
      exact List.mem_append.2 ((List.mem_append.1 hu).imp_right (List.mem_cons_of_mem _))
    · cases hn
  · cases hn

theorem wakes_of_timers {xs ys : List (Timer κ)} {t : Timer κ} (hs : h.timers = xs ++ t :: ys) :
    h.wakes = xs.filterMap Timer.wake? ++ t.wake?.toList ++ ys.filterMap Timer.wake? := by
  rw [wakes, hs, List.filterMap_append, List.filterMap_cons]
  cases t.wake? <;> simp

theorem only_wake {xs ys : List (Nat × Nat)} {due loop : Nat} {running : Option Nat}
    (h : (xs ++ [(due, loop)] ++ ys).map (·.2) = running.toList) :
    running = some loop ∧ xs = [] ∧ ys = [] := by
  have hn := congrArg List.length h
  cases running with
  | none => simp at hn
  | some n =>
    simp only [List.length_map, List.length_append, List.length_singleton,
      Option.toList_some] at hn
    obtain rfl : xs = [] := List.eq_nil_of_length_eq_zero (by omega)
    obtain rfl : ys = [] := List.eq_nil_of_length_eq_zero (by omega)
    exact ⟨congrArg some (List.cons.inj h).1.symm, rfl, rfl⟩

inductive Passage (h : Host κ) (o : Occurrence κ) : Prop
  | rests (h' : Host κ) : h'.client.patience = h.client.patience → h'.client.uri = h.client.uri →
    h'.client.Settled → h'.wakes = h.wakes → h'.Punctual → h.tick? o = none →
    h.occur o = (none, h') → Passage h o
  | shifts (h' : Host κ) (e : Event κ) : h'.client = h.client → h'.wakes = h.wakes →
    h'.Punctual → e.Outer → o = .event e ∨ h.client.Goes (.event e) → h.tick? o = none →
    h.occur o = (h'.handle e).2 → Passage h o
  | connects {uri : ServerUri} : o = .connect uri → Passage h o
  | ticks (h' : Host κ) {due loop deadline : Nat} : o = .pass deadline →
    h.wakes = [(due, loop)] → h.client.loop = some loop → h'.client = h.client →
    h'.network = h.network → h'.now = due → h'.wakes = [] → h'.Punctual →
    h.tick? o = some (due, h.client.wake.1) → h.occur o = h'.wake loop → Passage h o

theorem Regular.passage {options : ClientOptions} (hr : h.Regular options) {o : Occurrence κ}
    (ho : h.Orderly o) : h.Passage o := by
  cases o with
  | event e => exact .shifts h e rfl rfl hr.punctual ho (.inl rfl) rfl rfl
  | broken =>
    exact .rests { h with client := (h.client.turn .broken).client } rfl rfl
      (hr.settled.turn .broken) rfl hr.punctual rfl rfl
  | connect uri => exact .connects rfl
  | network n =>
    exact .rests { h with network := n } rfl rfl hr.settled rfl hr.punctual rfl rfl
  | pass deadline =>
    cases hn : h.nextTimer? deadline with
    | none =>
      refine .rests { h with now := max h.now deadline } rfl rfl hr.settled rfl
        (nextTimer?_eq_none hr.punctual hn) ?_ ?_
      · simp only [tick?, hn]
      · simp only [occur, hn]
    | some p =>
      obtain ⟨t, h'⟩ := p
      obtain ⟨xs, ys, hs, rfl, hp⟩ := nextTimer?_eq_some hr.punctual hn
      let h₁ : Host κ := { h with timers := xs ++ ys, now := t.due }
      have hw := wakes_of_timers hs
      have hw₁ : h₁.wakes = xs.filterMap Timer.wake? ++ ys.filterMap Timer.wake? :=
        List.filterMap_append
      rcases t with ⟨due, ⟨sid, token, callback⟩ | loop⟩
      · have hg : h.client.Goes (.event (.expire sid token callback)) := fun hc ↦
          (congrArg (·.2.2) (h.client.expire_quiet sid token callback).standing).symm.trans hc
        refine .shifts h₁ (.expire sid token callback) rfl ?_ hp trivial (.inr hg) ?_ ?_
        · rw [hw₁, hw]
          simp [Timer.wake?]
        · simp only [tick?, hn]
        · simp only [occur, hn]
          rfl
      · have hl : (xs.filterMap Timer.wake? ++ [(due, loop)] ++ ys.filterMap Timer.wake?).map
            (·.2) = h.client.loop.toList := hw ▸ hr.wakes
        obtain ⟨hl, hx, hy⟩ := only_wake hl
        refine .ticks h₁ rfl ?_ hl rfl rfl rfl ?_ hp ?_ ?_
        · rw [hw, hx, hy]
          rfl
        · rw [hw₁, hx, hy]
          rfl
        · simp only [tick?, hn]
          rfl
        · simp only [occur, hn]
          rfl

theorem connect_spec (h : Host κ) (uri : ServerUri) :
    (h.connect uri).1 = (h.client.step (.connected uri)).2.call ∧
      Performs { h with client := (h.client.step (.connected uri)).2.client } (h.connect uri).2
        (h.client.step (.connected uri)).2.retries := by
  have hp := handle_performs { h with established := h.established + 1 } (.connected uri)
  unfold connect
  dsimp only
  split
  · exact ⟨rfl, hp.client, hp.network, hp.now, hp.punctual, hp.wakes⟩
  · exact ⟨rfl, hp.client, hp.network, hp.now, hp.punctual, hp.wakes⟩

theorem wake_eq (h : Host κ) (loop : Nat) : h.wake loop =
    match h.client.wake.1 with
    | some uri =>
      if h.network.Refuses then ((h.handle (.wake loop)).2.2.handle (.attemptFailed loop)).2
      else (h.handle (.wake loop)).2.2.connect uri
    | none => (h.client.wake.2.call, (h.handle (.wake loop)).2.2) := by
  have hn : (h.handle (.wake loop)).2.2.network = h.network := (h.handle_performs _).network
  unfold wake
  cases hw : h.client.wake.1 with
  | none =>
    have ha : (h.handle (.wake loop)).1 = .dial none := congrArg Answer.dial hw
    simp only [ha]
    rfl
  | some uri =>
    have ha : (h.handle (.wake loop)).1 = .dial (some uri) := congrArg Answer.dial hw
    simp only [ha, hn]
    by_cases hr : h.network.Refuses
    · rw [if_pos hr, if_neg (Bool.not_eq_true _ ▸ hr)]
    · rw [if_neg hr, if_pos (Bool.not_eq_false _ ▸ hr)]

structure Trying (h : Host κ) (uri : ServerUri) : Prop where
  phase : h.client.phase = .reconnecting
  closing : h.client.closing = false
  uri : h.client.uri = some uri

namespace Trying

variable {uri : ServerUri}

theorem gives_up (ht : h.Trying uri)
    (hl : h.client.options.maxReconnectAttempts < h.client.attempts + 1) (loop : Nat) :
    let r := h.client.resigned.raise (.disconnected uri.text)
    h.client.wake.1 = none ∧ (h.wake loop).1 = r.call ∧
      Performs { h with client := r.client } (h.wake loop).2 [] := by
  intro r
  have hw : h.client.wake = (none, r) := by
    rw [Client.wake_of_reconnecting ht.phase ht.closing ht.uri, if_pos hl]
  have hr : r.retries = [] := (h.client.resigned_raise _).2.2.2
  have hh : Performs { h with client := r.client } (h.handle (.wake loop)).2.2 [] := by
    have hh := h.handle_performs (.wake loop)
    simpa only [Client.step, hw, hr] using hh
  simp only [wake_eq, hw]
  exact ⟨trivial, trivial, hh⟩

theorem tried (ht : h.Trying uri)
    (hl : ¬h.client.options.maxReconnectAttempts < h.client.attempts + 1) (loop : Nat) :
    h.client.wake.1 = some uri ∧ h.wake loop =
      if h.network.Refuses then
        (handle { h with client := h.client.tried } (.attemptFailed loop)).2
      else connect { h with client := h.client.tried } uri := by
  have hw := Client.wake_of_reconnecting ht.phase ht.closing ht.uri
  rw [if_neg hl] at hw
  have hh : (h.handle (.wake loop)).2.2 = { h with client := h.client.tried } := by
    simp only [handle, Client.step, hw]
    rfl
  simp only [wake_eq, hw, hh]
  exact ⟨trivial, trivial⟩

theorem refused (ht : h.Trying uri)
    (hl : ¬h.client.options.maxReconnectAttempts < h.client.attempts + 1)
    (hn : h.network.Refuses) (loop : Nat) :
    (h.wake loop).1 = none ∧
      Performs { h with client := h.client.tried } (h.wake loop).2 [.sleep loop] := by
  rw [(ht.tried hl loop).2, if_pos hn]
  exact ⟨rfl, handle_performs { h with client := h.client.tried } (.attemptFailed loop)⟩

theorem reached (ht : h.Trying uri)
    (hl : ¬h.client.options.maxReconnectAttempts < h.client.attempts + 1)
    (hn : ¬h.network.Refuses) (loop : Nat) :
    ∃ r, h.client.tried.bind? = some r ∧ (h.wake loop).1 = none ∧
      Performs { h with client := r.client } (h.wake loop).2 [] := by
  rw [(ht.tried hl loop).2, if_neg hn]
  have hw : h.client.tried.wantsConnection = true := by
    simp [Client.wantsConnection, Client.tried, ht.phase, ht.closing]
  have ha := Client.step_connected (c := h.client.tried) (by simp [Client.tried, ht.uri]) uri
  have hb := Client.bind?_of_accepted (hw ▸ ha)
  have hr := Client.renewed_of_bind? hb
  obtain ⟨hc, hp⟩ := connect_spec { h with client := h.client.tried } uri
  exact ⟨_, hb, hc.trans hr.call, hr.retries ▸ hp⟩

end Trying

theorem regular_of_performs {options : ClientOptions} {c : Client κ} {h' : Host κ}
    {rs : List Retry} (hp : Performs { h with client := c } h' rs) (hd : h.Punctual)
    (ho : c.options = options) (hs : c.Settled) (ha : c.Addressed)
    (hw : (rs.foldl (Retry.apply h.now options.reconnectWaitMs) h.wakes).map (·.2) =
      c.loop.toList) : h'.Regular options where
  options := by rw [hp.client, ho]
  settled := hp.client ▸ hs
  addressed := hp.client ▸ ha
  punctual := hp.punctual hd
  wakes := by
    rw [hp.wakes, hp.client]
    subst ho
    exact hw

theorem Regular.turn {options : ClientOptions} (hr : h.Regular options) {t : Turn κ} {h' : Host κ}
    (hp : Performs { h with client := (h.client.turn t).client } h' (h.client.turn t).retries)
    (ho : (h.client.turn t).client.options = h.client.options)
    (hw : ((h.client.turn t).retries.foldl (Retry.apply h.now options.reconnectWaitMs)
      h.wakes).map (·.2) = (h.client.turn t).client.loop.toList) : h'.Regular options :=
  regular_of_performs hp hr.punctual (ho.trans hr.options) (hr.settled.turn t)
    (hr.addressed.turn hr.settled t) hw

theorem Regular.handle {options : ClientOptions} (hr : h.Regular options) {e : Event κ}
    (he : e.Outer) : (h.handle e).2.2.Regular options := by
  obtain ⟨ho, hs⟩ := h.client.step_shift he
  refine hr.turn (t := .event e) (h.handle_performs e) ho ?_
  have hw := hr.wakes
  simp only [Client.turn]
  cases hs with
  | stays hn hl =>
    rw [hn, hl]
    exact hw
  | sets hp _ hn hl =>
    rw [hr.settled.loop_none (by simp [hp])] at hw
    rw [hn, hl, List.map_eq_nil_iff.1 hw]
    rfl
  | stops _ _ hn hl =>
    rw [hn, hl]
    cases hc : h.client.loop with
    | none =>
      rw [hc] at hw
      exact hw
    | some loop =>
      rw [hc] at hw
      obtain ⟨p, hp, rfl⟩ := List.map_eq_singleton_iff.1 hw
      simp [hp, Retry.apply]

theorem Regular.connect {options : ClientOptions} (hr : h.Regular options)
    (hp : h.client.phase ≠ .reconnecting) (uri : ServerUri) :
    (h.connect uri).2.Regular options := by
  have hl : h.client.loop = none := hr.settled.loop_none hp
  have hw := hr.wakes
  have hc := (h.connect_spec uri).2
  cases hb : h.client.bind? with
  | none =>
    have hs : h.client.step (.connected uri) = (.accepted false, { client := h.client }) := by
      simp only [Client.step, hb]
    refine hr.turn (t := .event (.connected uri)) hc ?_ ?_ <;> simp only [Client.turn, hs]
    exact hw
  | some r =>
    have hs : h.client.step (.connected uri) = (.accepted true, r) := by
      simp only [Client.step, hb]
    have hn := Client.renewed_of_bind? hb
    refine hr.turn (t := .event (.connected uri)) hc ?_ ?_ <;> simp only [Client.turn, hs]
    · exact hn.options
    · rw [hn.retries, hn.loop]
      rw [hl] at hw
      exact hw

theorem Regular.trying {options : ClientOptions} (hr : h.Regular options) {loop : Nat}
    (hl : h.client.loop = some loop) : ∃ uri, h.Trying uri := by
  have hp : h.client.phase = .reconnecting := hr.settled.loop.2 (by rw [hl]; rfl)
  obtain ⟨uri, hu⟩ := hr.addressed.exists (by simp [hp]) (by simp [hp])
  exact ⟨uri, hp, hr.settled.not_closing (by simp [hp]), hu⟩

theorem Regular.wake {options : ClientOptions} (hr : h.Regular options) {loop : Nat}
    (hl : h.client.loop = some loop) {h' : Host κ} (hc : h'.client = h.client)
    (hw : h'.wakes = []) (hp : h'.Punctual) : (h'.wake loop).2.Regular options := by
  have ho : h'.client.options = options := hc ▸ hr.options
  have hs : h'.client.Settled := hc ▸ hr.settled
  have ha : h'.client.Addressed := hc ▸ hr.addressed
  have hl : h'.client.loop = some loop := hc ▸ hl
  obtain ⟨uri, ht⟩ : ∃ uri, h'.Trying uri := by
    obtain ⟨uri, ht⟩ := hr.trying (hc ▸ hl)
    exact ⟨uri, hc ▸ ht.phase, hc ▸ ht.closing, hc ▸ ht.uri⟩
  have hs₁ := hs.turn (.event (.wake loop))
  have ha₁ := ha.turn hs (.event (.wake loop))
  have he := Client.wake_of_reconnecting ht.phase ht.closing ht.uri
  by_cases hm : h'.client.options.maxReconnectAttempts < h'.client.attempts + 1
  · simp only [Client.turn, Client.step, he, if_pos hm] at hs₁ ha₁
    obtain ⟨ho', -, hl', -⟩ := h'.client.resigned_raise (.disconnected uri.text)
    refine regular_of_performs (ht.gives_up hm loop).2.2 hp (ho'.trans ho) hs₁ ha₁ ?_
    rw [hl']
    exact congrArg _ hw
  simp only [Client.turn, Client.step, he, if_neg hm] at hs₁ ha₁
  by_cases hn : h'.network.Refuses
  · refine regular_of_performs (ht.refused hm hn loop).2 hp ho hs₁ ha₁ ?_
    rw [hw, Client.tried, hl]
    rfl
  · obtain ⟨r, hb, -, hq⟩ := ht.reached hm hn loop
    have hr' : (h'.client.tried.turn (.event (.connected uri))).client = r.client := by
      simp only [Client.turn, Client.step, hb]
    have hs₂ := hr' ▸ hs₁.turn (.event (.connected uri))
    have ha₂ := hr' ▸ ha₁.turn hs₁ (.event (.connected uri))
    have hn := Client.renewed_of_bind? hb
    refine regular_of_performs hq hp (hn.options.trans ho) hs₂ ha₂ ?_
    rw [hn.loop]
    exact congrArg _ hw

theorem Regular.later {options : ClientOptions} (hr : h.Regular options) {h' : Host κ}
    (hk : h'.client.patience = h.client.patience) (hu : h'.client.uri = h.client.uri)
    (hs : h'.client.Settled) (hw : h'.wakes = h.wakes) (hp : h'.Punctual) :
    h'.Regular options := by
  simp only [Client.patience, Prod.mk.injEq] at hk
  obtain ⟨ho, hph, -, hl⟩ := hk
  refine ⟨ho.trans hr.options, hs, fun hn ↦ ?_, hp, by rw [hw, hl, hr.wakes]⟩
  rw [hph]
  exact hr.addressed (hu ▸ hn)

theorem Regular.occur {options : ClientOptions} (hr : h.Regular options) {o : Occurrence κ}
    (ho : h.Orderly o) : (h.occur o).2.Regular options := by
  cases hr.passage ho with
  | rests h' hk hu hs hw hp _ he =>
    rw [he]
    exact hr.later hk hu hs hw hp
  | shifts h' e hc hw hp he _ _ ho =>
    rw [ho]
    have hr' : h'.Regular options := hr.later (by rw [hc]) (by rw [hc]) (hc ▸ hr.settled) hw hp
    exact hr'.handle he
  | @connects uri he =>
    subst he
    exact hr.connect ho uri
  | ticks h' _ _ hl hc _ _ hw hp _ he =>
    rw [he]
    exact hr.wake hl hc hw hp

theorem Regular.after {options : ClientOptions} (hr : h.Regular options)
    {os : List (Occurrence κ)} (ho : h.Along Orderly os) : (h.after os).Regular options :=
  (ho.invariant (fun _ _ hr ho ↦ hr.occur ho) hr).2

end Host

end Herald
