import Herald.Proofs.Host.Stages

namespace Herald

variable {κ : Type}

namespace Host

variable {h : Host κ} {uri : ServerUri} {start wait k : Nat}

def lose (h : Host κ) : Occurrence κ := .event (.lost h.client.generation)

theorem stage_of_lose {options : ClientOptions} (hr : h.Regular options)
    (hrec : options.reconnect = true) (hp : h.client.phase = .connected) :
    ∃ uri, h.client.uri = some uri ∧ (h.occur h.lose).1 = none ∧
      (h.occur h.lose).2.now = h.now ∧
      (h.occur h.lose).2.Stage h.now options.reconnectWaitMs uri
        options.maxReconnectAttempts.toNat [] := by
  obtain ⟨uri, hu⟩ := hr.addressed.exists (by simp [hp]) (by simp [hp])
  refine ⟨uri, hu, ?_⟩
  have hc := hr.settled.not_closing (by simp [hp])
  have hn : h.wakes = [] := by
    have hn := hr.wakes
    rw [hr.settled.loop_none (by simp [hp])] at hn
    exact List.map_eq_nil_iff.1 hn
  obtain ⟨hp', hc', hu', ha', hr', hcall⟩ :=
    Client.lost_of_connected hp hc (hr.options ▸ hrec)
  have hd := h.handle_performs (.lost h.client.generation)
  refine ⟨hcall, hd.now, .waits 0 (fun _ ↦ Nat.zero_le _) rfl ⟨⟨?_, ?_, ?_⟩, ?_, ?_⟩⟩
  · exact hd.client ▸ hp'
  · exact hd.client ▸ hc'
  · exact hd.client ▸ hu'.trans hu
  · exact hd.client ▸ ha'
  · have ho : (h.client.lost h.client.generation).client.options = options :=
      (h.client.lost_shift _).1.trans hr.options
    have hw : Host.wakes { h with client := (h.client.lost h.client.generation).client } = [] := hn
    have hs : (h.client.step (.lost h.client.generation)).2 = h.client.lost h.client.generation :=
      rfl
    show ((h.handle (.lost h.client.generation)).2.2.wakes).map (·.1) = _
    rw [hd.wakes, hs, hr', hw]
    show [h.now + (h.client.lost h.client.generation).client.options.reconnectWaitMs] = _
    rw [ho, Nat.zero_add, Nat.one_mul]

/-- How a host stands after some ticks, while the server refuses, since a connection was lost at a
time. The ticks follow the schedule; only if the greatest number of attempts is allowed there is no
end to them, since the count of attempts wraps around before it exceeds that number. Until the
client gives up it reconnects, and no tick is overdue. -/
structure Budget (options : ClientOptions) (start : Nat) (uri : ServerUri)
    (ticks : List (Nat × Option ServerUri)) (h : Host κ) : Prop where
  planned : options.maxReconnectAttempts.toNat + 1 < UInt32.size →
    ticks <+: schedule start options.reconnectWaitMs uri options.maxReconnectAttempts.toNat
  endless : options.maxReconnectAttempts.toNat + 1 = UInt32.size →
    ticks = attempts start options.reconnectWaitMs uri ticks.length
  reconnecting : (∀ tick ∈ ticks, tick.2 ≠ none) → h.client.phase = .reconnecting ∧
    h.now ≤ start + (ticks.length + 1) * options.reconnectWaitMs
  complete : options.maxReconnectAttempts.toNat + 1 < UInt32.size →
    start + (options.maxReconnectAttempts.toNat + 1) * options.reconnectWaitMs < h.now →
    ticks = schedule start options.reconnectWaitMs uri options.maxReconnectAttempts.toNat
  effect : ∀ o, h.Refused o → h.Effect uri o

/-- The connection in use has all attempts ahead of it: whenever it is lost, and whatever else
happens while the server refuses and nobody stops the client, they are made on time. -/
def FullBudget (options : ClientOptions) (h : Host κ) : Prop :=
  ∃ uri, h.client.uri = some uri ∧ (h.occur h.lose).1 = none ∧ ∀ during,
    (h.occur h.lose).2.Along Refused during → Budget options h.now uri
      ((h.occur h.lose).2.ticks during) ((h.occur h.lose).2.after during)

theorem Waits.now_le (hw : h.Waits start wait uri k) (hp : h.Punctual) :
    h.now ≤ start + (k + 1) * wait := by
  obtain ⟨⟨due, loop⟩, hws, hd⟩ := List.map_eq_singleton_iff.1 hw.wakes
  have hm : (due, loop) ∈ h.wakes := hws ▸ List.mem_singleton_self _
  obtain ⟨t, ht, he⟩ := List.mem_filterMap.1 hm
  have hle := hp t ht
  unfold Timer.wake? at he
  split at he
  · cases he
    exact hd ▸ hle
  · cases he

theorem Stage.budget {options : ClientOptions} {ticks : List (Nat × Option ServerUri)}
    (hr : h.Regular options) (hs : h.Stage start options.reconnectWaitMs uri
      options.maxReconnectAttempts.toNat ticks) : h.Budget options start uri ticks := by
  have heff (o : Occurrence κ) (ho : h.Refused o) : h.Effect uri o := (hs.next hr ho).1
  cases hs with
  | waits k hk ht hw =>
    have hlen : ticks.length = k := by rw [ht, attempts_length]
    have hnow := hw.now_le hr.punctual
    refine ⟨fun hlim ↦ ?_, fun _ ↦ ?_, fun _ ↦ ⟨hw.trying.phase, ?_⟩, fun hlim hlt ↦ ?_, heff⟩
    · rw [ht]
      exact (attempts_mono (hk hlim)).trans (List.prefix_append _ _)
    · rw [hlen, ht]
    · rw [hlen]
      exact hnow
    · have hle := Nat.mul_le_mul_right options.reconnectWaitMs (Nat.succ_le_succ (hk hlim))
      have hle' := Nat.le_trans hnow (Nat.add_le_add_left hle start)
      exact absurd hlt (Nat.not_lt_of_le hle')
  | spent hlim ht hrest =>
    refine ⟨fun _ ↦ ht ▸ List.prefix_refl _, fun hl ↦ by omega, fun hn ↦ ?_, fun _ _ ↦ ht, heff⟩
    have hm : (start + (options.maxReconnectAttempts.toNat + 1) * options.reconnectWaitMs, none) ∈
        ticks := by
      rw [ht]
      exact List.mem_append_right _ (List.mem_singleton_self _)
    exact (hn _ hm rfl).elim

theorem fullBudget_of_connected {options : ClientOptions} (hr : h.Regular options)
    (hrec : options.reconnect = true) (hp : h.client.phase = .connected) :
    h.FullBudget options := by
  obtain ⟨uri, hu, hn, -, hs⟩ := stage_of_lose hr hrec hp
  have hr' : (h.occur h.lose).2.Regular options := hr.occur (o := h.lose) trivial
  refine ⟨uri, hu, hn, fun during hd ↦ ?_⟩
  have hrun := hs.run hr' hd
  exact hrun.budget (hr'.after (hd.imp fun _ _ ho ↦ ho.orderly))

/-- An attempt that succeeds: the client takes the connection, and nobody is told anything. -/
theorem Regular.reconnects {options : ClientOptions} (hr : h.Regular options) {deadline time : Nat}
    {u : ServerUri} (hn : ¬h.network.Refuses)
    (ht : h.tick? (.pass deadline) = some (time, some u)) :
    ∃ r, h.client.tried.bind? = some r ∧ (h.occur (.pass deadline)).1 = none ∧
      (h.occur (.pass deadline)).2.client = r.client := by
  cases hr.passage (o := .pass deadline) trivial with
  | rests _ _ _ _ _ _ hnone => simp [hnone] at ht
  | shifts _ _ _ _ _ _ _ hnone => simp [hnone] at ht
  | connects he => cases he
  | @ticks h' _ loop _ _ _ hl hc hnet _ _ _ htick he =>
    rw [htick] at ht
    have hwake : h'.client.wake.1 = some u := hc ▸ (Prod.mk.inj (Option.some.inj ht)).2
    obtain ⟨uri, htry⟩ := hr.trying hl
    have htry' : h'.Trying uri := ⟨hc ▸ htry.phase, hc ▸ htry.closing, hc ▸ htry.uri⟩
    have hm : ¬h'.client.options.maxReconnectAttempts < h'.client.attempts + 1 := by
      intro hm
      rw [(htry'.gives_up hm loop).1] at hwake
      cases hwake
    obtain ⟨r, hb, hcall, hp⟩ := htry'.reached hm (hnet ▸ hn) loop
    rw [he]
    exact ⟨r, hc ▸ hb, hcall, hp.client⟩

/-- A connection that is lost is tried for again just as often as the options allow, each time a
wait after the last, and then the client gives up and says so once; but if the greatest number of
attempts is allowed, it never does. An attempt that succeeds restores the full budget. -/
theorem reconnect_budget (options : ClientOptions) (network : Network)
    (before : List (Occurrence κ)) (hrec : options.reconnect = true)
    (hb : (new (κ := κ) options network).Along Orderly before)
    (hp : ((new options network).after before).client.phase = .connected) :
    let h : Host κ := (new options network).after before
    h.FullBudget options ∧ ∀ during deadline time u,
      (h.occur h.lose).2.Along Refused during →
      let d := (h.occur h.lose).2.after during
      let e := (d.occur (.pass deadline)).2
      ¬d.network.Refuses → d.tick? (.pass deadline) = some (time, some u) →
        (∃ r, d.client.tried.bind? = some r ∧ (d.occur (.pass deadline)).1 = none ∧
          e.client = r.client) ∧ e.client.phase = .connected ∧ e.client.attempts = 0 ∧
            e.FullBudget options := by
  intro h
  have hr : h.Regular options := (Regular.new options network).after hb
  refine ⟨fullBudget_of_connected hr hrec hp, ?_⟩
  intro during deadline time u hd d e hn ht
  have hr₁ : (h.occur h.lose).2.Regular options := hr.occur (o := h.lose) trivial
  have hr₂ : d.Regular options := hr₁.after (hd.imp fun _ _ ho ↦ ho.orderly)
  have hr₃ : e.Regular options := hr₂.occur (o := .pass deadline) trivial
  obtain ⟨r, hbind, hcall, hc⟩ := hr₂.reconnects hn ht
  have hc : e.client = r.client := hc
  have hnew := Client.renewed_of_bind? hbind
  have hp : e.client.phase = .connected := hc ▸ hnew.phase
  exact ⟨⟨r, hbind, hcall, hc⟩, hp, hc ▸ hnew.attempts, fullBudget_of_connected hr₃ hrec hp⟩

def twice : ClientOptions := { maxReconnectAttempts := 2, reconnectWaitMs := 5 }

def arrival : List (Occurrence Nat) :=
  [.event (.setErrorHandler 3), .event (.begin .localhost), .connect .localhost,
    .network { up := false }]

def outage : List (Occurrence Nat) :=
  [.pass 5, .event (.publish "news" none [1]), .pass 10, .pass 15, .pass 20]

def recovery : List (Occurrence Nat) := [.pass 5, .network { up := true }]

theorem reconnect_budget_twice :
    let h : Host Nat := (new twice {}).after arrival
    let l := (h.occur h.lose).2
    twice.reconnect = true ∧ (new twice {}).Along Orderly arrival ∧
      h.client.phase = .connected ∧ l.Along Refused outage ∧ l.Along Refused recovery ∧
      l.ticks outage = [(5, some .localhost), (10, some .localhost), (15, none)] ∧
      ((l.after recovery).occur (.pass 10)).2.client.phase = .connected ∧
      ((l.after recovery).occur (.pass 10)).2.FullBudget twice := by
  intro h l
  have hrec : twice.reconnect = true := rfl
  have hb : (new twice {}).Along Orderly arrival := by decide
  have hp : h.client.phase = .connected := rfl
  have ho : l.Along Refused outage := by decide
  have hr : l.Along Refused recovery := by decide
  obtain ⟨⟨uri, hu, -, hf⟩, hs⟩ := reconnect_budget twice {} arrival hrec hb hp
  obtain rfl : uri = .localhost := (Option.some.inj hu).symm
  have ht : l.ticks outage = schedule h.now 5 .localhost 2 :=
    (hf outage ho).complete (by decide) (by decide)
  have hd : schedule h.now 5 .localhost 2 =
      [(5, some .localhost), (10, some .localhost), (15, none)] := by decide
  obtain ⟨-, -, -, hn⟩ := hs recovery 10 10 .localhost hr (by decide) rfl
  exact ⟨hrec, hb, hp, ho, hr, ht.trans hd, by decide, hn⟩

/-- A reconnect loop that is allowed the greatest number of attempts sleeps on after every tick. -/
theorem pass_alone {options : ClientOptions} (hr : h.Regular options) {due loop deadline : Nat}
    (hlim : options.maxReconnectAttempts.toNat + 1 = UInt32.size)
    (ht : h.timers.map Timer.wake? = [some (due, loop)]) (hd : due ≤ deadline)
    (hn : h.network.Refuses) : (h.occur (.pass deadline)).2.timers.map Timer.wake? =
        [some (due + options.reconnectWaitMs, loop)] ∧
      (h.occur (.pass deadline)).2.now = due ∧
      (h.occur (.pass deadline)).2.network = h.network := by
  let h₁ : Host κ := { h with timers := [], now := max h.now due }
  have ht : h.timers = [⟨due, .wake loop⟩] := by
    obtain ⟨t, ht, hw⟩ := List.map_eq_singleton_iff.1 ht
    rw [ht, Timer.eq_of_wake? hw]
  have hloop : h.client.loop = some loop := by
    have hw := hr.wakes
    rw [wakes, ht] at hw
    cases hc : h.client.loop with
    | none => simp [hc, Timer.wake?] at hw
    | some l =>
      rw [hc] at hw
      exact congrArg some (List.cons.inj hw).1.symm
  have hnow : h₁.now = due :=
    Nat.max_eq_right (hr.punctual ⟨due, .wake loop⟩ (ht ▸ List.mem_singleton_self _))
  obtain ⟨uri, htry⟩ := hr.trying hloop
  have htry₁ : h₁.Trying uri := ⟨htry.phase, htry.closing, htry.uri⟩
  have hm : ¬h₁.client.options.maxReconnectAttempts < h₁.client.attempts + 1 := by
    have hlt := (h₁.client.attempts + 1).toNat_lt_size
    rw [UInt32.lt_iff_toNat_lt, hr.options]
    omega
  have ho : h.occur (.pass deadline) =
      (handle { h₁ with client := h₁.client.tried } (.attemptFailed loop)).2 := by
    have hw := (htry₁.tried hm loop).2
    rw [if_pos hn] at hw
    simp only [occur, nextTimer?, ht, Timer.first?, if_pos hd]
    exact hw
  rw [ho]
  refine ⟨?_, hnow, rfl⟩
  show [some (h₁.now + h.client.options.reconnectWaitMs, loop)] = _
  rw [hnow, hr.options]

theorem passes_alone {options : ClientOptions} (hr : h.Regular options) {due loop deadline : Nat}
    (hlim : options.maxReconnectAttempts.toNat + 1 = UInt32.size)
    (ht : h.timers.map Timer.wake? = [some (due, loop)]) (hn : h.network.Refuses) {n : Nat}
    (hd : due + n * options.reconnectWaitMs ≤ deadline) :
    h.Along Refused (List.replicate n (.pass deadline)) ∧
      (h.after (List.replicate n (.pass deadline))).timers.map Timer.wake? =
        [some (due + n * options.reconnectWaitMs, loop)] ∧
      (h.after (List.replicate n (.pass deadline))).network = h.network := by
  induction n generalizing h due with
  | zero =>
    rw [Nat.zero_mul]
    exact ⟨trivial, ht, rfl⟩
  | succ n ih =>
    rw [Nat.succ_mul] at hd
    have hdue : due ≤ deadline := by omega
    obtain ⟨ht', -, hn'⟩ := pass_alone hr hlim ht hdue hn
    have hr' := hr.occur (o := .pass deadline) trivial
    obtain ⟨ha, hts, hns⟩ := ih hr' ht' (hn' ▸ hn) (by omega)
    refine ⟨⟨hn, ha⟩, ?_, hns.trans hn'⟩
    rw [Nat.succ_mul, Nat.add_comm (n * _), ← Nat.add_assoc]
    exact hts

/-- With no other timer, the loop makes any number of attempts, and more than the greatest number
that is ever allowed. -/
theorem never_gives_up {options : ClientOptions} (hr : h.Regular options) {due loop : Nat}
    (hlim : options.maxReconnectAttempts.toNat + 1 = UInt32.size)
    (ht : h.timers.map Timer.wake? = [some (due, loop)]) (hn : h.network.Refuses) (n : Nat) :
    ∃ during, h.Along Refused during ∧
      (h.after during).now = due + n * options.reconnectWaitMs := by
  let deadline := due + n * options.reconnectWaitMs
  have hd : due + n * options.reconnectWaitMs ≤ deadline := Nat.le_refl _
  obtain ⟨ha, hts, hns⟩ := passes_alone hr hlim ht hn hd
  have hr' := hr.after (ha.imp fun _ _ ho ↦ ho.orderly)
  have hn' : (h.after (List.replicate n (.pass deadline))).network.Refuses := hns ▸ hn
  refine ⟨List.replicate n (.pass deadline) ++ [.pass deadline], ?_, ?_⟩
  · exact along_append.2 ⟨ha, hn', trivial⟩
  · rw [after_append]
    exact (pass_alone hr' hlim hts hd hn').2.1

def unlimited : ClientOptions := { maxReconnectAttempts := 4294967295, reconnectWaitMs := 1 }

/-- A start is stopped and another one takes its place. When the connection of that one is lost,
the connect of the first one succeeds. -/
def overlap : List (Occurrence Nat) :=
  [.event (.begin .localhost), .event .stop, .event (.begin .localhost), .connect .localhost,
    .event (.lost 2), .pass 3, .connect .localhost, .pass 4, .network { up := false }]

/-- A client that is allowed the greatest number of attempts makes more of them. And a connection
that comes of a start which was stopped leaves the reconnect loop behind that it relieves: when it
is lost in turn, two loops share one budget. -/
theorem budget_exceeded :
    (¬∀ (options : ClientOptions) (network : Network) (before during : List (Occurrence Nat)),
      options.reconnect = true → (new options network).Along Orderly before →
      ((new options network).after before).client.phase = .connected →
      let h := (new options network).after before
      (h.occur h.lose).2.Along Refused during →
      h.now + (options.maxReconnectAttempts.toNat + 1) * options.reconnectWaitMs <
        ((h.occur h.lose).2.after during).now →
      ∃ time, (time, none) ∈ (h.occur h.lose).2.ticks during) ∧
    ¬∀ (options : ClientOptions) (network : Network) (before during : List (Occurrence Nat))
        (uri : ServerUri),
      options.reconnect = true → (∀ e, .event e ∈ before → e.Outer) →
      ((new options network).after before).client.phase = .connected →
      let h := (new options network).after before
      h.client.uri = some uri → (h.occur h.lose).2.Along Refused during →
      (h.occur h.lose).2.ticks during <+:
        schedule h.now options.reconnectWaitMs uri options.maxReconnectAttempts.toNat := by
  constructor
  · intro hall
    let h : Host Nat := (new unlimited {}).after arrival
    have hb : (new unlimited {}).Along Orderly arrival := by decide
    have hlim : unlimited.maxReconnectAttempts.toNat + 1 = UInt32.size := by decide
    have hp : h.client.phase = .connected := rfl
    have hr : h.Regular unlimited := (Regular.new unlimited {}).after hb
    have hr' := hr.occur (o := h.lose) trivial
    have ht : (h.occur h.lose).2.timers.map Timer.wake? = [some (1, 0)] := by decide
    obtain ⟨during, hd, hnow⟩ := never_gives_up hr' hlim ht (by decide) UInt32.size
    have hlate : h.now + (unlimited.maxReconnectAttempts.toNat + 1) * unlimited.reconnectWaitMs <
        ((h.occur h.lose).2.after during).now := by
      rw [hnow, hlim]
      exact Nat.add_lt_add_right (by decide : h.now < 1) _
    obtain ⟨time, ht⟩ := hall unlimited {} arrival during rfl hb hp hd hlate
    obtain ⟨uri, -, -, hf⟩ := fullBudget_of_connected hr rfl hp
    rw [(hf during hd).endless hlim] at ht
    exact attempts_ne_none ht rfl
  · intro hall
    have ht := hall twice {} overlap [.pass 20, .pass 20, .pass 20] .localhost rfl
      (by simp [overlap, Event.Outer]) (by decide) rfl (by decide)
    exact absurd ht (by decide)

end Host

end Herald
