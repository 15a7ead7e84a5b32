import Herald.Proofs.Host.Occurrence

namespace Herald

variable {κ : Type}

namespace Host

variable {h : Host κ} {uri : ServerUri} {start wait k : Nat}

def attempts (start wait : Nat) (uri : ServerUri) (k : Nat) : List (Nat × Option ServerUri) :=
  (List.range k).map fun i ↦ (start + (i + 1) * wait, some uri)

/-- As many attempts as are allowed, and the tick at which the client gives up. -/
def schedule (start wait : Nat) (uri : ServerUri) (limit : Nat) :
    List (Nat × Option ServerUri) :=
  attempts start wait uri limit ++ [(start + (limit + 1) * wait, none)]

theorem attempts_succ (start wait : Nat) (uri : ServerUri) (k : Nat) :
    attempts start wait uri (k + 1) =
      attempts start wait uri k ++ [(start + (k + 1) * wait, some uri)] := by
  simp [attempts, List.range_succ]

theorem attempts_length (start wait : Nat) (uri : ServerUri) (k : Nat) :
    (attempts start wait uri k).length = k := by simp [attempts]

theorem attempts_ne_none {tick : Nat × Option ServerUri} (ht : tick ∈ attempts start wait uri k) :
    tick.2 ≠ none := by
  obtain ⟨i, -, rfl⟩ := List.mem_map.1 ht
  simp

theorem attempts_mono {n : Nat} (hk : k ≤ n) :
    attempts start wait uri k <+: attempts start wait uri n := by
  obtain ⟨m, rfl⟩ := Nat.exists_eq_add_of_le hk
  rw [attempts, attempts, List.range_add, List.map_append]
  exact List.prefix_append _ _

/-- A loop that counts its attempts in 32 bits gives up after as many as it is allowed, unless it
is allowed the greatest number of that size: then it never does. -/
theorem gives_up_iff {most count : UInt32} (hc : count = UInt32.ofNat k) : most < count + 1 ↔
    most.toNat < (k + 1) % UInt32.size := by
  have hs : count + 1 = UInt32.ofNat (k + 1) := by
    rw [hc, UInt32.ofNat_add]
    rfl
  rw [hs, UInt32.lt_iff_toNat_lt, UInt32.toNat_ofNat']

structure Waits (start wait : Nat) (uri : ServerUri) (k : Nat) (h : Host κ) : Prop where
  trying : h.Trying uri
  attempts : h.client.attempts = UInt32.ofNat k
  wakes : h.wakes.map (·.1) = [start + (k + 1) * wait]

structure Rests (h : Host κ) : Prop where
  phase : h.client.phase ≠ .connected
  loop : h.client.loop = none

inductive Stage (start wait : Nat) (uri : ServerUri) (limit : Nat)
    (ticks : List (Nat × Option ServerUri)) (h : Host κ) : Prop
  | waits (k : Nat) : (limit + 1 < UInt32.size → k ≤ limit) →
    ticks = Host.attempts start wait uri k → h.Waits start wait uri k →
    Stage start wait uri limit ticks h
  | spent : limit + 1 < UInt32.size → ticks = schedule start wait uri limit → h.Rests →
    Stage start wait uri limit ticks h

/-- A client that is still to try a server goes on with it, whatever else happens, unless it is
stopped. -/
theorem Trying.handle {options : ClientOptions} (ht : h.Trying uri) (hr : h.Regular options)
    {e : Event κ} (he : e.Outer) (hg : h.client.Goes (.event e)) :
    (h.handle e).2.2.Trying uri ∧ (h.handle e).2.2.client.attempts = h.client.attempts ∧
      (h.handle e).2.2.wakes = h.wakes ∧ (h.client.step e).2.Tacit := by
  have hp := h.handle_performs e
  have hw : h.client.wantsConnection := by simp [Client.wantsConnection, ht.phase, ht.closing]
  have hu : (h.client.step e).2.client.uri = h.client.uri := by
    have hu := h.client.turn_uri (.event e)
    rw [Client.starts?_of_tries hw] at hu
    exact hu
  cases (h.client.step_shift he).2 with
  | stays hn hl ha hq =>
    have hr' := hr.handle he
    have hl' : (h.handle e).2.2.client.loop = h.client.loop := hp.client ▸ hl
    obtain ⟨loop, hloop⟩ := Option.isSome_iff_exists.1 (hr.settled.loop.1 ht.phase)
    obtain ⟨uri', ht'⟩ := hr'.trying (hl'.trans hloop)
    refine ⟨⟨ht'.phase, ht'.closing, ?_⟩, ?_, ?_, hq (by simp [ht.phase])⟩
    · rw [hp.client]
      exact hu.trans ht.uri
    · rw [hp.client]
      exact ha ht.phase
    · rw [hp.wakes, hn]
      rfl
  | sets hp' => simp [ht.phase] at hp'
  | stops hc hd => exact absurd (hg hd) (by simp [hc])

theorem Waits.later {h' : Host κ} (hw : h.Waits start wait uri k)
    (hk : h'.client.patience = h.client.patience) (hu : h'.client.uri = h.client.uri)
    (hs : h'.client.Settled) (hws : h'.wakes = h.wakes) : h'.Waits start wait uri k := by
  simp only [Client.patience, Prod.mk.injEq] at hk
  obtain ⟨-, hp, ha, -⟩ := hk
  have hp : h'.client.phase = .reconnecting := hp.trans hw.trying.phase
  exact ⟨⟨hp, hs.not_closing (by simp [hp]), hu.trans hw.trying.uri⟩, ha.trans hw.attempts,
    hws ▸ hw.wakes⟩

theorem Rests.handle (hr : h.Rests) {e : Event κ} (he : e.Outer) :
    (h.handle e).2.2.Rests ∧ (h.client.step e).2.Tacit := by
  have hp := (h.handle_performs e).client
  have hs := (h.client.step_shift he).2
  have hc : (h.handle e).2.2.client.phase ≠ .connected := by
    rw [hp]
    intro hc
    rcases h.client.turnUses_ordinary (.event e) with ⟨u, _, ht, -⟩ | ho
    · obtain rfl := Turn.event.inj ht
      exact he
    · exact hr.phase (Client.connected_before ho hc).1
  refine ⟨⟨hc, ?_⟩, ?_⟩
  · rw [hp]
    exact (hs.of_loop_none hr.phase hr.loop).2
  · cases hs with
    | stays _ _ _ hq => exact hq hr.phase
    | sets hp' => exact (hr.phase hp').elim
    | stops _ _ _ _ hn => exact Reaction.tacit_of_none hn

/-- What an occurrence does to a client that has lost its connection while the server refuses. A
tick at which the server is tried counts the attempt, and only one at which the client gives up
brings the bad news, to whoever hears of errors. -/
structure Effect (h : Host κ) (uri : ServerUri) (o : Occurrence κ) : Prop where
  tries : ∀ time u, h.tick? o = some (time, some u) →
    (h.occur o).1 = none ∧ (h.occur o).2.client = h.client.tried
  gives_up : ∀ time, h.tick? o = some (time, none) →
    (h.occur o).1 = (h.client.resigned.raise (.disconnected uri.text)).call ∧
      (h.occur o).2.client = (h.client.resigned.raise (.disconnected uri.text)).client
  tells : ∀ call, (h.occur o).1 = some call → call.Disconnects →
    ∃ time, h.tick? o = some (time, none)

theorem Effect.of_no_tick {o : Occurrence κ} (hn : h.tick? o = none)
    (hq : ∀ call, (h.occur o).1 = some call → ¬call.Disconnects) : h.Effect uri o where
  tries time u ht := by simp [hn] at ht
  gives_up time ht := by simp [hn] at ht
  tells call hc hd := (hq call hc hd).elim

theorem Effect.of_try {o : Occurrence κ} {time : Nat} {u : ServerUri}
    (ht : h.tick? o = some (time, some u)) (hn : (h.occur o).1 = none)
    (hc : (h.occur o).2.client = h.client.tried) : h.Effect uri o where
  tries _ _ _ := ⟨hn, hc⟩
  gives_up time ht' := by simp [ht] at ht'
  tells call hc _ := by simp [hn] at hc

theorem Effect.of_end {o : Occurrence κ} {time : Nat} (ht : h.tick? o = some (time, none))
    (hr : (h.occur o).1 = (h.client.resigned.raise (.disconnected uri.text)).call)
    (hc : (h.occur o).2.client = (h.client.resigned.raise (.disconnected uri.text)).client) :
    h.Effect uri o where
  tries time u ht' := by simp [ht] at ht'
  gives_up _ _ := ⟨hr, hc⟩
  tells _ _ _ := ⟨time, ht⟩

theorem Waits.tick {options : ClientOptions} (hr : h.Regular options)
    (hw : h.Waits start options.reconnectWaitMs uri k) {o : Occurrence κ} {h' : Host κ}
    {due loop : Nat} (hws : h.wakes = [(due, loop)]) (hc : h'.client = h.client)
    (hn : h'.network.Refuses) (hnow : h'.now = due) (hw' : h'.wakes = [])
    (ht : h.tick? o = some (due, h.client.wake.1)) (he : h.occur o = h'.wake loop) :
    h.Effect uri o ∧
      if options.maxReconnectAttempts.toNat < (k + 1) % UInt32.size then
        h.tick? o = some (start + (k + 1) * options.reconnectWaitMs, none) ∧ (h.occur o).2.Rests
      else h.tick? o = some (start + (k + 1) * options.reconnectWaitMs, some uri) ∧
        (h.occur o).2.Waits start options.reconnectWaitMs uri (k + 1) := by
  have hd : due = start + (k + 1) * options.reconnectWaitMs := by
    have hd := hw.wakes
    rw [hws] at hd
    exact (List.cons.inj hd).1
  have ht' : h'.Trying uri := ⟨hc ▸ hw.trying.phase, hc ▸ hw.trying.closing, hc ▸ hw.trying.uri⟩
  have hm : h'.client.options.maxReconnectAttempts < h'.client.attempts + 1 ↔
      options.maxReconnectAttempts.toNat < (k + 1) % UInt32.size := by
    rw [hc, hr.options]
    exact gives_up_iff hw.attempts
  rw [← hd]
  split
  · rename_i hg
    obtain ⟨hwake, hcall, hp⟩ := ht'.gives_up (hm.2 hg) loop
    rw [hc] at hwake hcall hp
    rw [hwake] at ht
    obtain ⟨-, hph, hl, -⟩ := h.client.resigned_raise (.disconnected uri.text)
    refine ⟨.of_end ht (he ▸ hcall) (he ▸ hp.client), ht, ?_, ?_⟩ <;> rw [he, hp.client]
    · exact hph
    · exact hl
  · rename_i hg
    have hg := mt hm.1 hg
    have hwake := (ht'.tried hg loop).1
    obtain ⟨hcall, hp⟩ := ht'.refused hg hn loop
    rw [hc] at hwake hp
    rw [hwake] at ht
    refine ⟨.of_try ht (he ▸ hcall) (he ▸ hp.client), ht, ?_, ?_, ?_⟩
    · rw [he]
      exact ⟨hp.client ▸ hw.trying.phase, hp.client ▸ hw.trying.closing, hp.client ▸ hw.trying.uri⟩
    · rw [he, hp.client, UInt32.ofNat_add, ← hw.attempts]
      rfl
    · have hw₁ : Host.wakes { h' with client := h.client.tried } = [] := hw'
      rw [he, hp.wakes, hw₁]
      show [h'.now + h.client.options.reconnectWaitMs] = _
      rw [hnow, hr.options, hd, Nat.succ_mul (k + 1), Nat.add_assoc]

/-- While the server refuses, a host goes through the stages of a budget one tick after another. -/
theorem Stage.next {options : ClientOptions} {ticks : List (Nat × Option ServerUri)}
    (hr : h.Regular options) (hs : h.Stage start options.reconnectWaitMs uri
      options.maxReconnectAttempts.toNat ticks) {o : Occurrence κ} (ho : h.Refused o) :
    h.Effect uri o ∧ (h.occur o).2.Stage start options.reconnectWaitMs uri
      options.maxReconnectAttempts.toNat (ticks ++ (h.tick? o).toList) := by
  have hm := options.maxReconnectAttempts.toNat_lt_size
  cases hr.passage ho.orderly with
  | rests h' hk hu hd hws hp hn he =>
    have hl : h'.client.loop = h.client.loop := congrArg (·.2.2.2) hk
    have hph : h'.client.phase = h.client.phase := congrArg (·.2.1) hk
    rw [hn, he, Option.toList_none, List.append_nil]
    refine ⟨.of_no_tick hn (by simp [he]), ?_⟩
    cases hs with
    | waits k hk' ht hw => exact .waits k hk' ht (hw.later hk hu hd hws)
    | spent hlim ht hrest => exact .spent hlim ht ⟨hph ▸ hrest.phase, hl ▸ hrest.loop⟩
  | shifts h' e hc hws hp he hg hn ho' =>
    have hr' : h'.Regular options := hr.later (by rw [hc]) (by rw [hc]) (hc ▸ hr.settled) hws hp
    have hg' : h'.client.Goes (.event e) := by
      rw [hc]
      rcases hg with rfl | hg
      · exact ho.2
      · exact hg
    rw [hn, Option.toList_none, List.append_nil]
    cases hs with
    | waits k hk ht hw =>
      have hw' : h'.Waits start options.reconnectWaitMs uri k :=
        hw.later (by rw [hc]) (by rw [hc]) (hc ▸ hr.settled) hws
      obtain ⟨ht', ha, hws', hq⟩ := hw'.trying.handle hr' he hg'
      refine ⟨.of_no_tick hn (by rw [ho']; exact hq), ?_⟩
      rw [ho']
      exact .waits k hk ht ⟨ht', ha.trans hw'.attempts, hws' ▸ hw'.wakes⟩
    | spent hlim ht hrest =>
      have hrest' : h'.Rests := ⟨hc ▸ hrest.phase, hc ▸ hrest.loop⟩
      obtain ⟨hrest', hq⟩ := hrest'.handle he
      refine ⟨.of_no_tick hn (by rw [ho']; exact hq), ?_⟩
      rw [ho']
      exact .spent hlim ht hrest'
  | connects he =>
    subst he
    exact ho.elim
  | ticks h' hd hws hl hc hn hnow hw' hp ht he =>
    subst hd
    cases hs with
    | waits k hk hticks hw =>
      obtain ⟨heff, hout⟩ := hw.tick hr hws hc (hn ▸ ho) hnow hw' ht he
      refine ⟨heff, ?_⟩
      split at hout
      · rename_i hgive
        obtain ⟨ht, hrest⟩ := hout
        have hlim : options.maxReconnectAttempts.toNat + 1 < UInt32.size := by
          have hlt := Nat.mod_lt (k + 1) (by decide : 0 < UInt32.size)
          omega
        -- Before the count wraps, the limit is exceeded just after as many attempts.
        obtain rfl : k = options.maxReconnectAttempts.toNat := by
          have hk := hk hlim
          rw [Nat.mod_eq_of_lt (by omega)] at hgive
          omega
        exact .spent hlim (by rw [hticks, ht]; rfl) hrest
      · rename_i hgive
        obtain ⟨ht, hwait⟩ := hout
        refine .waits (k + 1) (fun hlim ↦ ?_) (by rw [hticks, ht, attempts_succ]; rfl) hwait
        have hk := hk hlim
        rw [Nat.mod_eq_of_lt (by omega)] at hgive
        omega
    | spent hlim hticks hrest => simp [hrest.loop] at hl

theorem Stage.run {options : ClientOptions} {ticks : List (Nat × Option ServerUri)}
    (hr : h.Regular options) (hs : h.Stage start options.reconnectWaitMs uri
      options.maxReconnectAttempts.toNat ticks) {os : List (Occurrence κ)}
    (ho : h.Along Refused os) : (h.after os).Stage start options.reconnectWaitMs uri
      options.maxReconnectAttempts.toNat (ticks ++ h.ticks os) := by
  induction os generalizing h ticks with
  | nil =>
    rw [Host.ticks, List.append_nil]
    exact hs
  | cons o os ih =>
    have hn := (hs.next hr ho.1).2
    have hi := ih (hr.occur ho.1.orderly) hn ho.2
    rw [List.append_assoc] at hi
    exact hi

end Host

end Herald
