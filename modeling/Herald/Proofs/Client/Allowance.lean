import Herald.Proofs.Client.Traffic

namespace Herald

variable {κ : Type}

namespace Client

variable {t : Turn κ} {r r' : Registry κ}

def Waiting (ps : List (Parcel Command)) (r : Registry κ) : Prop :=
  ∀ sid s, r.find? sid = some s → 0 < s.max → ∀ cap, Parcel.lastCap sid ps = some cap →
    cap = some s.max

theorem Waiting.nil (r : Registry κ) : Waiting [] r := nofun

theorem Waiting.time {ps : List (Parcel Command)} {op : Registry.Op κ} (h : Waiting ps r)
    (ht : op.Timing) : Waiting ps (r.apply op).2 := by
  intro sid s' hs'
  obtain ⟨f, hf⟩ := ht.find? r sid
  rw [hf] at hs'
  obtain ⟨s, hs, rfl⟩ := Option.map_eq_some_iff.1 hs'
  exact h sid s hs

theorem Waiting.subscribe {ps : List (Parcel Command)} (h : Waiting ps r) (hr : r.Valid)
    (subject : String) (queue : Option String) (callback : κ) :
    Waiting ps (r.insert subject queue callback).2 := by
  intro sid s hs hm
  have hle := (hr.insert subject queue callback).sid_le hs
  by_cases he : sid = r.lastSid + 1
  · rw [he, hr.find?_insert_fresh] at hs
    rw [← Option.some.inj hs] at hm
    cases hm
  · have hle : sid ≤ r.lastSid + 1 := hle
    rw [Registry.Valid.find?_insert_of_le (by omega)] at hs
    exact h sid s hs hm

theorem Waiting.unsubscribe {ps : List (Parcel Command)} (h : Waiting ps r) (n max : Nat) :
    Waiting (ps ++ [.command (.unsub n (some max))]) (r.unsubscribe n max).2 := by
  intro sid s' hs' hm cap hcap
  obtain ⟨s, hs, rfl⟩ := Registry.find?_unsubscribe_eq_some hs'
  rw [Parcel.lastCap_append] at hcap
  by_cases hn : n = sid
  · subst hn
    rw [Parcel.lastCap_unsub] at hcap
    rw [if_pos rfl]
    exact (Option.some.inj hcap).symm
  · rw [Parcel.lastCap_eq_none (by simp [Parcel.sid?, Command.sid?, hn]), Option.none_or] at hcap
    rw [if_neg hn] at hm ⊢
    exact h sid s hs hm cap hcap

/-- What a use that is not about subscriptions leaves waiting is what waited, or nothing. -/
theorem lastCap_aside (o : Outbox Command (RoundTrip κ)) {op : Use κ} (h : op.Aside) (sid : Nat) :
    Parcel.lastCap sid (o.apply op).2.2.pending = Parcel.lastCap sid o.pending ∨
      (o.apply op).2.2.pending = [] := by
  have hsend (o : Outbox Command (RoundTrip κ)) {p : Parcel Command} (hp : p.sid? = none) :
      Parcel.lastCap sid (o.send p).2.pending = Parcel.lastCap sid o.pending := by
    unfold Outbox.send
    split
    · rfl
    · rw [Parcel.lastCap_append, Parcel.lastCap_eq_none (by simp [hp]), Option.none_or]
  cases op with
  | send c => exact .inl (hsend o h)
  | sendIfLive | breakWriter => exact .inl rfl
  | roundTrip callback => exact .inl (hsend { o with pongs := o.pongs ++ [callback] } rfl)
  | complete =>
    refine .inl ?_
    simp only [Outbox.apply, Outbox.complete]
    split <;> rfl
  | attach => exact h.elim
  | detach =>
    have hq : Parcel.lastCap sid (List.replicate o.inFlight .ping) = none := by
      refine Parcel.lastCap_eq_none fun p hp ↦ ?_
      rw [List.eq_of_mem_replicate hp]
      intro he
      cases he
    refine .inl ?_
    simp only [Outbox.apply, Outbox.detach]
    rw [Parcel.lastCap_append, hq, Option.or_none]
  | close => exact .inr rfl

theorem Acts.waiting {ops : List (Use κ)} (ha : Acts t r ops r') (hr : r.Valid)
    {o : Outbox Command (RoundTrip κ)} (hf : o.Flushed) (h : Waiting o.pending r) :
    Waiting (o.run ops).2.pending r' := by
  induction ha generalizing o with
  | nil => exact h
  | @use _ _ op _ ho _ ih =>
    rw [Outbox.run_cons]
    refine ih hr (hf.apply op) fun sid s hs hm cap hcap ↦ ?_
    rcases lastCap_aside o ho sid with he | he <;> rw [he] at hcap
    · exact h sid s hs hm cap hcap
    · cases hcap
  | time ho _ ih => exact ih (ho.valid hr) hf (h.time ho)
  | subscribe _ _ ih =>
    rw [Outbox.run_cons]
    exact ih (hr.insert _ _ _) hf (h.subscribe hr _ _ _)
  | @unsubscribe _ _ sid max _ _ _ ih =>
    rw [Outbox.run_cons]
    refine ih (hr.unsubscribe sid max) (hf.apply _) ?_
    simp only [Outbox.apply]
    cases ht : o.target with
    | none =>
      rw [Outbox.send_of_no_target ht]
      exact h.unsubscribe sid max
    | some w =>
      rw [Outbox.send_of_target ht, hf (by rw [ht]; rfl)]
      exact .nil _

theorem Waiting.hears {c : Client κ} (h : Waiting c.outbox.pending c.registry)
    (hr : c.registry.Valid) (m : Message) :
    Waiting (c.outbox.run (c.deliverUses m)).2.pending (c.registry.dispatch m).2 := by
  have hd : Waiting c.outbox.pending (c.registry.dispatch m).2 := by
    intro sid s' hs'
    obtain ⟨s, hs, -, hmax, -⟩ := hr.find?_dispatch_eq_some hs'
    rw [hmax]
    exact h sid s hs
  rcases deliverUses_cases hr m with hu | ⟨hu, hg⟩ <;> rw [hu]
  · exact hd
  · intro sid s hs hm cap hcap
    have hn : m.sid ≠ sid := by
      rintro rfl
      cases hs.symm.trans hg.2
    have hq : Parcel.lastCap sid [.command (.unsub m.sid none)] = none :=
      Parcel.lastCap_eq_none (by simp [Parcel.sid?, Command.sid?, hn])
    refine hd sid s hs hm cap ?_
    rw [Outbox.run_singleton] at hcap
    simp only [Outbox.apply, Outbox.send] at hcap
    split at hcap
    · exact hcap
    · rwa [Parcel.lastCap_append, hq, Option.none_or] at hcap

theorem Waiting.turn {c : Client κ} (h : Waiting c.outbox.pending c.registry)
    (hr : c.registry.Valid) (hf : c.outbox.Flushed) (t : Turn κ) :
    Waiting (c.turn t).client.outbox.pending (c.turn t).client.registry := by
  rw [(c.turn_follows t).outbox]
  cases turn_kind hr t with
  | binds _ _ _ _ _ hu =>
    rw [hu, Outbox.run_attach_roundTrip]
    exact .nil _
  | hears m _ hu hreg =>
    rw [hu, hreg]
    exact h.hears hr m
  | acts _ ha => exact ha.waiting hr hf h

theorem Waiting.turns {c : Client κ} (h : Waiting c.outbox.pending c.registry)
    (hr : c.registry.Valid) (hf : c.outbox.Flushed) (ts : List (Turn κ)) :
    Waiting (c.turns ts).2.outbox.pending (c.turns ts).2.registry := by
  induction ts generalizing c with
  | nil => exact h
  | cons t ts ih => exact ih (h.turn hr hf t) (turn_valid hr t) (flushed_turn hf t)

def receivedBy (c : Client κ) (sid : Nat) : Nat :=
  ((c.registry.find? sid).map (·.received)).getD 0

theorem handshake_lastCap {c : Client κ} (hr : c.registry.Valid) (uri : ServerUri) {sid : Nat}
    {s : Subscription κ} (hs : c.registry.find? sid = some s) (hm : 0 < s.max) :
    Parcel.lastCap sid ((c.handshake uri).map .command) = some (some (s.max - s.received)) := by
  have hf : ((c.handshake uri).map .command).filterMap (Parcel.cap? sid) =
      ((c.handshake uri).filter (·.sid? == some sid)).filterMap fun command ↦
        Parcel.cap? sid (.command command) := by
    rw [List.filterMap_map, List.filterMap_filter]
    refine List.filterMap_congr fun command _ ↦ ?_
    cases command <;> simp [Parcel.cap?, Command.sid?]
  obtain rfl := (Registry.find?_eq_some hs).2
  rw [Parcel.lastCap, hf, handshake_about c hr, hs]
  simp [Parcel.cap?, Subscription.announcement, hm]

/-- What a client has on a new connection once the handshake and all that waited is written. -/
theorem synced_handshake {c : Client κ} (hr : c.registry.Valid)
    (hw : Waiting c.outbox.pending c.registry) (hq : ∀ sid, Parcel.subs sid c.outbox.pending = [])
    (uri : ServerUri) (tr : List Traffic) :
    Synced c.receivedBy ((c.handshake uri).map .command) (c.outbox.pending ++ [.ping])
      (tr ++ ((c.handshake uri).map Parcel.command ++ c.outbox.pending ++ [Parcel.ping]).map .wrote)
      c.registry where
  fresh sid hlt := by
    rw [receivedBy, hr.find?_fresh hlt]
    rfl
  tallies sid s hs := by
    have hb : c.receivedBy sid = s.received := by
      rw [receivedBy, hs]
      rfl
    have hp : Parcel.lastCap sid (c.outbox.pending ++ [.ping]) =
        Parcel.lastCap sid c.outbox.pending := by
      rw [Parcel.lastCap_append, Parcel.lastCap_eq_none (by simp [Parcel.sid?]), Option.none_or]
    refine ⟨?_, fun hm _ ↦ ?_, fun hm cap hcap ↦ ?_⟩
    · have hsubs : Parcel.subs sid
          ((c.handshake uri).map .command ++ c.outbox.pending ++ [.ping]) ≠ [] := by
        rw [Parcel.subs_append, Parcel.subs_append, handshake_subs c hr, hs, hq]
        exact List.cons_ne_nil _ _
      rw [Traffic.heardSince_append, Traffic.foldl_count_subs hsubs, hb, Nat.zero_add]
    · rw [handshake_lastCap hr uri hs hm, hb]
    · exact hw sid s hs hm cap (hp ▸ hcap)

/-- The connection with a number was taken in several turns, by the client as it was before, and
since then `rest` was written on it after the handshake. -/
structure Taken (c : Client κ) (ts : List (Turn κ)) (n : Nat) (b : Client κ) (uri : ServerUri)
    (rest : List (Parcel Command)) : Prop where
  split : ∃ before u after, ts = before ++ .event (.connected u) :: after ∧
    (c.turns before).2 = b
  binds : b.bind?.isSome
  address : b.uri = some uri
  number : b.generation + 1 = n
  written : Traffic.written (c.traffic n ts) = (b.handshake uri).map .command ++ rest

theorem Taken.next {c : Client κ} {ts : List (Turn κ)} {n : Nat} {b : Client κ} {uri : ServerUri}
    {rest : List (Parcel Command)} (h : Taken c ts n b uri rest) (t : Turn κ) :
    Taken c (ts ++ [t]) n b uri (rest ++ Sent.received ((c.turns ts).2.turn t).written n) where
  split := by
    obtain ⟨before, u, after, rfl, hb⟩ := h.split
    exact ⟨before, u, after ++ [t], by simp, hb⟩
  binds := h.binds
  address := h.address
  number := h.number
  written := by
    rw [traffic_snoc, written_append, h.written, written_trafficAt, List.append_assoc]

theorem Taken.start {c b : Client κ} {ts : List (Turn κ)} {u uri : ServerUri}
    (hc : (c.turns ts).2 = b) (hb : b.bind?.isSome) (huri : b.uri = some uri)
    (hn : Traffic.written (c.traffic (b.generation + 1) ts) = []) {rest : List (Parcel Command)}
    (ht : b.trafficAt (b.generation + 1) (.event (.connected u)) =
      ((b.handshake uri).map Parcel.command ++ rest).map .wrote) :
    Taken c (ts ++ [.event (.connected u)]) (b.generation + 1) b uri rest where
  split := ⟨ts, u, [], rfl, hc⟩
  binds := hb
  address := huri
  number := rfl
  written := by
    rw [traffic_snoc, hc, ht, written_append, hn, written_wrote]
    rfl

/-- The connection of an open writer was taken at some time, and all that passed on it agrees with
the subscriptions. -/
theorem taken_of_target (options : ClientOptions) (ts : List (Turn κ)) {w : Writer}
    (hw : (Client.turns { options } ts).2.outbox.target = some w) :
    ∃ b uri rest, Taken ({ options } : Client κ) ts w.number b uri rest ∧
      Synced b.receivedBy ((b.handshake uri).map .command) rest
        (({ options } : Client κ).traffic w.number ts)
        (Client.turns { options } ts).2.registry := by
  -- The last turn takes the connection of `w`, or finds it taken already: then `w` is as before.
  induction ts using List.reverseRecOn generalizing w with
  | nil => cases hw
  | append_singleton ts t ih =>
    have hr : (Client.turns ({ options } : Client κ) ts).2.registry.Valid := turns_valid .new ts
    have hl := linked_turns (c := ({ options } : Client κ)) rfl ts
    have hm := (Mirrors.new (κ := κ) options).turns .new rfl ts
    have hwait := Waiting.turns (c := ({ options } : Client κ)) (.nil _) .new (fun _ ↦ rfl) ts
    have hnext {n : Nat} {b : Client κ} {uri : ServerUri} {rest : List (Parcel Command)}
        (h : Taken ({ options } : Client κ) ts n b uri rest) := h.next t
    have hwritten := written_traffic ({ options } : Client κ)
    simp only [turns_snoc, traffic_snoc] at hw ⊢
    generalize hc : (Client.turns ({ options } : Client κ) ts).2 = c at *
    cases turn_up hr hw with
    | takes u uri hu huri hb hn hs hreg =>
      subst hn hu
      have ht : c.trafficAt (c.generation + 1) (.event (.connected u)) =
          ((c.handshake uri).map Parcel.command ++ (c.outbox.pending ++ [Parcel.ping])).map
            .wrote := by
        rw [trafficAt, hs, Sent.received_map, if_pos rfl, List.append_assoc]
        rfl
      have hn : Traffic.written (({ options } : Client κ).traffic (c.generation + 1) ts) = [] := by
        rw [hwritten]
        refine Sent.received_eq_nil fun sent hs he ↦ ?_
        have hle := hm.past sent hs
        omega
      refine ⟨c, uri, _, .start hc hb huri hn ht, ?_⟩
      rw [ht, hreg, ← List.append_assoc]
      exact synced_handshake hr hwait hm.unqueued uri _
    | hears m ht hopen hs hreg =>
      obtain ⟨b, uri, rest, h, hsync⟩ := ih hopen
      refine ⟨b, uri, _, hnext h, ?_⟩
      have hheard : (t.heard? w.number).map Traffic.heard = some (.heard m) := by
        rw [ht, number_of_target hl hopen, Turn.heard?, if_pos rfl]
        rfl
      rw [trafficAt, hheard, hs, hreg, ← List.append_assoc]
      exact hsync.hears hr m
    | acts ops hn hopen hs ha =>
      obtain ⟨b, uri, rest, h, hsync⟩ := ih hopen
      refine ⟨b, uri, _, hnext h, ?_⟩
      have hheard : t.heard? w.number = none := by
        unfold Turn.heard?
        split
        · rename_i generation m
          refine if_neg fun he ↦ hn m ?_
          rw [he, number_of_target hl hopen]
        · rfl
      rw [trafficAt, hheard, hs]
      exact ha.synced hr hsync

/-- The last count that was written for a capped subscription, less the messages for it since it was
announced, is what its cap still allows. If the count was written after the handshake, it is more by
what the subscription had received before the connection was taken. -/
def Allows (b : Client κ) (rest : List (Parcel Command)) (tr : List Traffic)
    (s : Subscription κ) : Prop :=
  ∃ n : Nat, Parcel.lastCap s.sid (Traffic.written tr) = some (some n) ∧
    (n : Int) - Traffic.heardSince s.sid tr = s.max - s.received +
      if (Parcel.lastCap s.sid rest).isSome then (b.receivedBy s.sid : Int) else 0

theorem Tallies.allows {b : Client κ} {said rest : List (Parcel Command)} {tr : List Traffic}
    {s : Subscription κ} (h : Tallies s.sid (b.receivedBy s.sid) said rest tr s) (hm : 0 < s.max)
    (ha : s.max = 0 ∨ s.received < s.max) (hw : Traffic.written tr = said ++ rest) :
    Allows b rest tr s := by
  have hh := h.heard
  rw [Allows, hw, Parcel.lastCap_append]
  cases hl : Parcel.lastCap s.sid rest with
  | none =>
    refine ⟨s.max - b.receivedBy s.sid, h.kept hm hl, ?_⟩
    simp only [Option.isSome_none, Bool.false_eq_true, if_false]
    omega
  | some cap =>
    refine ⟨s.max, by rw [h.changed hm cap hl]; rfl, ?_⟩
    simp only [Option.isSome_some, if_true]
    omega

/-- How the cap of a subscription is carried to a connection. The handshake tells the server what
the cap still allows, and it stays so; but a cap set while there is no connection, or since then, is
told whole, as if the subscription had received nothing before the connection. -/
theorem cap_carried (options : ClientOptions) (ts : List (Turn κ)) {w : Writer}
    (hw : (Client.turns { options } ts).2.outbox.target = some w) :
    let c : Client κ := (Client.turns { options } ts).2
    let tr := ({ options } : Client κ).traffic w.number ts
    Traffic.written tr = Sent.received
        ((Client.turns ({ options } : Client κ) ts).1.flatMap Reaction.written) w.number ∧
      ∃ b uri rest, Taken ({ options } : Client κ) ts w.number b uri rest ∧
        ∀ s ∈ c.registry.subs, 0 < s.max → Allows b rest tr s := by
  intro c tr
  have hr : c.registry.Valid := turns_valid .new ts
  obtain ⟨b, uri, rest, ht, hsync⟩ := taken_of_target options ts hw
  refine ⟨written_traffic _ _ ts, b, uri, rest, ht, fun s hs hm ↦ ?_⟩
  exact (hsync.tallies s.sid s (hr.mem_subs.1 hs)).allows hm (hr.allowed s hs) ht.written

def recapped : List (Turn Nat) :=
  [.event (.begin .localhost), .event (.connected .localhost),
    .event (.subscribe "news" none none 7), .event (.frame 1 (.message ⟨"news", 1, none, []⟩)),
    .event (.frame 1 (.message ⟨"news", 1, none, []⟩)), .event (.lost 1),
    .event (.unsubscribe 1 5), .event (.wake 0), .event (.connected .localhost)]

theorem cap_carried_recapped :
    (Client.turns ({ options := {} } : Client Nat) recapped).2.outbox.target = some ⟨2, true⟩ ∧
      ∃ b uri rest, Taken ({ options := {} } : Client Nat) recapped 2 b uri rest ∧
        ∀ s ∈ (Client.turns ({ options := {} } : Client Nat) recapped).2.registry.subs, 0 < s.max →
          Allows b rest (({ options := {} } : Client Nat).traffic 2 recapped) s := by
  have hw : (Client.turns ({ options := {} } : Client Nat) recapped).2.outbox.target =
      some ⟨2, true⟩ := by decide
  exact ⟨hw, (cap_carried {} recapped hw).2⟩

/-- A cap of five messages is set between two connections, after two messages on the first one. On
the second one the server is told of the three that are left, and then to send five. -/
theorem cap_not_carried :
    ¬∀ (options : ClientOptions) (ts : List (Turn Nat)) (w : Writer),
      (Client.turns ({ options } : Client Nat) ts).2.outbox.target = some w →
      ∀ s ∈ (Client.turns ({ options } : Client Nat) ts).2.registry.subs, 0 < s.max →
        ∃ n : Nat, Parcel.lastCap s.sid (Traffic.written
            (({ options } : Client Nat).traffic w.number ts)) = some (some n) ∧
          (n : Int) - Traffic.heardSince s.sid (({ options } : Client Nat).traffic w.number ts) =
            s.max - s.received := by
  intro h
  obtain ⟨n, hn, he⟩ := h {} recapped ⟨2, true⟩ (by decide)
    { sid := 1, subject := "news", queue := none, callback := 7, received := 2, max := 5 }
    (List.mem_singleton_self _) (by decide)
  have hl : Parcel.lastCap 1 (Traffic.written
      (({ options := {} } : Client Nat).traffic 2 recapped)) = some (some 5) := by decide
  have hh : Traffic.heardSince 1 (({ options := {} } : Client Nat).traffic 2 recapped) = 0 := by
    decide
  rw [hl] at hn
  obtain rfl := Option.some.inj (Option.some.inj hn)
  rw [hh] at he
  simp at he

end Client

end Herald
