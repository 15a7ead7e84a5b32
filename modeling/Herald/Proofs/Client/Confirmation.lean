import Herald.Proofs.Client.Ordinary
import Herald.Proofs.Client.Publishing
import Herald.Proofs.Client.RoundTrips
import Herald.Proofs.Outbox.Target

namespace Herald

variable {κ : Type}

/-- Over several turns a connection brings an answer to a request that it was handed after a
command. -/
def Confirmed (options : ClientOptions) (ts : List (Turn κ)) (command : Command) : Prop :=
  ∃ before g after ps, ts = before ++ .event (.frame g .pong) :: after ∧
    Sent.Processed (Client.log ({ options } : Client κ) before) g
      ((before.filterMap Turn.pong?).count g) ps ∧ .command command ∈ ps

theorem Turn.exists_pong {ts : List (Turn κ)} {g n : Nat}
    (h : n < (ts.filterMap Turn.pong?).count g) :
    ∃ before after, ts = before ++ .event (.frame g .pong) :: after ∧
      (before.filterMap Turn.pong?).count g = n := by
  rw [List.count_filterMap] at h
  obtain ⟨before, t, after, rfl, ht, hn⟩ := exists_split_of_lt_countP h
  obtain rfl := Turn.pong?_eq_some.1 (beq_iff_eq.1 ht)
  exact ⟨before, after, rfl, by rw [List.count_filterMap, hn]⟩

def Turn.Unasked : Turn κ → Prop
  | .event e => ¬e.Spoken
  | .broken => True

theorem Client.roundTrip_not_mem_uses (c : Client κ) {t : Turn κ} (ht : t.Unasked) (callback : κ) :
    .roundTrip (.user callback) ∉ c.turnUses t := by
  have hraise : .roundTrip (.user callback) ∉ c.raiseUses := fun h ↦
    nomatch eq_close_of_mem_raiseUses h
  rcases t with e | _
  · cases e with
    | begin | connectFailed | attemptFailed => exact List.not_mem_nil
    | connected uri =>
      simp only [turnUses, uses, bindUses]
      split <;> simp
    | frame generation f =>
      simp only [turnUses, uses]
      split
      · exact List.not_mem_nil
      · cases f with
        | message m =>
          simp only [receiveUses, deliverUses]
          split <;> simp
        | ok | info | ping | pong => simp [receiveUses]
        | error | unknown => exact hraise
    | lost generation =>
      simp only [turnUses, uses, lostUses]
      split
      · exact List.not_mem_nil
      · split <;> simp [hraise]
    | wake loop =>
      simp only [turnUses, uses, wakeUses]
      split
      · exact List.not_mem_nil
      · split <;> simp [hraise]
    | expire sid token callback =>
      simp only [turnUses, uses, expireUses]
      split <;> simp
    | _ => exact absurd trivial ht
  · simp [turnUses]

theorem Turn.Unasked.accepted? {t : Turn κ} (ht : t.Unasked) : t.accepted? = none := by
  rcases t with e | _
  · cases e with
    | publish | publishAcked | request => exact absurd trivial ht
    | _ => rfl
  · rfl

namespace Client

/-- A client that has accepted no publication hands none over. -/
theorem log_isPub {c : Client κ} {ts : List (Turn κ)} (ht : ∀ t ∈ ts, t.accepted? = none)
    (hq : ∀ command, .command command ∈ c.outbox.pending → command.isPub = false) :
    ∀ sent ∈ c.log ts, ∀ command, sent.parcel = .command command → command.isPub = false := by
  induction ts generalizing c with
  | nil => exact nofun
  | cons t ts ih =>
    have hs := c.turnUses_sends t
    rw [ht t List.mem_cons_self] at hs
    have hf := c.turn_follows t
    have hops : ∀ command ∈ (c.turnUses t).flatMap Outbox.Op.commands, command.isPub = false := by
      intro command hc
      obtain ⟨op, hop, hc⟩ := List.mem_flatMap.1 hc
      have hsend := List.filter_eq_nil_iff.1 hs.commands
      rcases hs.keeps op hop with rfl | hk
      · cases hc
      · cases op with
        | send d =>
          obtain rfl := List.mem_singleton.1 hc
          exact Bool.eq_false_iff.2 (hsend _ (List.mem_filterMap.2 ⟨_, hop, rfl⟩))
        | sendIfLive d =>
          obtain rfl := List.mem_singleton.1 hc
          exact hk
        | attach w preamble => exact hk.2 command hc
        | roundTrip | complete | detach | breakWriter | close => cases hc
    have hlog : c.log (t :: ts) = (c.turn t).written ++ (c.turn t).client.log ts := rfl
    rw [hlog]
    refine List.forall_mem_append.2 ⟨fun sent hsent command he ↦ ?_, ih (fun u hu ↦
      ht u (List.mem_cons_of_mem _ hu)) fun command hc ↦ ?_⟩
    · rw [hf.written] at hsent
      rcases Outbox.mem_handed_run hsent with hp | hp | ⟨d, hd, hp⟩
      · cases he.symm.trans hp
      · exact hq command (he ▸ hp)
      · cases he.symm.trans hp
        exact hops _ hd
    · rw [hf.outbox] at hc
      rcases Outbox.mem_pending_run hc with hp | hp | ⟨d, hd, hp⟩
      · cases hp
      · exact hq command hp
      · cases hp
        exact hops _ (Outbox.mem_commands_of_send hd)

def firstParcels (info : ConnectInfo) (pub? : Option Command) : List (Parcel Command) :=
  [.command (.connect info), .ping] ++ pub?.toList.map .command ++ [.ping]

/-- A client has just taken its first connection, published there what there was to publish, and
asked for an acknowledgement. -/
structure Posted (options : ClientOptions) (opening : List (Turn κ)) (pub? : Option Command)
    (callback : κ) : Prop where
  connected : (turns ({ options } : Client κ) opening).2.phase = .connected
  generation : (turns ({ options } : Client κ) opening).2.generation = 1
  pending : (turns ({ options } : Client κ) opening).2.outbox.pending = []
  pongs : (turns ({ options } : Client κ) opening).2.outbox.pongs =
    [.handshake 1, .user callback]
  log : ∃ info, Client.log ({ options } : Client κ) opening = (firstParcels info pub?).map (⟨1, ·⟩)
  silent : ∀ t ∈ opening, t.pong? = none
  kept : .event (.lost 1) ∉ opening

variable {options : ClientOptions} {opening us : List (Turn κ)} {pub? : Option Command}
  {callback : κ} {c : Client κ} {t : Turn κ}

/-- No publication is handed over after the one of the opening. -/
theorem Posted.received_log (h : Posted options opening pub? callback)
    (hu : ∀ t ∈ us, t.Unasked) (g : Nat) : ∃ info later,
      Sent.received (Client.log ({ options } : Client κ) (opening ++ us)) g =
        (if 1 = g then firstParcels info pub? else []) ++ later ∧
      ∀ command, .command command ∈ later → command.isPub = false := by
  obtain ⟨info, hlog⟩ := h.log
  let d := (turns ({ options } : Client κ) opening).2
  refine ⟨info, Sent.received (d.log us) g, ?_, fun command hc ↦ ?_⟩
  · rw [log_append, hlog, Sent.received_append, Sent.received_map]
  · obtain ⟨sent, hs, he⟩ := List.mem_map.1 hc
    refine log_isPub (fun t ht ↦ (hu t ht).accepted?) ?_ sent (List.mem_filter.1 hs).1 command he
    rw [h.pending]
    exact fun _ hp ↦ by cases hp

theorem mem_firstParcels {info : ConnectInfo} {command : Command} (hp : command.isPub) :
    .command command ∈ firstParcels info pub? ↔ pub? = some command := by
  simp only [firstParcels, List.mem_append, List.mem_cons, List.mem_map, Option.mem_toList,
    List.not_mem_nil, or_false, reduceCtorEq, Parcel.command.injEq, exists_eq_right]
  refine or_iff_right fun he ↦ ?_
  cases he ▸ hp

/-- What is published at the start goes to the first connection only. -/
theorem Posted.mem_received_iff (h : Posted options opening pub? callback)
    (hu : ∀ t ∈ us, t.Unasked) {command : Command} (hp : command.isPub) (g : Nat) :
    .command command ∈ Sent.received (Client.log ({ options } : Client κ) (opening ++ us)) g ↔
      pub? = some command ∧ g = 1 := by
  obtain ⟨info, later, hrec, hlater⟩ := h.received_log hu g
  have hl : .command command ∉ later := fun hm ↦ by cases hp.symm.trans (hlater command hm)
  rw [hrec, List.mem_append, or_iff_left hl]
  split
  · rename_i hg
    rw [mem_firstParcels hp, and_iff_left hg.symm]
  · rename_i hg
    exact iff_of_false List.not_mem_nil fun hm ↦ hg hm.2.symm

/-- A publication that the server has dealt with comes after a request. -/
theorem countP_pos_of_firstParcels {info : ConnectInfo} {later ps qs : List (Parcel Command)}
    {command : Command} (hp : command.isPub) (hm : .command command ∈ ps)
    (h : firstParcels info pub? ++ later = ps ++ qs) : 0 < ps.countP Parcel.isPing := by
  rcases ps with _ | ⟨p, _ | ⟨q, ps⟩⟩
  · cases hm
  · obtain rfl := (List.cons.inj h).1
    obtain rfl := Parcel.command.inj (List.mem_singleton.1 hm)
    cases hp
  · obtain rfl := (List.cons.inj (List.cons.inj h).2).1
    exact List.countP_pos_iff.2 ⟨.ping, by simp, rfl⟩

/-- A publication is confirmed by the second answer on the connection that it was made on. -/
theorem Posted.confirmed_iff (h : Posted options opening pub? callback)
    (hu : ∀ t ∈ us, t.Unasked) {command : Command} (hp : command.isPub) :
    Confirmed options (opening ++ us) command ↔
      pub? = some command ∧ 2 ≤ (us.filterMap Turn.pong?).count 1 := by
  have hsilent : opening.filterMap Turn.pong? = [] := List.filterMap_eq_nil_iff.2 h.silent
  constructor
  · rintro ⟨before, g, after, ps, hts, ⟨qs, hr, hcount⟩, hm⟩
    -- The answer comes after the opening, which has none.
    obtain ⟨cs, rfl, rfl⟩ : ∃ cs, before = opening ++ cs ∧
        us = cs ++ .event (.frame g .pong) :: after := by
      rcases List.append_eq_append_iff.1 hts with ⟨cs, hb, hus⟩ | ⟨_ | ⟨t, cs⟩, hb, hus⟩
      · exact ⟨cs, hb, hus⟩
      · exact ⟨[], by simpa using hb.symm, by simpa using hus.symm⟩
      · obtain ⟨rfl, -⟩ := List.cons.inj hus
        cases h.silent _ (hb ▸ List.mem_append_right _ List.mem_cons_self)
    obtain ⟨info, later, hrec, -⟩ :=
      h.received_log (fun t ht ↦ hu t (List.mem_append_left _ ht)) g
    obtain ⟨hpub, rfl⟩ := (h.mem_received_iff (fun t ht ↦ hu t (List.mem_append_left _ ht)) hp
      g).1 (hr ▸ List.mem_append_left _ hm)
    have hone := countP_pos_of_firstParcels hp hm (hrec.symm.trans hr)
    rw [hcount, List.filterMap_append, hsilent, List.nil_append] at hone
    refine ⟨hpub, ?_⟩
    rw [List.filterMap_append, List.count_append]
    exact Nat.add_le_add hone (List.count_pos_iff.2 List.mem_cons_self)
  · rintro ⟨rfl, htwo⟩
    obtain ⟨cs, after, rfl, hn⟩ := Turn.exists_pong htwo
    obtain ⟨info, later, hrec, -⟩ :=
      h.received_log (fun t ht ↦ hu t (List.mem_append_left _ ht)) 1
    refine ⟨opening ++ cs, 1, after, [.command (.connect info), .ping, .command command],
      (List.append_assoc _ _ _).symm, ⟨later, hrec, ?_⟩, by simp⟩
    rw [List.filterMap_append, hsilent, List.nil_append, hn]
    rfl

def Past (c : Client κ) (g : Nat) : Prop :=
  g ≤ c.generation ∧ (c.generation = g → c.phase ≠ .connected)

theorem detach_mem_turnUses (c : Client κ) (hp : c.phase = .connected) :
    .detach ∈ c.turnUses (.event (.lost c.generation)) := by
  simp only [turnUses, uses, lostUses]
  rw [if_neg (by simp [hp])]
  exact List.mem_cons_self

theorem Past.turn {g : Nat} (h : c.Past g) (t : Turn κ) : (c.turn t).client.Past g := by
  obtain ⟨hle, hp⟩ := h
  have hm := c.turn_moves t
  show g ≤ (c.turn t).client.standing.2.1 ∧
    ((c.turn t).client.standing.2.1 = g → (c.turn t).client.standing.1 ≠ .connected)
  generalize c.turnUses t = ops at hm
  generalize (c.turn t).client.standing = s at hm
  cases hm with
  | stay | complete | snap => exact ⟨hle, hp⟩
  | wander _ hn | lose _ hn => exact ⟨hle, fun _ ↦ hn⟩
  | connect =>
    exact ⟨Nat.le_succ_of_le hle, fun he ↦ (Nat.ne_of_gt (Nat.lt_succ_of_le hle) he).elim⟩
  | stop | fall => exact ⟨Nat.le_succ_of_le hle, fun _ ↦ by simp [stopped]⟩

theorem Past.turns {g : Nat} (h : c.Past g) (ts : List (Turn κ)) : (c.turns ts).2.Past g := by
  induction ts generalizing c with
  | nil => exact h
  | cons t ts ih => exact ih (h.turn t)

theorem past_of_lost {g : Nat} (hle : g ≤ c.generation) :
    (c.turn (.event (.lost g))).client.Past g := by
  by_cases h : c.phase = .connected ∧ c.generation = g
  · obtain ⟨hp, rfl⟩ := h
    have hd := c.detach_mem_turnUses hp
    have hm := c.turn_moves (.event (.lost c.generation))
    show c.generation ≤ (c.turn _).client.standing.2.1 ∧
      ((c.turn _).client.standing.2.1 = c.generation → (c.turn _).client.standing.1 ≠ .connected)
    generalize c.turnUses _ = ops at hm hd
    generalize (c.turn _).client.standing = s at hm
    cases hm with
    | stay hs => exact (hs _ hd).elim
    | lose _ hn => exact ⟨Nat.le_refl _, fun _ ↦ hn⟩
    | fall => exact ⟨Nat.le_succ _, fun _ ↦ by simp [stopped]⟩
    | complete | snap | wander | connect | stop => simp at hd
  · exact Past.turn ⟨hle, fun hg hp ↦ h ⟨hp, hg⟩⟩ _

theorem past_of_mem {g : Nat} (hle : g ≤ c.generation) {ts : List (Turn κ)}
    (h : .event (.lost g) ∈ ts) : (c.turns ts).2.Past g := by
  induction ts generalizing c with
  | nil => cases h
  | cons t ts ih =>
    rcases List.mem_cons.1 h with rfl | h
    · exact (past_of_lost hle).turns ts
    · exact ih (Nat.le_trans hle (c.generation_le_turn t)) h

/-- Without a call of the application the client asks for no round trip, but for handshakes. -/
theorem user_mem_pongs (ht : t.Unasked) (h : .user callback ∈ (c.turn t).client.outbox.pongs) :
    .user callback ∈ c.outbox.pongs := by
  rw [(c.turn_follows t).outbox] at h
  refine (List.mem_append.1 ((Outbox.pongs_run_sublist _ _).subset h)).resolve_right fun hm ↦ ?_
  obtain ⟨op, hop, he⟩ := List.mem_filterMap.1 hm
  cases op with
  | roundTrip purpose =>
    obtain rfl := Option.some.inj he
    exact c.roundTrip_not_mem_uses ht callback hop
  | _ => cases he

theorem pongs_of_plain (ht : t.Unasked) (h : ∀ op ∈ c.turnUses t, op.Plain) :
    (c.turn t).client.outbox.pongs = c.outbox.pongs := by
  have hn : (c.turnUses t).filterMap Outbox.Op.callback? = [] := by
    refine List.filterMap_eq_nil_iff.2 fun op hop ↦ ?_
    rcases c.turnUses_ordinary t with ⟨_, _, -, -, -, hu⟩ | ho
    · exact (h (.attach _ _) (hu ▸ List.mem_cons_self)).elim
    · cases ho op hop with
      | trip callback => exact (c.roundTrip_not_mem_uses ht callback hop).elim
      | _ => rfl
  rw [(c.turn_follows t).outbox, Outbox.pongs_run (h _) (h _), hn, List.append_nil]

theorem count_pongs_append (us : List (Turn κ)) {ts : List (Turn κ)} {g : Nat}
    (h : ∀ t ∈ ts, t.pong? ≠ some g) :
    ((us ++ ts).filterMap Turn.pong?).count g = (us.filterMap Turn.pong?).count g := by
  rw [List.filterMap_append, List.count_append, Nat.add_eq_left, List.count_eq_zero]
  intro hm
  obtain ⟨t, ht, he⟩ := List.mem_filterMap.1 hm
  exact h t ht he

/-- A client is on its first connection, of whose two answers at most the first has come. -/
structure Expects (callback : κ) (us : List (Turn κ)) (c : Client κ) : Prop where
  kept : .event (.lost 1) ∉ us
  connected : c.phase = .connected
  generation : c.generation = 1
  answers : (us.filterMap Turn.pong?).count 1 ≤ 1
  pongs : c.outbox.pongs =
    [.handshake 1, .user callback].drop ((us.filterMap Turn.pong?).count 1)

/-- A client that has asked for an acknowledgement on its first connection is still to get it there,
has lost that connection before, or does not wait for one any more. -/
inductive Pends (callback : κ) (us : List (Turn κ)) (c : Client κ) : Prop
  | waits : Expects callback us c → Pends callback us c
  | lost : .event (.lost 1) ∈ us → (us.filterMap Turn.pong?).count 1 ≤ 1 → Pends callback us c
  | ended : (∀ callback, .user callback ∉ c.outbox.pongs) → Pends callback us c

/-- Nothing but an answer on it and its end bears on the connection. -/
theorem Expects.keeps (h : Expects callback us c)
    (hs : (c.turn t).client.standing = c.standing) (hd : .detach ∉ c.turnUses t)
    (hn : .complete ∉ c.turnUses t) (ho : (c.turn t).client.outbox.pongs = c.outbox.pongs) :
    Expects callback (us ++ [t]) (c.turn t).client := by
  have hone : t.pong? ≠ some 1 := fun he ↦ by
    obtain rfl := Turn.pong?_eq_some.1 he
    exact hn (h.generation ▸ History.turnUses_pong c ▸ List.mem_cons_self)
  have hlost : .event (.lost 1) ≠ t := fun he ↦
    hd (he ▸ h.generation ▸ c.detach_mem_turnUses h.connected)
  have hcount := count_pongs_append us (List.forall_mem_singleton.2 hone)
  refine ⟨by simp [h.kept, hlost], ?_, ?_, hcount ▸ h.answers, hcount ▸ ho.trans h.pongs⟩
  · exact (congrArg (·.1) hs).trans h.connected
  · exact (congrArg (·.2.1) hs).trans h.generation

/-- The second answer completes the last round trip of the application. -/
theorem Expects.complete (h : Expects callback us c)
    (ht : t = .event (.frame c.generation .pong))
    (hs : (c.turn t).client.standing = c.standing) :
    Pends callback (us ++ [t]) (c.turn t).client := by
  have hcount : ((us ++ [t]).filterMap Turn.pong?).count 1 =
      (us.filterMap Turn.pong?).count 1 + 1 := by
    simp [ht, h.generation, Turn.pong?]
  have hpongs : (c.turn t).client.outbox.pongs = [.handshake 1, .user callback].drop
      ((us.filterMap Turn.pong?).count 1 + 1) := by
    rw [(c.turn_follows t).outbox, ht, History.turnUses_pong, Outbox.run_singleton,
      ← List.tail_drop, ← h.pongs]
    exact c.outbox.complete_pongs
  rcases Nat.le_one_iff_eq_zero_or_eq_one.1 h.answers with hk | hk <;> rw [hk] at hpongs hcount
  · refine .waits ⟨by simp [h.kept, ht], ?_, ?_, Nat.le_of_eq hcount, hcount.symm ▸ hpongs⟩
    · exact (congrArg (·.1) hs).trans h.connected
    · exact (congrArg (·.2.1) hs).trans h.generation
  · exact .ended fun _ hm ↦ by cases hpongs ▸ hm

theorem Pends.turn (h : Pends callback us c) (ht : t.Unasked)
    (hq : .event (.lost 1) ∈ us ++ [t] → t.pong? ≠ some 1) :
    Pends callback (us ++ [t]) (c.turn t).client := by
  cases h with
  | ended hn => exact .ended fun callback hm ↦ hn callback (user_mem_pongs ht hm)
  | lost hl hc =>
    have hl := List.mem_append_left [t] hl
    exact .lost hl (count_pongs_append us (List.forall_mem_singleton.2 (hq hl)) ▸ hc)
  | waits h =>
    have hm := c.turn_moves t
    have hf := (c.turn_follows t).outbox
    have hplain := pongs_of_plain (c := c) ht
    have hkeeps := h.keeps (t := t)
    generalize c.turnUses t = ops at hm hf hplain hkeeps
    generalize hs : (c.turn t).client.standing = s at hm hkeeps
    cases hm with
    | stay hops => exact .waits (hkeeps rfl (hops _) (hops _) (hplain hops))
    | snap => exact .waits (hkeeps rfl (by simp) (by simp) (congrArg (·.pongs) hf))
    | complete he => exact h.complete he hs
    | wander hn | connect hn => exact (hn h.connected).elim
    | lose _ _ he =>
      have hone : ∀ u ∈ [t], u.pong? ≠ some 1 := by simp [he, Turn.pong?]
      exact .lost (by simp [he, h.generation]) (count_pongs_append us hone ▸ h.answers)
    | stop | fall => exact .ended fun _ hm ↦ by simp [hf, Outbox.run, Outbox.apply] at hm

theorem Pends.turns (h : Pends callback us c) {ts : List (Turn κ)} (ht : ∀ t ∈ ts, t.Unasked)
    (hq : .event (.lost 1) ∈ us ++ ts → ∀ t ∈ ts, t.pong? ≠ some 1) :
    Pends callback (us ++ ts) (c.turns ts).2 := by
  induction ts generalizing c us with
  | nil => exact (List.append_nil us).symm ▸ h
  | cons t ts ih =>
    obtain ⟨ht, hts⟩ := List.forall_mem_cons.1 ht
    rw [List.append_cons] at hq ⊢
    exact ih (h.turn ht fun hl ↦ hq (List.mem_append_left ts hl) t List.mem_cons_self) hts
      fun hl u hu ↦ hq hl u (List.mem_cons_of_mem t hu)

/-- An acknowledgement comes by the second answer on the connection that it was asked for on, if
that one is not lost. -/
theorem Pends.acked (h : Pends callback us c) {other : κ}
    (hc : (c.turn t).call = some (.acked other)) :
    .event (.lost 1) ∉ us ∧ t.pong? = some 1 ∧ (us.filterMap Turn.pong?).count 1 = 1 ∨
      .event (.lost 1) ∈ us ∧ (us.filterMap Turn.pong?).count 1 ≤ 1 := by
  obtain ⟨ht, pongs, hp⟩ := turn_call hc
  cases h with
  | waits h =>
    refine .inl ⟨h.kept, by rw [ht, h.generation]; rfl, ?_⟩
    rcases Nat.le_one_iff_eq_zero_or_eq_one.1 h.answers with hk | hk
    · have hpongs := h.pongs
      rw [hk, hp] at hpongs
      cases hpongs
    · exact hk
  | lost hl hle => exact .inr ⟨hl, hle⟩
  | ended hn => exact (hn other (hp ▸ List.mem_cons_self)).elim

/-- Answers on the first connection do not come once that one is lost. -/
theorem Pends.acked_iff {before after : List (Turn κ)} (h : Pends callback (us ++ before) c)
    {other : κ} (hc : (c.turn t).call = some (.acked other))
    (hq : .event (.lost 1) ∈ us ++ (before ++ t :: after) →
      ∀ u ∈ before ++ t :: after, u.pong? ≠ some 1) :
    2 ≤ ((us ++ (before ++ t :: after)).filterMap Turn.pong?).count 1 ↔
      .event (.lost 1) ∉ us ++ (before ++ t :: after) := by
  rcases h.acked hc with ⟨-, hone, hk⟩ | ⟨hl, hk⟩
  · refine iff_of_true ?_ fun hl ↦ hq hl t (by simp) hone
    rw [← List.append_assoc, List.filterMap_append, List.count_append, hk,
      List.filterMap_cons_some hone, List.count_cons_self]
    omega
  · have hl : .event (.lost 1) ∈ us ++ (before ++ t :: after) := by
      rw [← List.append_assoc]
      exact List.mem_append_left _ hl
    have hnone := hq hl
    refine iff_of_false ?_ (not_not_intro hl)
    rw [count_pongs_append us hnone]
    rw [count_pongs_append us fun u hu ↦ hnone u (List.mem_append_left _ hu)] at hk
    exact Nat.not_le.2 (Nat.lt_succ_of_le hk)

theorem Posted.pends (h : Posted options opening pub? callback) :
    Pends callback [] (turns ({ options } : Client κ) opening).2 :=
  .waits ⟨List.not_mem_nil, h.connected, h.generation, Nat.zero_le 1, h.pongs⟩

end Client

end Herald
