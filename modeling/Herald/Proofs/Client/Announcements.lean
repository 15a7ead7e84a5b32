import Herald.Proofs.Client.Acts
import Herald.Proofs.Client.Lifecycle

namespace Herald

variable {κ : Type}

def Parcel.subs (sid : Nat) (ps : List (Parcel Command)) : List Command :=
  (Parcel.commands ps).filter (Command.isSub sid)

theorem Parcel.subs_append (sid : Nat) (ps qs : List (Parcel Command)) :
    subs sid (ps ++ qs) = subs sid ps ++ subs sid qs := by
  simp [subs]

theorem Parcel.subs_eq_nil {sid : Nat} {ps : List (Parcel Command)} :
    subs sid ps = [] ↔ ∀ subject queue, .command (.sub subject queue sid) ∉ ps := by
  rw [subs, List.filter_eq_nil_iff]
  constructor
  · intro h subject queue hp
    have hc : Command.sub subject queue sid ∈ Parcel.commands ps :=
      List.mem_filterMap.2 ⟨_, hp, rfl⟩
    exact h _ hc (by simp [Command.isSub])
  · intro h command hc hsub
    obtain ⟨p, hp, he⟩ := List.mem_filterMap.1 hc
    cases p with
    | ping => cases he
    | command d =>
      obtain rfl := Option.some.inj he
      cases d with
      | sub subject queue n =>
        obtain rfl : n = sid := by simpa [Command.isSub] using hsub
        exact h subject queue hp
      | connect | pub | unsub | ping | pong => cases hsub

theorem Parcel.subs_eq_nil_of_sid? {sid : Nat} {ps : List (Parcel Command)}
    (h : ∀ p ∈ ps, p.sid? ≠ some sid) : subs sid ps = [] :=
  subs_eq_nil.2 fun _ _ hp ↦ h _ hp rfl

@[simp] theorem Subscription.announcement_sid (s : Subscription κ) :
    s.announcement.sid = s.sid := rfl

@[simp] theorem Subscription.announcement_subject (s : Subscription κ) :
    s.announcement.subject = s.subject := rfl

@[simp] theorem Subscription.announcement_queue (s : Subscription κ) :
    s.announcement.queue = s.queue := rfl

theorem Registry.Valid.filter_sid {r : Registry κ} (h : r.Valid) (sid : Nat) :
    r.subs.filter (·.sid == sid) = (r.find? sid).toList := by
  have hl (ss : List (Subscription κ)) (hs : (ss.map (·.sid)).Pairwise (· < ·)) :
      ss.filter (·.sid == sid) = (ss.find? (·.sid == sid)).toList := by
    induction ss with
    | nil => rfl
    | cons s ss ih =>
      obtain ⟨hlt, hs⟩ := List.pairwise_cons.1 hs
      by_cases he : s.sid = sid
      · have hn : ss.filter (·.sid == sid) = [] := by
          refine List.filter_eq_nil_iff.2 fun s' hs' ↦ ?_
          have hlt : s.sid < s'.sid := hlt s'.sid (List.mem_map_of_mem hs')
          simp only [beq_iff_eq]
          omega
        simp [he, hn]
      · simp [he, ih hs]
  exact hl r.subs h.ordered

namespace Client

structure Announced (ps : List (Parcel Command)) (r : Registry κ) : Prop where
  once : ∀ s ∈ r.subs, Parcel.subs s.sid ps = [.sub s.subject s.queue s.sid]
  fresh : ∀ sid, r.lastSid < sid → Parcel.subs sid ps = []

variable {t : Turn κ} {r r' : Registry κ} {ps : List (Parcel Command)}

theorem Announced.keep (h : Announced ps r) (hr' : r'.Valid) (hc : r.Continues r')
    (hl : r'.lastSid = r.lastSid) {qs : List (Parcel Command)}
    (hq : ∀ sid, Parcel.subs sid qs = []) : Announced (ps ++ qs) r' where
  once s hs := by
    have hf := hr'.mem_subs.1 hs
    obtain ⟨s₀, hs₀, ha⟩ := hc.find? s.sid s (hl ▸ hr'.sid_le hf) hf
    obtain ⟨hm, he⟩ := Registry.find?_eq_some hs₀
    have hone := h.once s₀ hm
    rw [he] at hone
    rw [Parcel.subs_append, hq, List.append_nil, hone, ha.subject, ha.queue]
  fresh sid hlt := by
    rw [Parcel.subs_append, hq, List.append_nil]
    exact h.fresh sid (hl ▸ hlt)

theorem Announced.subscribe (h : Announced ps r) (hr : r.Valid) (subject : String)
    (queue : Option String) (callback : κ) :
    Announced (ps ++ [.command (.sub subject queue (r.lastSid + 1))])
      (r.insert subject queue callback).2 where
  once s hs := by
    rw [Parcel.subs_append]
    rcases List.mem_append.1 hs with hs | hs
    · have hle := (hr.bounds s hs).2
      have hn : Parcel.subs s.sid [.command (.sub subject queue (r.lastSid + 1))] = [] := by
        simp [Parcel.subs, Command.isSub]
        omega
      rw [hn, List.append_nil, h.once s hs]
    · obtain rfl := List.mem_singleton.1 hs
      rw [h.fresh _ (Nat.lt_succ_self _)]
      simp [Parcel.subs, Command.isSub]
  fresh sid hlt := by
    have hlt : r.lastSid + 1 < sid := hlt
    have hn : Parcel.subs sid [.command (.sub subject queue (r.lastSid + 1))] = [] := by
      simp [Parcel.subs, Command.isSub]
      omega
    rw [Parcel.subs_append, hn, List.append_nil, h.fresh sid (by omega)]

theorem Acts.announced {ops : List (Use κ)} (ha : Acts t r ops r') (hr : r.Valid)
    (h : Announced ps r) : Announced (ps ++ ops.flatMap Outbox.Op.parcels) r' := by
  induction ha generalizing ps with
  | nil => exact (List.append_nil ps).symm ▸ h
  | use ho _ ih =>
    rw [List.flatMap_cons, ← List.append_assoc]
    exact ih hr (h.keep hr (.refl _) rfl fun _ ↦
      Parcel.subs_eq_nil_of_sid? fun p hp ↦ by simp [ho.parcels p hp])
  | @time r _ _ _ ho _ ih =>
    have hk : Announced (ps ++ []) _ := h.keep (ho.valid hr) (.time ho r) (ho.lastSid r) fun _ ↦ rfl
    rw [List.append_nil] at hk
    exact ih (ho.valid hr) hk
  | subscribe _ _ ih =>
    rw [List.flatMap_cons, ← List.append_assoc]
    exact ih (hr.insert _ _ _) (h.subscribe hr _ _ _)
  | @unsubscribe r _ sid max _ _ _ ih =>
    have hv := hr.unsubscribe sid max
    rw [List.flatMap_cons, ← List.append_assoc]
    exact ih hv (h.keep hv (.unsubscribe r sid max) (Registry.unsubscribe_lastSid r sid max)
      fun _ ↦ rfl)

theorem Announced.hears {c : Client κ} (h : Announced ps c.registry) (hr : c.registry.Valid)
    (m : Message) : Announced (ps ++ (c.deliverUses m).flatMap Outbox.Op.parcels)
      (c.registry.dispatch m).2 := by
  refine h.keep (hr.dispatch m) (.dispatch hr m) (Registry.dispatch_lastSid _ m) fun sid ↦ ?_
  rcases deliverUses_cases hr m with hu | ⟨hu, -⟩ <;> rw [hu] <;> rfl

/-- What a handshake says about a number is how the live subscription with that number stands. -/
theorem handshake_about (c : Client κ) (hr : c.registry.Valid) (uri : ServerUri) (sid : Nat) :
    (c.handshake uri).filter (·.sid? == some sid) =
      (c.registry.find? sid).toList.flatMap fun s ↦ .sub s.subject s.queue s.sid ::
        (s.announcement.remaining.map fun n ↦ Command.unsub s.sid (some n)).toList := by
  have hl (ss : List (Subscription κ)) : ((ss.map (·.announcement)).flatMap fun a ↦
      Command.sub a.subject a.queue a.sid ::
        (a.remaining.map fun n ↦ Command.unsub a.sid (some n)).toList).filter
          (·.sid? == some sid) =
      (ss.filter (·.sid == sid)).flatMap fun s ↦ .sub s.subject s.queue s.sid ::
        (s.announcement.remaining.map fun n ↦ Command.unsub s.sid (some n)).toList := by
    induction ss with
    | nil => rfl
    | cons s ss ih =>
      rw [List.map_cons, List.flatMap_cons, List.filter_append, ih, List.filter_cons]
      by_cases he : s.sid = sid
      · cases hn : s.announcement.remaining <;> simp [Command.sid?, hn, he]
      · cases s.announcement.remaining <;> simp [Command.sid?, he]
  rw [← hr.filter_sid, ← hl]
  rfl

theorem handshake_subs (c : Client κ) (hr : c.registry.Valid) (uri : ServerUri) (sid : Nat) :
    Parcel.subs sid ((c.handshake uri).map .command) =
      ((c.registry.find? sid).map fun s ↦ Command.sub s.subject s.queue s.sid).toList := by
  have hf : Parcel.subs sid ((c.handshake uri).map .command) =
      ((c.handshake uri).filter (·.sid? == some sid)).filter (Command.isSub sid) := by
    rw [Parcel.subs, Parcel.commands_map_command, List.filter_filter]
    refine List.filter_congr fun command _ ↦ ?_
    cases command <;> simp [Command.isSub, Command.sid?]
  rw [hf, handshake_about c hr]
  cases hs : c.registry.find? sid with
  | none => rfl
  | some s =>
    obtain rfl := (Registry.find?_eq_some hs).2
    cases hn : s.announcement.remaining <;> simp [Command.isSub, hn]

theorem announced_handshake {c : Client κ} (hr : c.registry.Valid) (uri : ServerUri)
    {qs : List (Parcel Command)} (hq : ∀ sid, Parcel.subs sid qs = []) :
    Announced ((c.handshake uri).map .command ++ qs) c.registry where
  once s hs := by
    rw [Parcel.subs_append, hq, handshake_subs c hr, hr.mem_subs.1 hs]
    rfl
  fresh sid hlt := by
    rw [Parcel.subs_append, hq, handshake_subs c hr, hr.find?_fresh hlt]
    rfl

/-- What was written on the connection in use announces the live subscriptions. No announcement
waits, and nothing was written for a connection to come. -/
structure Mirrors (log : List (Sent Command)) (c : Client κ) : Prop where
  announced : ∀ w, c.outbox.target = some w → Announced (Sent.received log w.number) c.registry
  unqueued : ∀ sid, Parcel.subs sid c.outbox.pending = []
  past : ∀ sent ∈ log, sent.writer ≤ c.generation

theorem Move.past {c : Client κ} {ops : List (Use κ)} {s : Phase × Nat × Bool}
    (hm : c.Move t ops s) (hl : Linked c.outbox c.standing) :
    c.generation ≤ s.2.1 ∧ ∀ sent ∈ (c.outbox.run ops).1, sent.writer ≤ s.2.1 := by
  have hcur {ops : List (Use κ)} (ho : ∀ op ∈ ops, op.attachment? = none) :
      ∀ sent ∈ (c.outbox.run ops).1, sent.writer ≤ c.generation := by
    intro sent hs
    obtain ⟨w, hw, he⟩ := Outbox.handed_run ho hs
    exact he ▸ Nat.le_of_eq (number_of_target hl hw)
  cases hm with
  | stay hp =>
    refine ⟨Nat.le_refl _, hcur fun op hop ↦ ?_⟩
    have hop := hp op hop
    cases op with
    | send | sendIfLive | roundTrip => rfl
    | complete | attach | detach | breakWriter | close => exact hop.elim
  | complete | snap | wander | lose => exact ⟨Nat.le_refl _, hcur (by simp [Outbox.Op.attachment?])⟩
  | stop | fall =>
    refine ⟨Nat.le_succ _, fun sent hs ↦ ?_⟩
    exact Nat.le_succ_of_le (hcur (by simp [Outbox.Op.attachment?]) sent hs)
  | connect =>
    refine ⟨Nat.le_succ _, fun sent hs ↦ ?_⟩
    rw [Outbox.run_attach_roundTrip] at hs
    obtain ⟨p, -, rfl⟩ := List.mem_map.1 hs
    exact Nat.le_refl _

theorem Acts.sends_no_sub {ops : List (Use κ)} (ha : Acts t r ops r') {command : Command}
    (hc : command ∈ ops.filterMap Outbox.Op.command?) (sid : Nat) : command.isSub sid = false := by
  induction ha with
  | nil => cases hc
  | @use _ _ op _ ho _ ih =>
    rw [Outbox.Op.filterMap_command?_cons] at hc
    rcases List.mem_append.1 hc with hc | hc
    · have hs := ho.commands (Outbox.Op.mem_commands (Option.mem_toList.1 hc))
      exact command.isSub_of_sid? (by simp [hs])
    · exact ih hc
  | time _ _ ih | subscribe _ _ ih => exact ih hc
  | unsubscribe _ _ ih =>
    rcases List.mem_cons.1 hc with rfl | hc
    · rfl
    · exact ih hc

/-- A client never has an announcement wait. -/
theorem turn_sends_no_sub {c : Client κ} (hr : c.registry.Valid) (t : Turn κ) {command : Command}
    (hc : command ∈ (c.turnUses t).filterMap Outbox.Op.command?) (sid : Nat) :
    command.isSub sid = false := by
  cases turn_kind hr t with
  | binds _ _ _ _ _ hu =>
    rw [hu] at hc
    cases hc
  | hears m _ hu =>
    rw [hu] at hc
    rcases deliverUses_cases hr m with hd | ⟨hd, -⟩ <;> rw [hd] at hc
    · cases hc
    · obtain rfl := List.mem_singleton.1 hc
      rfl
  | acts _ ha => exact ha.sends_no_sub hc sid

inductive Up (c : Client κ) (t : Turn κ) (w : Writer) : Prop
  | takes (u uri : ServerUri) : t = .event (.connected u) → c.uri = some uri → c.bind?.isSome →
    w = ⟨c.generation + 1, true⟩ → (c.turn t).written = ((c.handshake uri).map Parcel.command ++
      c.outbox.pending ++ [Parcel.ping]).map (⟨c.generation + 1, ·⟩) →
    (c.turn t).client.registry = c.registry → Up c t w
  | hears (m : Message) : t = .event (.frame c.generation (.message m)) →
    c.outbox.target = some w → Sent.received (c.turn t).written w.number =
      (c.deliverUses m).flatMap Outbox.Op.parcels →
    (c.turn t).client.registry = (c.registry.dispatch m).2 → Up c t w
  | acts (ops : List (Use κ)) : (∀ m, t ≠ .event (.frame c.generation (.message m))) →
    c.outbox.target = some w →
    Sent.received (c.turn t).written w.number = ops.flatMap Outbox.Op.parcels →
    Acts t c.registry ops (c.turn t).client.registry → Up c t w

theorem turn_up {c : Client κ} (hr : c.registry.Valid) {w : Writer}
    (hw : (c.turn t).client.outbox.target = some w) : c.Up t w := by
  have hf := c.turn_follows t
  rw [hf.outbox] at hw
  have hkeeps (ho : ∀ op ∈ c.turnUses t, op.attachment? = none) : c.outbox.target = some w ∧
      Sent.received (c.turn t).written w.number =
        (c.turnUses t).flatMap Outbox.Op.parcels := by
    obtain ⟨ht, hs⟩ := Outbox.run_of_target ho hw
    exact ⟨ht, by rw [hf.written, hs, Sent.received_map, if_pos rfl]⟩
  cases turn_kind hr t with
  | binds u uri ht huri hb hu hreg =>
    have hs := hf.written
    rw [hu, Outbox.run_attach_roundTrip] at hw hs
    exact .takes u uri ht huri hb (Option.some.inj hw).symm hs hreg
  | hears m ht hu hreg =>
    have ho : ∀ op ∈ c.turnUses t, op.attachment? = none := by
      rw [hu]
      rcases deliverUses_cases hr m with hd | ⟨hd, -⟩ <;> rw [hd] <;>
        simp [Outbox.Op.attachment?]
    obtain ⟨hw, hs⟩ := hkeeps ho
    exact .hears m ht hw (hu ▸ hs) hreg
  | acts hn ha =>
    obtain ⟨hw, hs⟩ := hkeeps ha.attachment?_eq_none
    exact .acts _ hn hw hs ha

theorem Mirrors.turn {log : List (Sent Command)} {c : Client κ} (h : Mirrors log c)
    (hr : c.registry.Valid) (hl : Linked c.outbox c.standing) (t : Turn κ) :
    Mirrors (log ++ (c.turn t).written) (c.turn t).client := by
  have hf := c.turn_follows t
  refine ⟨fun w hw ↦ ?_, fun sid ↦ ?_, fun sent hs ↦ ?_⟩
  · rw [Sent.received_append]
    cases turn_up hr hw with
    | takes _ uri _ _ _ hw hs hreg =>
      subst hw
      -- Nothing was written on this connection before, so that the handshake comes first.
      have hn : Sent.received log (c.generation + 1) = [] := by
        refine Sent.received_eq_nil fun sent hs he ↦ ?_
        have hle := h.past sent hs
        omega
      rw [hn, List.nil_append, hs, Sent.received_map, if_pos rfl, hreg, List.append_assoc]
      refine announced_handshake hr uri fun sid ↦ ?_
      rw [Parcel.subs_append, h.unqueued]
      rfl
    | hears m _ ht hs hreg =>
      rw [hs, hreg]
      exact (h.announced w ht).hears hr m
    | acts ops _ ht hs ha =>
      rw [hs]
      exact ha.announced hr (h.announced w ht)
  · rw [hf.outbox]
    refine Parcel.subs_eq_nil.2 fun subject queue hp ↦ ?_
    rcases Outbox.mem_pending_run hp with hp | hp | ⟨command, hc, hp⟩
    · cases hp
    · exact Parcel.subs_eq_nil.1 (h.unqueued sid) subject queue hp
    · have hn := turn_sends_no_sub hr t hc sid
      rw [← Parcel.command.inj hp] at hn
      simp [Command.isSub] at hn
  · obtain ⟨hg, hw⟩ := (c.turn_moves t).past hl
    rcases List.mem_append.1 hs with hs | hs
    · exact Nat.le_trans (h.past sent hs) hg
    · exact hw sent (hf.written ▸ hs)

theorem Mirrors.turns {log : List (Sent Command)} {c : Client κ} (h : Mirrors log c)
    (hr : c.registry.Valid) (hl : Linked c.outbox c.standing) (ts : List (Turn κ)) :
    Mirrors (log ++ (c.turns ts).1.flatMap Reaction.written) (c.turns ts).2 := by
  induction ts generalizing c log with
  | nil => exact (List.append_nil log).symm ▸ h
  | cons t ts ih =>
    have hs := ih (h.turn hr hl t) (turn_valid hr t) (linked_turn hl t)
    rw [List.append_assoc] at hs
    exact hs

theorem Mirrors.new (options : ClientOptions) : Mirrors [] ({ options } : Client κ) :=
  ⟨nofun, fun _ ↦ rfl, nofun⟩

theorem Acts.sub_fresh {ops : List (Use κ)} (ha : Acts t r ops r') {subject : String}
    {queue : Option String} {sid : Nat}
    (hc : .sub subject queue sid ∈ ops.flatMap Outbox.Op.commands) : r.lastSid < sid := by
  induction ha with
  | nil => cases hc
  | @use _ _ op _ ho _ ih =>
    rw [List.flatMap_cons] at hc
    rcases List.mem_append.1 hc with hc | hc
    · cases ho.commands hc
    · exact ih hc
  | time ho _ ih => exact ho.lastSid _ ▸ ih hc
  | subscribe _ _ ih =>
    rcases List.mem_cons.1 hc with he | hc
    · cases he
      exact Nat.lt_succ_self _
    · exact Nat.lt_of_succ_lt (ih hc)
  | unsubscribe _ _ ih =>
    rcases List.mem_cons.1 hc with he | hc
    · cases he
    · exact Registry.unsubscribe_lastSid _ _ _ ▸ ih hc

/-- No announcement is written for what has ended. -/
theorem subs_of_gone {c : Client κ} (hr : c.registry.Valid)
    (hq : ∀ sid, Parcel.subs sid c.outbox.pending = []) (t : Turn κ) {sid : Nat}
    (hg : c.registry.Gone sid) : Parcel.subs sid ((c.turn t).written.map (·.parcel)) = [] := by
  refine Parcel.subs_eq_nil.2 fun subject queue hp ↦ ?_
  obtain ⟨sent, hs, hp⟩ := List.mem_map.1 hp
  rw [(c.turn_follows t).written] at hs
  rcases Outbox.mem_handed_run hs with he | he | ⟨command, hc, he⟩
  · cases hp.symm.trans he
  · rw [hp] at he
    exact Parcel.subs_eq_nil.1 (hq sid) subject queue he
  obtain rfl := Parcel.command.inj (hp.symm.trans he)
  cases turn_kind hr t with
  | binds _ uri _ _ _ hu =>
    have hs := handshake_subs c hr uri sid
    rw [hg.2] at hs
    rw [hu] at hc
    have hc : Command.sub subject queue sid ∈ c.handshake uri := by
      simpa [Outbox.Op.commands] using hc
    exact Parcel.subs_eq_nil.1 hs subject queue (List.mem_map_of_mem hc)
  | hears m _ hu =>
    rw [hu] at hc
    rcases deliverUses_cases hr m with hd | ⟨hd, -⟩ <;> rw [hd] at hc
    · cases hc
    · cases List.mem_singleton.1 hc
  | acts _ ha => exact Nat.not_lt.2 hg.1 (ha.sub_fresh hc)

theorem turns_subs_of_gone {log : List (Sent Command)} {c : Client κ} (h : Mirrors log c)
    (hr : c.registry.Valid) (hl : Linked c.outbox c.standing) (ts : List (Turn κ)) {sid : Nat}
    (hg : c.registry.Gone sid) :
    Parcel.subs sid (((c.turns ts).1.flatMap Reaction.written).map (·.parcel)) = [] := by
  induction ts generalizing c log with
  | nil => rfl
  | cons t ts ih =>
    have hs := ih (h.turn hr hl t) (turn_valid hr t) (linked_turn hl t)
      (hg.continue (turn_continues hr t))
    simp only [Client.turns, List.flatMap_cons, List.map_append, Parcel.subs_append]
    rw [subs_of_gone hr h.unqueued t hg, hs]
    rfl

end Client

end Herald
