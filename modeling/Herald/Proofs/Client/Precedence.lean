import Herald.Proofs.Client.Publishing
import Herald.Proofs.Client.ServerView

namespace Herald

variable {κ : Type}

namespace Parcel

def SubsFirst (ps : List (Parcel Command)) : Prop :=
  ∃ as bs, ps = as ++ bs ∧ pubs as = [] ∧ ∀ sid, subs sid bs = []

theorem pubs_eq_nil {ps : List (Parcel Command)} (h : pubs ps = []) {c : Command}
    (hc : .command c ∈ ps) : c.isPub = false := by
  have hm : c ∈ commands ps := List.mem_filterMap.2 ⟨_, hc, rfl⟩
  simpa using List.filter_eq_nil_iff.1 h c hm

/-- All announcements are made when the first publication comes. -/
theorem SubsFirst.subs_eq {ps earlier later : List (Parcel Command)} {c : Command}
    (h : SubsFirst ps) (hp : ps = earlier ++ .command c :: later) (hc : c.isPub) (sid : Nat) :
    subs sid earlier = subs sid ps := by
  obtain ⟨as, bs, rfl, ha, hb⟩ := h
  have hb := hb sid
  rw [subs_append, hb, List.append_nil]
  rcases List.append_eq_append_iff.1 hp with ⟨l, rfl, rfl⟩ | ⟨l, rfl, hl⟩
  · rw [subs_append, List.append_eq_nil_iff] at hb
    rw [subs_append, hb.1, List.append_nil]
  · cases l with
    | nil => rw [List.append_nil]
    | cons p l =>
      obtain ⟨rfl, -⟩ := List.cons.inj hl
      rw [pubs_eq_nil ha (List.mem_append_right _ List.mem_cons_self)] at hc
      cases hc

end Parcel

namespace Client

variable {t : Turn κ}

theorem subsFirst_bind {c : Client κ} (hq : ∀ sid, Parcel.subs sid c.outbox.pending = [])
    (uri : ServerUri) : Parcel.SubsFirst
      ((c.handshake uri).map Parcel.command ++ c.outbox.pending ++ [Parcel.ping]) := by
  refine ⟨_, _, List.append_assoc .., ?_, fun sid ↦ ?_⟩
  · rw [Parcel.pubs, Parcel.commands_map_command]
    exact List.filter_eq_nil_iff.2 fun d hd ↦ by simp [c.handshake_isPub uri d hd]
  · rw [Parcel.subs_append, hq]
    rfl

theorem publishUses_subs (subject : String) (reply : Option String) (payload : Bytes)
    (sid : Nat) : Parcel.subs sid ((publishUses (κ := κ) subject reply payload).flatMap
      Outbox.Op.parcels) = [] := by
  unfold publishUses
  split <;> rfl

theorem subscribeUses_pubs (c : Client κ) (subject : String) (queue : Option String)
    (max : Option Nat) :
    Parcel.pubs ((c.subscribeUses subject queue max).flatMap Outbox.Op.parcels) = [] := by
  unfold subscribeUses
  split
  · rfl
  · cases max <;> rfl

/-- At a turn that accepts a publication, it is handed over after all announcements, and to a
writer that stays in use. -/
theorem subsFirst_of_accepted {c : Client κ} {pub : Command} (h : t.accepted? = some pub) :
    (∀ op ∈ c.turnUses t, op.Plain) ∧
      Parcel.SubsFirst ((c.turnUses t).flatMap Outbox.Op.parcels) := by
  rcases t with e | _
  · cases e with
    | publish subject reply payload =>
      exact ⟨publishUses_plain subject reply payload, [], _, rfl, rfl,
        publishUses_subs subject reply payload⟩
    | publishAcked subject payload callback =>
      simp only [turnUses, uses]
      split
      · exact ⟨List.forall_mem_nil _, [], [], rfl, rfl, fun _ ↦ rfl⟩
      · have hr : ∀ op ∈ [(.roundTrip (.user callback) : Use κ)], op.Plain := by
          simp [Outbox.Op.Plain]
        refine ⟨List.forall_mem_append.2 ⟨publishUses_plain subject none payload, hr⟩, [], _,
          (List.nil_append _).symm, rfl, fun sid ↦ ?_⟩
        rw [List.flatMap_append, Parcel.subs_append, publishUses_subs]
        rfl
    | request inbox subject payload queue max callback =>
      simp only [turnUses, uses]
      split
      · exact ⟨List.forall_mem_nil _, [], [], rfl, rfl, fun _ ↦ rfl⟩
      · exact ⟨List.forall_mem_append.2 ⟨c.subscribeUses_plain inbox queue max,
          publishUses_plain subject (some inbox) payload⟩, _, _, List.flatMap_append,
          c.subscribeUses_pubs inbox queue max, publishUses_subs subject (some inbox) payload⟩
    | setErrorHandler | setConnectHandler | flush | subscribe | unsubscribe | setTimeout | stop
    | begin | connected | connectFailed | frame | lost | wake | attemptFailed | expire => cases h
  · cases h

/-- A turn that writes a publication writes it after all announcements, on a connection that is
still in use then. -/
theorem subsFirst_of_written {c : Client κ} (hr : c.registry.Valid)
    (hq : ∀ sid, Parcel.subs sid c.outbox.pending = []) {n : Nat} {pub : Command}
    (hs : ⟨n, .command pub⟩ ∈ (c.turn t).written) (hp : pub.isPub) :
    ∃ w ps, (c.turn t).client.outbox.target = some w ∧
      (c.turn t).written = ps.map (⟨w.number, ·⟩) ∧ Parcel.SubsFirst ps := by
  have hf := c.turn_follows t
  have hkeeps (ha : ∀ op ∈ c.turnUses t, op.attachment? = none) :
      ∃ pub, t.accepted? = some pub := by
    rw [hf.written] at hs
    obtain ⟨op, hop, hm⟩ := List.mem_flatMap.1 (Outbox.mem_parcels_of_handed ha hs)
    have hsends := c.turnUses_sends t
    cases op with
    | send d =>
      obtain rfl := Parcel.command.inj (List.mem_singleton.1 hm)
      have hc : pub ∈ ((c.turnUses t).filterMap Outbox.Op.command?).filter Command.isPub :=
        List.mem_filter.2 ⟨List.mem_filterMap.2 ⟨_, hop, rfl⟩, hp⟩
      rw [hsends.commands] at hc
      exact ⟨pub, Option.mem_toList.1 hc⟩
    | sendIfLive d =>
      obtain rfl := Parcel.command.inj (List.mem_singleton.1 hm)
      have hk : pub.isPub = false := (hsends.keeps _ hop).resolve_left nofun
      rw [hk] at hp
      cases hp
    | roundTrip => cases List.mem_singleton.1 hm
    | complete | attach | detach | breakWriter | close => cases hm
  have hplain (ha : ∀ op ∈ c.turnUses t, op.attachment? = none) :
      ∃ w ps, (c.turn t).client.outbox.target = some w ∧
        (c.turn t).written = ps.map (⟨w.number, ·⟩) ∧ Parcel.SubsFirst ps := by
    obtain ⟨_, hacc⟩ := hkeeps ha
    obtain ⟨hpl, hfirst⟩ := subsFirst_of_accepted (c := c) hacc
    rw [hf.written] at hs ⊢
    obtain ⟨w, hw, -⟩ := Outbox.handed_run ha hs
    have hw' := (Outbox.target_congr (Outbox.run_plain_writer hpl)).trans hw
    exact ⟨w, _, hf.outbox ▸ hw', (Outbox.run_of_target ha hw').2, hfirst⟩
  cases turn_kind hr t with
  | binds _ uri _ _ _ hu =>
    refine ⟨⟨c.generation + 1, true⟩, _, ?_, ?_, subsFirst_bind hq uri⟩
    · rw [hf.outbox, hu, Outbox.run_attach_roundTrip]
      rfl
    · rw [hf.written, hu, Outbox.run_attach_roundTrip]
  | hears m _ hu =>
    refine hplain fun op hop ↦ ?_
    rw [hu] at hop
    rcases deliverUses_cases hr m with hd | ⟨hd, -⟩ <;> rw [hd] at hop
    · cases hop
    · obtain rfl := List.mem_singleton.1 hop
      rfl
  | acts _ ha => exact hplain ha.attachment?_eq_none

/-- A subscription is announced before anything is published after it. -/
theorem announced_before_published (options : ClientOptions) (before us : List (Turn κ))
    {e : Event κ} {t : Turn κ} {subject : String} {queue : Option String} {callback : κ}
    (hs : (.event e : Turn κ).subscribes? = some (subject, queue, callback))
    (he : (us ++ [t]).head? = some (.event e)) :
    let b : Client κ := (Client.turns { options } before).2
    let c : Client κ := (b.turns us).2
    let log := (Client.turns ({ options } : Client κ) (before ++ us)).1.flatMap Reaction.written
    ∃ sid, (b.step e).1 = .sid sid ∧
      ∀ earlier later n pub, (c.turn t).written = earlier ++ ⟨n, .command pub⟩ :: later →
        pub.isPub → (∃ s ∈ (c.turn t).client.registry.subs, s.sid = sid) →
        Parcel.subs sid (Sent.received (log ++ earlier) n) = [.sub subject queue sid] := by
  intro b c log
  refine ⟨_, step_subscribes hs, ?_⟩
  rintro earlier later n pub hw hp ⟨s, hl, hn⟩
  have hc : c = (Client.turns { options } (before ++ us)).2 := by rw [turns_append]
  have hr : c.registry.Valid := hc ▸ turns_valid .new _
  have hm : Mirrors log c := hc ▸ (Mirrors.new options).turns .new rfl _
  have hlink : Linked c.outbox c.standing := hc ▸ linked_turns (c := { options }) rfl _
  obtain ⟨w, ps, ht, hps, hfirst⟩ := subsFirst_of_written hr hm.unqueued
    (hw ▸ List.mem_append_right _ List.mem_cons_self) hp
  have hone := ((hm.turn hr hlink t).announced w ht).once s hl
  rw [hps] at hw hone
  obtain ⟨as, bs, rfl, rfl, hb⟩ := List.map_eq_append_iff.1 hw
  obtain ⟨p, ds, rfl, hpn, rfl⟩ := List.map_eq_cons_iff.1 hb
  obtain ⟨rfl, rfl⟩ := Sent.mk.inj hpn
  rw [Sent.received_append, Sent.received_map, if_pos rfl, Parcel.subs_append] at hone ⊢
  -- The announcements of the turn are made before its first publication.
  rw [← hfirst.subs_eq rfl hp, hn] at hone
  obtain ⟨after, ha⟩ := List.head?_eq_some_iff.1 he
  have hlast : (c.turn t).client = ((b.step e).2.client.turns after).2 := by
    have hsnoc := congrArg Prod.snd (b.turns_snoc us t)
    rw [ha] at hsnoc
    exact hsnoc.symm
  obtain ⟨h₁, h₂, -⟩ := subscription_kept (turns_valid .new before) hs after (hlast ▸ hl) hn
  rw [hone, h₁, h₂]

def outage : List (Turn Nat) :=
  [.event (.begin .localhost), .event (.connected .localhost), .event (.lost 1)]

def asking : Event Nat := .request "inbox" "time" [1] none none 7

def asked : List (Turn Nat) := [.event asking, .event (.wake 0)]

theorem announced_before_published_offline :
    let b : Client Nat := (Client.turns { options := {} } outage).2
    let c := (b.turns asked).2
    let log := (Client.turns ({ options := {} } : Client Nat) (outage ++ asked)).1.flatMap
      Reaction.written
    (.event asking : Turn Nat).subscribes? = some ("inbox", none, 7) ∧
      (b.step asking).1 = .sid 1 ∧
      ∃ earlier later, (c.turn (.event (.connected .localhost))).written =
          earlier ++ ⟨2, .command (.pub "time" (some "inbox") [1])⟩ :: later ∧
        Parcel.subs 1 (Sent.received (log ++ earlier) 2) = [.sub "inbox" none 1] := by
  intro b c log
  have hs : (.event asking : Turn Nat).subscribes? = some ("inbox", none, 7) := rfl
  have he : (asked ++ [Turn.event (.connected .localhost)]).head? = some (.event asking) := rfl
  obtain ⟨sid, hsid, h⟩ := announced_before_published {} outage asked hs he
  obtain rfl : 1 = sid := Answer.sid.inj hsid
  have hw : (c.turn (.event (.connected .localhost))).written =
      [⟨2, .command (.connect ⟨false, false, none, none⟩)⟩, ⟨2, .command (.sub "inbox" none 1)⟩,
        ⟨2, .ping⟩] ++ ⟨2, .command (.pub "time" (some "inbox") [1])⟩ :: [⟨2, .ping⟩] := by decide
  have hl : ∃ s ∈ (c.turn (.event (.connected .localhost))).client.registry.subs, s.sid = 1 :=
    ⟨_, List.mem_singleton_self _, rfl⟩
  have hb : (b.step asking).1 = .sid 1 := rfl
  have hh := h _ _ _ _ hw rfl hl
  exact ⟨hs, hb, _, _, hw, hh⟩

end Client

end Herald
