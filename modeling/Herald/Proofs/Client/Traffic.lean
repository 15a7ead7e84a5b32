import Herald.Proofs.Client.Announcements
import Mathlib.Data.List.Induction

namespace Herald

variable {κ : Type}

inductive Traffic
  | wrote (p : Parcel Command)
  | heard (m : Message)

def Traffic.wrote? : Traffic → Option (Parcel Command)
  | wrote p => some p
  | heard _ => none

def Traffic.written (tr : List Traffic) : List (Parcel Command) := tr.filterMap wrote?

def Traffic.count (sid n : Nat) : Traffic → Nat
  | wrote (.command (.sub _ _ k)) => if k = sid then 0 else n
  | heard m => if m.sid = sid then n + 1 else n
  | wrote _ => n

def Traffic.heardSince (sid : Nat) (tr : List Traffic) : Nat := tr.foldl (count sid) 0

def Parcel.cap? (sid : Nat) : Parcel Command → Option (Option Nat)
  | .command (.unsub n max) => if n = sid then some max else none
  | _ => none

def Parcel.lastCap (sid : Nat) (ps : List (Parcel Command)) : Option (Option Nat) :=
  (ps.filterMap (cap? sid)).getLast?

theorem Parcel.lastCap_append (sid : Nat) (ps qs : List (Parcel Command)) :
    lastCap sid (ps ++ qs) = (lastCap sid qs).or (lastCap sid ps) := by
  simp [lastCap, List.getLast?_append]

theorem Parcel.lastCap_eq_none {sid : Nat} {ps : List (Parcel Command)}
    (h : ∀ p ∈ ps, p.sid? ≠ some sid) : lastCap sid ps = none := by
  have hn : ps.filterMap (cap? sid) = [] := by
    refine List.filterMap_eq_nil_iff.2 fun p hp ↦ ?_
    have hp := h p hp
    unfold cap?
    split
    · rename_i n max
      exact if_neg fun he ↦ hp (congrArg some he)
    · rfl
  rw [lastCap, hn]
  rfl

theorem Parcel.lastCap_unsub (sid : Nat) (max : Option Nat) :
    lastCap sid [.command (.unsub sid max)] = some max := by
  simp [lastCap, cap?]

theorem Traffic.heardSince_append (sid : Nat) (tr tr' : List Traffic) :
    heardSince sid (tr ++ tr') = tr'.foldl (count sid) (heardSince sid tr) :=
  List.foldl_append

theorem Traffic.foldl_count_wrote {sid : Nat} {ps : List (Parcel Command)}
    (h : Parcel.subs sid ps = []) (n : Nat) : (ps.map wrote).foldl (count sid) n = n := by
  induction ps with
  | nil => rfl
  | cons p ps ih =>
    rw [show p :: ps = [p] ++ ps from rfl, Parcel.subs_append, List.append_eq_nil_iff] at h
    have hp : count sid n (wrote p) = n := by
      cases p with
      | ping => rfl
      | command c =>
        cases c with
        | sub subject queue k =>
          have hk : k ≠ sid := by
            rintro rfl
            simp [Parcel.subs, Command.isSub] at h
          exact if_neg hk
        | connect | pub | unsub | ping | pong => rfl
    rw [List.map_cons, List.foldl_cons, hp]
    exact ih h.2

/-- Nothing is heard while parcels are written, of which one subscribes. -/
theorem Traffic.foldl_count_subs {sid : Nat} {ps : List (Parcel Command)}
    (h : Parcel.subs sid ps ≠ []) (n : Nat) : (ps.map wrote).foldl (count sid) n = 0 := by
  induction ps using List.reverseRecOn with
  | nil => exact (h rfl).elim
  | append_singleton ps p ih =>
    rw [List.map_append, List.foldl_append]
    rw [Parcel.subs_append] at h
    by_cases hp : Parcel.subs sid [p] = []
    · rw [foldl_count_wrote hp]
      exact ih (by simpa [hp] using h)
    · cases p with
      | ping => exact (hp rfl).elim
      | command c =>
        cases c with
        | sub subject queue k =>
          have hk : k = sid := by
            by_contra hk
            simp [Parcel.subs, Command.isSub, hk] at hp
          exact if_pos hk
        | connect | pub | unsub | ping | pong => exact (hp rfl).elim

def Turn.heard? (n : Nat) : Turn κ → Option Message
  | .event (.frame generation (.message m)) => if generation = n then some m else none
  | _ => none

namespace Client

/-- What passes on the connection with a number at a turn: what the server sends comes first. -/
def trafficAt (c : Client κ) (n : Nat) (t : Turn κ) : List Traffic :=
  ((t.heard? n).map .heard).toList ++ (Sent.received (c.turn t).written n).map .wrote

def traffic (c : Client κ) (n : Nat) : List (Turn κ) → List Traffic
  | [] => []
  | t :: ts => c.trafficAt n t ++ (c.turn t).client.traffic n ts

theorem traffic_snoc (c : Client κ) (n : Nat) (ts : List (Turn κ)) (t : Turn κ) :
    c.traffic n (ts ++ [t]) = c.traffic n ts ++ (c.turns ts).2.trafficAt n t := by
  induction ts generalizing c with
  | nil => exact List.append_nil _
  | cons u ts ih =>
    simp only [List.cons_append, traffic, ih, List.append_assoc]
    rfl

theorem written_append (tr tr' : List Traffic) :
    Traffic.written (tr ++ tr') = Traffic.written tr ++ Traffic.written tr' :=
  List.filterMap_append

theorem written_wrote (ps : List (Parcel Command)) : Traffic.written (ps.map .wrote) = ps := by
  simp [Traffic.written, List.filterMap_map, Function.comp_def, Traffic.wrote?]

theorem written_trafficAt (c : Client κ) (n : Nat) (t : Turn κ) :
    Traffic.written (c.trafficAt n t) = Sent.received (c.turn t).written n := by
  have hh : Traffic.written ((t.heard? n).map Traffic.heard).toList = [] := by
    cases t.heard? n <;> rfl
  rw [trafficAt, written_append, written_wrote, hh, List.nil_append]

/-- The written part of the traffic is what the writer of the connection was handed. -/
theorem written_traffic (c : Client κ) (n : Nat) (ts : List (Turn κ)) :
    Traffic.written (c.traffic n ts) =
      Sent.received ((c.turns ts).1.flatMap Reaction.written) n := by
  induction ts generalizing c with
  | nil => rfl
  | cons t ts ih =>
    rw [traffic, written_append, written_trafficAt, ih, ← Sent.received_append]
    rfl

/-- What was written on a connection, `said` first and then `rest`, and what passed on it altogether
tell how far a subscription has come since, when `base` is what it had received before. The last
count that the server was told is what the handshake said, or else the whole cap. -/
structure Tallies (sid base : Nat) (said rest : List (Parcel Command)) (tr : List Traffic)
    (s : Subscription κ) : Prop where
  heard : Traffic.heardSince sid tr + base = s.received
  kept : 0 < s.max → Parcel.lastCap sid rest = none →
    Parcel.lastCap sid said = some (some (s.max - base))
  changed : 0 < s.max → ∀ cap, Parcel.lastCap sid rest = some cap → cap = some s.max

section

variable {sid base : Nat} {said rest : List (Parcel Command)} {tr : List Traffic}
  {s s' : Subscription κ}

/-- Parcels that are not about a subscription change nothing for it. -/
theorem Tallies.aside (h : Tallies sid base said rest tr s) (hr : s'.received = s.received)
    (hm : s'.max = s.max) {qs : List (Parcel Command)} (hq : ∀ p ∈ qs, p.sid? ≠ some sid) :
    Tallies sid base said (rest ++ qs) (tr ++ qs.map .wrote) s' := by
  have hc : Parcel.lastCap sid (rest ++ qs) = Parcel.lastCap sid rest := by
    rw [Parcel.lastCap_append, Parcel.lastCap_eq_none hq, Option.none_or]
  refine ⟨?_, ?_, ?_⟩
  · rw [Traffic.heardSince_append, Traffic.foldl_count_wrote (Parcel.subs_eq_nil_of_sid? hq), hr]
    exact h.heard
  · rw [hc, hm]
    exact h.kept
  · rw [hc, hm]
    exact h.changed

theorem Tallies.unsubscribe (h : Tallies sid base said rest tr s) (hr : s'.received = s.received)
    {max : Nat} (hm : s'.max = max) :
    Tallies sid base said (rest ++ [.command (.unsub sid (some max))])
      (tr ++ [.wrote (.command (.unsub sid (some max)))]) s' := by
  have hc : Parcel.lastCap sid (rest ++ [.command (.unsub sid (some max))]) = some (some max) := by
    rw [Parcel.lastCap_append, Parcel.lastCap_unsub]
    rfl
  refine ⟨?_, fun _ hn ↦ ?_, fun _ cap hcap ↦ ?_⟩
  · rw [Traffic.heardSince_append, hr]
    exact h.heard
  · cases hc.symm.trans hn
  · rw [hm]
    exact Option.some.inj (hcap.symm.trans hc)

theorem Tallies.hears (h : Tallies sid base said rest tr s) (hm : s'.max = s.max) {m : Message}
    (hr : s'.received = if m.sid = sid then s.received + 1 else s.received) :
    Tallies sid base said rest (tr ++ [.heard m]) s' := by
  refine ⟨?_, hm ▸ h.kept, hm ▸ h.changed⟩
  have hh := h.heard
  rw [Traffic.heardSince_append, hr]
  simp only [List.foldl_cons, List.foldl_nil, Traffic.count]
  split <;> omega

end

structure Synced (base : Nat → Nat) (said rest : List (Parcel Command)) (tr : List Traffic)
    (r : Registry κ) : Prop where
  fresh : ∀ sid, r.lastSid < sid → base sid = 0
  tallies : ∀ sid s, r.find? sid = some s → Tallies sid (base sid) said rest tr s

variable {t : Turn κ} {r r' : Registry κ} {base : Nat → Nat} {said rest : List (Parcel Command)}
  {tr : List Traffic}

theorem Synced.aside (h : Synced base said rest tr r) {qs : List (Parcel Command)}
    (hq : ∀ p ∈ qs, p.sid? = none) : Synced base said (rest ++ qs) (tr ++ qs.map .wrote) r where
  fresh := h.fresh
  tallies sid s hs := (h.tallies sid s hs).aside rfl rfl fun p hp ↦ by simp [hq p hp]

theorem Synced.time {op : Registry.Op κ} (h : Synced base said rest tr r) (ht : op.Timing) :
    Synced base said rest tr (r.apply op).2 where
  fresh sid hlt := h.fresh sid (ht.lastSid r ▸ hlt)
  tallies sid s' hs' := by
    obtain ⟨f, hf⟩ := ht.find? r sid
    rw [hf] at hs'
    obtain ⟨s, hs, rfl⟩ := Option.map_eq_some_iff.1 hs'
    have ht := h.tallies sid s hs
    exact ⟨ht.heard, ht.kept, ht.changed⟩

theorem Synced.subscribe (h : Synced base said rest tr r) (hr : r.Valid) (subject : String)
    (queue : Option String) (callback : κ) :
    Synced base said (rest ++ [.command (.sub subject queue (r.lastSid + 1))])
      (tr ++ [.wrote (.command (.sub subject queue (r.lastSid + 1)))])
      (r.insert subject queue callback).2 where
  fresh sid hlt := h.fresh sid (Nat.lt_of_succ_lt hlt)
  tallies sid s hs := by
    by_cases hle : sid ≤ r.lastSid
    · rw [Registry.Valid.find?_insert_of_le hle] at hs
      have hq : ∀ p ∈ [Parcel.command (.sub subject queue (r.lastSid + 1))], p.sid? ≠ some sid := by
        simp [Parcel.sid?, Command.sid?]
        omega
      exact (h.tallies sid s hs).aside rfl rfl hq
    · have hsid : sid = r.lastSid + 1 := by
        have hle := (hr.insert subject queue callback).sid_le hs
        have hl : (r.insert subject queue callback).2.lastSid = r.lastSid + 1 := rfl
        omega
      subst hsid
      rw [hr.find?_insert_fresh] at hs
      obtain rfl := Option.some.inj hs
      refine ⟨?_, fun hm ↦ absurd hm (Nat.lt_irrefl 0), fun hm ↦ absurd hm (Nat.lt_irrefl 0)⟩
      rw [Traffic.heardSince_append, h.fresh _ (Nat.lt_succ_self _)]
      exact if_pos rfl

theorem Synced.unsubscribe (h : Synced base said rest tr r) (n max : Nat) :
    Synced base said (rest ++ [.command (.unsub n (some max))])
      (tr ++ [.wrote (.command (.unsub n (some max)))]) (r.unsubscribe n max).2 where
  fresh sid hlt := h.fresh sid (Registry.unsubscribe_lastSid r n max ▸ hlt)
  tallies sid s' hs' := by
    obtain ⟨s, hs, rfl⟩ := Registry.find?_unsubscribe_eq_some hs'
    by_cases hn : n = sid
    · subst hn
      rw [if_pos rfl]
      refine (h.tallies n s hs).unsubscribe ?_ ?_ <;> rfl
    · rw [if_neg hn]
      have hq : ∀ p ∈ [Parcel.command (.unsub n (some max))], p.sid? ≠ some sid := by
        simp [Parcel.sid?, Command.sid?, hn]
      exact (h.tallies sid s hs).aside rfl rfl hq

theorem Acts.synced {ops : List (Use κ)} (ha : Acts t r ops r') (hr : r.Valid)
    (h : Synced base said rest tr r) :
    Synced base said (rest ++ ops.flatMap Outbox.Op.parcels)
      (tr ++ (ops.flatMap Outbox.Op.parcels).map .wrote) r' := by
  induction ha generalizing rest tr with
  | nil => simpa using h
  | use ho _ ih =>
    rw [List.flatMap_cons, List.map_append, ← List.append_assoc, ← List.append_assoc]
    exact ih hr (h.aside ho.parcels)
  | time ho _ ih => exact ih (ho.valid hr) (h.time ho)
  | subscribe _ _ ih =>
    rw [List.flatMap_cons, List.map_append, ← List.append_assoc, ← List.append_assoc]
    exact ih (hr.insert _ _ _) (h.subscribe hr _ _ _)
  | @unsubscribe _ _ sid max _ _ _ ih =>
    rw [List.flatMap_cons, List.map_append, ← List.append_assoc, ← List.append_assoc]
    exact ih (hr.unsubscribe sid max) (h.unsubscribe sid max)

theorem Synced.hears {c : Client κ} (h : Synced base said rest tr c.registry)
    (hr : c.registry.Valid) (m : Message) :
    Synced base said (rest ++ (c.deliverUses m).flatMap Outbox.Op.parcels)
      (tr ++ [.heard m] ++ ((c.deliverUses m).flatMap Outbox.Op.parcels).map .wrote)
      (c.registry.dispatch m).2 where
  fresh sid hlt := h.fresh sid (Registry.dispatch_lastSid c.registry m ▸ hlt)
  tallies sid s' hs' := by
    obtain ⟨s, hs, -, hmax, hreceived⟩ := hr.find?_dispatch_eq_some hs'
    -- The client writes only to end the subscription, which is then not live.
    refine ((h.tallies sid s hs).hears hmax hreceived).aside rfl rfl fun p hp ↦ ?_
    rcases deliverUses_cases hr m with hd | ⟨hd, hg⟩ <;> rw [hd] at hp
    · cases hp
    · obtain rfl := List.mem_singleton.1 hp
      intro he
      obtain rfl : m.sid = sid := Option.some.inj he
      cases hs'.symm.trans hg.2

end Client

end Herald
