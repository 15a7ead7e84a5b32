import Herald.Proofs.Client.Acts
import Herald.Proofs.Client.Calls
import Herald.Proofs.Registry.Lifetime

namespace Herald

variable {κ : Type}

def Call.isMessage (sid : Nat) : Call κ → Bool
  | .message _ m => m.sid == sid
  | _ => false

def Event.cap? : Event κ → Option Nat
  | .subscribe _ _ max _ | .request _ _ _ _ max _ => max
  | _ => none

def Reaction.hearings (sid : Nat) (rs : List (Reaction κ)) : Nat :=
  (rs.filterMap (·.call)).countP (Call.isMessage sid)

theorem Reaction.hearings_cons (sid : Nat) (r : Reaction κ) (rs : List (Reaction κ)) :
    hearings sid (r :: rs) = (r.call.toList.countP (Call.isMessage sid)) + hearings sid rs := by
  unfold hearings
  rw [← List.countP_append]
  cases hc : r.call <;> simp [hc]

namespace Client

def farewells (sid : Nat) (ops : List (Use κ)) : Nat :=
  (ops.filterMap Outbox.Op.command?).countP (Command.isFarewell sid)

theorem farewells_cons (sid : Nat) (op : Use κ) (ops : List (Use κ)) : farewells sid (op :: ops) =
    op.command?.toList.countP (Command.isFarewell sid) + farewells sid ops := by
  rw [farewells, Outbox.Op.filterMap_command?_cons, List.countP_append]
  rfl

theorem farewells_append (sid : Nat) (xs ys : List (Use κ)) :
    farewells sid (xs ++ ys) = farewells sid xs + farewells sid ys := by
  simp [farewells]

def turnsUses (c : Client κ) : List (Turn κ) → List (Use κ)
  | [] => []
  | t :: ts => c.turnUses t ++ (c.turn t).client.turnsUses ts

inductive Capped (sid max : Nat) (r : Registry κ) (heard told : Nat) : Prop
  | live (s : Subscription κ) : r.find? sid = some s → s.max = max → s.received = heard →
    told = 0 → Capped sid max r heard told
  | ended : r.Gone sid → heard ≤ max → told = 1 → Capped sid max r heard told

variable {t : Turn κ} {r r' : Registry κ} {sid max heard told : Nat}

theorem Capped.heard_le (h : Capped sid max r heard told) (hr : r.Valid) (hm : 0 < max) :
    heard ≤ max := by
  cases h with
  | live s hs hcap hrec =>
    have ha := hr.allowed s (Registry.find?_eq_some hs).1
    omega
  | ended _ hle => exact hle

theorem Capped.time {op : Registry.Op κ} (h : Capped sid max r heard told) (ht : op.Timing) :
    Capped sid max (r.apply op).2 heard told := by
  cases h with
  | live s hs hcap hrec htold =>
    obtain ⟨f, hf⟩ := ht.find? r sid
    rw [hs] at hf
    exact .live _ hf hcap hrec htold
  | ended hg hh htold => exact .ended (hg.continue (.time ht r)) hh htold

theorem Capped.subscribe (h : Capped sid max r heard told) (hr : r.Valid) (subject : String)
    (queue : Option String) (callback : κ) :
    Capped sid max (r.insert subject queue callback).2 heard told := by
  cases h with
  | live s hs hcap hrec htold =>
    have hf := Registry.Valid.find?_insert_of_le (hr.sid_le hs) subject queue callback
    exact .live s (hf.trans hs) hcap hrec htold
  | ended hg hh htold => exact .ended (hg.continue (.insert r subject queue callback)) hh htold

/-- A capped subscription that the application leaves alone ends only when its time is up. -/
theorem Capped.unsubscribe (h : Capped sid max r heard told) (hr : r.Valid) (hm : 0 < max)
    (ht : ∀ n, t ≠ .event (.unsubscribe sid n)) {n m : Nat} (hc : t.Caps r n m) :
    Capped sid max (r.unsubscribe n m).2 heard
      (told + [Command.unsub n (some m)].countP (Command.isFarewell sid)) := by
  have hf := Registry.find?_unsubscribe r n m sid
  by_cases hn : n = sid
  · subst hn
    rw [if_pos rfl] at hf
    obtain ⟨s', hs', hz⟩ := hc.resolve_left (ht m)
    cases h with
    | live s hs hcap hrec htold =>
      obtain rfl : s' = s := Option.some.inj (hs'.symm.trans hs)
      obtain rfl : m = 0 := by omega
      rw [hs, Option.bind_some, if_pos (.inl rfl)] at hf
      have ha := hr.allowed s' (Registry.find?_eq_some hs).1
      have hle := Registry.unsubscribe_lastSid r n 0 ▸ hr.sid_le hs
      refine .ended ⟨hle, hf⟩ (by omega) ?_
      rw [htold]
      simp [Command.isFarewell]
    | ended hg => cases hg.2.symm.trans hs'
  · rw [if_neg hn] at hf
    have hz : [Command.unsub n (some m)].countP (Command.isFarewell sid) = 0 := by
      simp [Command.isFarewell, hn]
    rw [hz, Nat.add_zero]
    cases h with
    | live s hs hcap hrec htold => exact .live s (hf.trans hs) hcap hrec htold
    | ended hg hh htold => exact .ended (hg.continue (.unsubscribe r n m)) hh htold

theorem aside_farewells {op : Use κ} (h : op.Aside) :
    op.command?.toList.countP (Command.isFarewell sid) = 0 := by
  refine List.countP_eq_zero.2 fun c hc ↦ ?_
  have hs := h.commands (Outbox.Op.mem_commands (Option.mem_toList.1 hc))
  simp [c.isFarewell_of_sid? (by simp [hs] : c.sid? ≠ some sid)]

theorem Acts.capped {ops : List (Use κ)} (ha : Acts t r ops r') (hr : r.Valid) (hm : 0 < max)
    (ht : ∀ n, t ≠ .event (.unsubscribe sid n)) (h : Capped sid max r heard told) :
    Capped sid max r' heard (told + farewells sid ops) := by
  induction ha generalizing told with
  | nil => exact h
  | use ho _ ih =>
    rw [farewells_cons, aside_farewells ho, Nat.zero_add]
    exact ih hr h
  | time ho _ ih => exact ih (ho.valid hr) (h.time ho)
  | subscribe _ _ ih =>
    rw [farewells_cons]
    simp only [Outbox.Op.command?, Option.toList_none, List.countP_nil, Nat.zero_add]
    exact ih (hr.insert _ _ _) (h.subscribe hr _ _ _)
  | unsubscribe hc _ ih =>
    have hu := ih (hr.unsubscribe _ _) (h.unsubscribe hr hm ht hc)
    rw [farewells_cons, ← Nat.add_assoc]
    exact hu

theorem deliver_call_of_find? {c : Client κ} (hr : c.registry.Valid) {m : Message}
    {s : Subscription κ} (hs : c.registry.find? m.sid = some s) :
    (c.deliver m).call = some (.message s.callback m) := by
  rw [deliver, hr.dispatch_eq hs]

theorem turn_hears (c : Client κ) (m : Message) :
    c.turn (.event (.frame c.generation (.message m))) = c.deliver m := by
  simp only [turn, step, receive, if_neg (not_not_intro rfl)]

/-- At a message a capped subscription counts it, and ends if that fills the cap. -/
theorem Capped.hears {c : Client κ} (h : Capped sid max c.registry heard told)
    (hr : c.registry.Valid) (m : Message) : Capped sid max (c.registry.dispatch m).2
      (heard + (c.deliver m).call.toList.countP (Call.isMessage sid))
      (told + farewells sid (c.deliverUses m)) := by
  have hf := hr.find?_dispatch m sid
  cases hd : c.registry.find? m.sid with
  | none =>
    have hz : (c.deliver m).call = none := by
      rw [deliver, Registry.Valid.dispatch_of_none hd]
    rw [hz, deliverUses_of_none hd, Registry.Valid.dispatch_of_none hd]
    exact h
  | some s' =>
    rw [deliver_call_of_find? hr hd, deliverUses_of_find? hr hd]
    by_cases hn : m.sid = sid
    · subst hn
      rw [if_pos rfl, hd, Option.bind_some] at hf
      cases h with
      | ended hg => cases hg.2.symm.trans hd
      | live s hs hcap hrec htold =>
        obtain rfl : s' = s := Option.some.inj (hd.symm.trans hs)
        have hone : [Call.message s'.callback m].countP (Call.isMessage m.sid) = 1 := by
          simp [Call.isMessage]
        rw [Option.toList_some, hone]
        by_cases he : s'.received + 1 = s'.max
        · rw [if_pos he] at hf ⊢
          have hle := Registry.dispatch_lastSid c.registry m ▸ hr.sid_le hs
          refine .ended ⟨hle, hf⟩ (by omega) ?_
          rw [htold]
          simp [farewells, Outbox.Op.command?, Command.isFarewell]
        · rw [if_neg he] at hf ⊢
          refine .live _ hf hcap ?_ ?_
          · simp only [hrec]
          · rw [htold]
            rfl
    · rw [if_neg hn] at hf
      have hone : [Call.message s'.callback m].countP (Call.isMessage sid) = 0 := by
        simp [Call.isMessage, hn]
      have hzero : farewells sid (if s'.received + 1 = s'.max then
          [Outbox.Op.send (Command.unsub m.sid none)] else ([] : List (Use κ))) = 0 := by
        split
        · simp [farewells, Outbox.Op.command?, Command.isFarewell, hn]
        · rfl
      rw [Option.toList_some, hone, hzero]
      cases h with
      | live s hs hcap hrec htold => exact .live s (hf.trans hs) hcap hrec htold
      | ended hg hh htold => exact .ended (hg.continue (.dispatch hr m)) hh htold

theorem hearings_of_not_hears {c : Client κ}
    (h : ∀ m, t ≠ .event (.frame c.generation (.message m))) (sid : Nat) :
    (c.turn t).call.toList.countP (Call.isMessage sid) = 0 := by
  cases hc : (c.turn t).call with
  | none => rfl
  | some call =>
    have hruns := turn_call hc
    cases call with
    | message callback m => exact (h m hruns.1).elim
    | error | connected | acked | timeout => rfl

theorem Capped.turn {c : Client κ} (h : Capped sid max c.registry heard told)
    (hr : c.registry.Valid) (hm : 0 < max) (ht : ∀ n, t ≠ .event (.unsubscribe sid n)) :
    Capped sid max (c.turn t).client.registry
      (heard + (c.turn t).call.toList.countP (Call.isMessage sid))
      (told + farewells sid (c.turnUses t)) := by
  cases turn_kind hr t with
  | binds u uri hb hu hbind huses hreg =>
    have hn : ∀ m, t ≠ .event (.frame c.generation (.message m)) := by
      rintro m rfl
      cases hb
    rw [hearings_of_not_hears hn, huses, hreg]
    exact h
  | hears m hb huses hreg =>
    rw [huses, hreg]
    subst hb
    rw [turn_hears]
    exact h.hears hr m
  | acts hn ha =>
    rw [hearings_of_not_hears hn]
    exact ha.capped hr hm ht h

theorem Capped.turns {c : Client κ} (h : Capped sid max c.registry heard told)
    (hr : c.registry.Valid) (hm : 0 < max) {ts : List (Turn κ)}
    (ht : ∀ n, .event (.unsubscribe sid n) ∉ ts) :
    Capped sid max (c.turns ts).2.registry (heard + Reaction.hearings sid (c.turns ts).1)
      (told + farewells sid (c.turnsUses ts)) := by
  induction ts generalizing c heard told with
  | nil => exact h
  | cons t ts ih =>
    have ht' : ∀ n, t ≠ .event (.unsubscribe sid n) := fun n he ↦
      ht n (he ▸ List.mem_cons_self)
    have hs := ih (h.turn hr hm ht') (turn_valid hr t) fun n hn ↦
      ht n (List.mem_cons_of_mem _ hn)
    simp only [Client.turns, turnsUses, Reaction.hearings_cons, farewells_append,
      ← Nat.add_assoc]
    exact hs

/-- The message that fills the cap is the one at which the server is told. -/
theorem Capped.last {c : Client κ} (h : Capped sid max c.registry heard told)
    (hr : c.registry.Valid) (hl : heard + 1 = max)
    (hc : (c.turn t).call.any (Call.isMessage sid)) :
    ((c.turn t).written, (c.turn t).client.outbox) =
      c.outbox.send (.command (.unsub sid none)) := by
  obtain ⟨call, hcall, hm⟩ := (Option.any_eq_true ..).1 hc
  cases call with
  | message callback m =>
    obtain ⟨rfl, finished, hd⟩ := turn_call hcall
    obtain rfl : m.sid = sid := by simpa [Call.isMessage] using hm
    cases h with
    | ended hg =>
      rw [Registry.Valid.dispatch_of_none hg.2] at hd
      cases hd
    | live s hs hcap hrec =>
      have hf := c.turn_follows (.event (.frame c.generation (.message m)))
      have hu : c.turnUses (.event (.frame c.generation (.message m))) =
          [.send (.unsub m.sid none)] := by
        have hd : c.turnUses (.event (.frame c.generation (.message m))) = c.deliverUses m :=
          if_neg (not_not_intro rfl)
        rw [hd, deliverUses_of_find? hr hs, if_pos (by omega)]
      rw [hf.written, hf.outbox, hu, Outbox.run_singleton]
      rfl
  | error | connected | acked | timeout => cases hm

/-- A subscription that keeps to its cap in several turns: it hears of no more messages than that,
and the server is told once that it ends, at the last of them. -/
structure Keeps (d : Client κ) (sid max : Nat) (ts : List (Turn κ)) : Prop where
  heard_le : Reaction.hearings sid (d.turns ts).1 ≤ max
  told_once : Reaction.hearings sid (d.turns ts).1 = max → farewells sid (d.turnsUses ts) = 1
  told_last : ∀ xs t ys, ts = xs ++ t :: ys → Reaction.hearings sid (d.turns xs).1 + 1 = max →
    ((d.turns xs).2.turn t).call.any (Call.isMessage sid) →
      (((d.turns xs).2.turn t).written, ((d.turns xs).2.turn t).client.outbox) =
        (d.turns xs).2.outbox.send (.command (.unsub sid none))

theorem Capped.keeps {d : Client κ} (h : Capped sid max d.registry 0 0) (hr : d.registry.Valid)
    (hm : 0 < max) {ts : List (Turn κ)} (ht : ∀ n, .event (.unsubscribe sid n) ∉ ts) :
    d.Keeps sid max ts := by
  have hts := h.turns hr hm ht
  rw [Nat.zero_add, Nat.zero_add] at hts
  refine ⟨hts.heard_le (turns_valid hr ts) hm, fun hall ↦ ?_, ?_⟩
  · cases hts with
    | live s hs hmax hrec =>
      have ha := (turns_valid hr ts).allowed s (Registry.find?_eq_some hs).1
      omega
    | ended _ _ htold => exact htold
  · rintro xs t ys rfl hl hc
    have hxs := h.turns hr hm fun n hn ↦ ht n (List.mem_append_left _ hn)
    rw [Nat.zero_add] at hxs
    exact hxs.last (turns_valid hr xs) hl hc

end Client

end Herald
