import Herald.Proofs.Client.Calls
import Herald.Proofs.Client.Operations
import Herald.Proofs.Registry.Timeouts

namespace Herald

variable {κ : Type}

namespace Client

open Registry (reached Issued Stands Spared)

/-- A client sets a timeout when it is asked to, with a token that it takes for it at once. -/
theorem operations_of_arm {c : Client κ} {t : Turn κ} {sid : Nat} {timeout : Timeout}
    (h : .arm sid timeout ∈ c.operations t) :
    c.operations t = [.token sid, .arm sid timeout] ∧
      (c.registry.nextToken sid).1 = some timeout.token := by
  have ha := c.turn_asks t
  generalize c.operations t = ops at h ha ⊢
  rcases ha with rfl | ⟨-, ha⟩
  · simp at h
  cases ha with
  | setTimeout =>
    rename_i n afterMs expected auto callback ht
    unfold setTimeoutOperations at h ⊢
    cases hn : (c.registry.nextToken n).1 with
    | none => simp [hn] at h
    | some token =>
      obtain ⟨rfl, rfl⟩ : sid = n ∧ timeout = ⟨expected, auto, token⟩ := by simpa [hn] using h
      exact ⟨rfl, hn⟩
  | expire =>
    unfold expireOperations at h
    split at h <;> simp at h
  | subscribe max => cases max <;> simp at h
  | nothing | unsubscribe | hear => simp at h

structure Records (c : Client κ) (ops : List (Registry.Op κ)) : Prop where
  registry : c.registry = reached ops
  issued : Issued ops

theorem Records.new (options : ClientOptions) : ({ options } : Client κ).Records [] :=
  ⟨rfl, Registry.issued_nil⟩

theorem Records.turn {ops : List (Registry.Op κ)} {c : Client κ} (h : c.Records ops) (t : Turn κ) :
    (c.turn t).client.Records (ops ++ c.operations t) := by
  refine ⟨?_, ?_⟩
  · rw [turn_registry, h.registry, Registry.reached_append]
  · by_cases ha : ∃ sid timeout, .arm sid timeout ∈ c.operations t
    · obtain ⟨sid, timeout, ha⟩ := ha
      obtain ⟨ho, ht⟩ := operations_of_arm ha
      rw [ho]
      rw [h.registry] at ht
      exact h.issued.arm ht
    · exact h.issued.append_of_not_arm fun sid timeout hm ↦ ha ⟨sid, timeout, hm⟩

theorem Records.turns {ops : List (Registry.Op κ)} {c : Client κ} (h : c.Records ops)
    (ts : List (Turn κ)) : (c.turns ts).2.Records (ops ++ c.turnsOperations ts) := by
  induction ts generalizing ops c with
  | nil =>
    rw [turnsOperations, List.append_nil]
    exact h
  | cons t ts ih =>
    rw [turnsOperations, ← List.append_assoc]
    exact ih (h.turn t)

/-- What does away with a timeout at a turn: another one is set in its place, its subscription is
not live any more, the client is stopped, or it is due. -/
inductive Quashes (c : Client κ) (t : Turn κ) (sid token : Nat) : Prop
  | replaced (afterMs expected : Nat) (auto : Bool) (callback : κ) :
    t = .event (.setTimeout sid afterMs expected auto callback) → Quashes c t sid token
  | ended : (c.turn t).client.registry.find? sid = none → Quashes c t sid token
  | stopped : ¬c.Goes t → Quashes c t sid token
  | due (callback : κ) : t = .event (.expire sid token callback) → Quashes c t sid token

/-- A timeout that ends its subscription does so before its callback runs, and the server is told
or will be. -/
theorem expire_auto {c : Client κ} {sid token : Nat} {callback : κ}
    (h : (c.registry.claim sid token).1 = some true) :
    let r := c.expire sid token callback
    r.client.registry.find? sid = none ∧
      ((∃ w, r.written = [⟨w, .command (.unsub sid (some 0))⟩]) ∨
        r.written = [] ∧
          r.client.outbox.pending = c.outbox.pending ++ [.command (.unsub sid (some 0))]) := by
  intro r
  have hs : (c.outbox.run (c.expireUses sid token)) =
      c.outbox.send (.command (.unsub sid (some 0))) := by
    rw [expireUses, h, Outbox.run_singleton]
    rfl
  have hf : r.Follows c.outbox (c.expireUses sid token) := c.expire_follows sid token callback
  constructor
  · have hr : r.client.registry = ((c.registry.claim sid token).2.unsubscribe sid 0).2 := by
      rw [c.expire_registry, expireOperations, if_pos h]
      rfl
    rw [hr, Registry.find?_unsubscribe, if_pos rfl]
    simp
  · rw [hf.written, hf.outbox, hs]
    unfold Outbox.send
    cases c.outbox.target with
    | some w => exact .inl ⟨w.number, rfl⟩
    | none => exact .inr ⟨rfl, rfl⟩

section

variable {ops : List (Registry.Op κ)} {c d : Client κ} {sid : Nat} {timeout : Timeout}

theorem Records.watch {afterMs expected token : Nat} {auto : Bool} {callback : κ}
    (h : c.Records ops) (hw : .watch sid token afterMs callback ∈
      (c.setTimeout sid afterMs expected auto callback).outputs) :
    (c.setTimeout sid afterMs expected auto callback).client.Records
      (ops ++ [.token sid] ++ [.arm sid ⟨expected, auto, token⟩]) := by
  have ho : c.setTimeoutOperations sid expected auto =
      [.token sid, .arm sid ⟨expected, auto, token⟩] := by
    unfold setTimeout at hw
    split at hw
    · cases hw
    · rename_i token' registry hn
      obtain rfl : token = token' := by simpa using hw
      rw [setTimeoutOperations, hn]
      rfl
  have hr := h.turn (.event (.setTimeout sid afterMs expected auto callback))
  simp only [operations, ho] at hr
  rw [List.append_assoc]
  exact hr

/-- A timeout that is taken is the one that was set with its token, and nothing has done away with
it since. -/
theorem Records.spared (h : d.Records (ops ++ [.arm sid timeout])) {later : List (Turn κ)}
    {n : Nat} {auto : Bool}
    (hc : ((d.turns later).2.registry.claim n timeout.token).1 = some auto) :
    n = sid ∧ auto = timeout.auto ∧ Spared ops sid timeout (d.turnsOperations later) := by
  have hd := h.turns later
  rw [List.append_assoc, List.singleton_append] at hd
  rw [hd.registry] at hc
  obtain ⟨expected, ht⟩ := Registry.claim_eq_some_iff.1 hc
  obtain ⟨hn, he, hs⟩ := hd.issued.spared ((Registry.timeout?_reached _ _ _).1 ht) rfl
  exact ⟨hn, congrArg (·.auto) he, hs⟩

theorem Records.claim_of_spared (h : d.Records (ops ++ [.arm sid timeout])) {later : List (Turn κ)}
    (hs : Spared ops sid timeout (d.turnsOperations later)) :
    ((d.turns later).2.registry.claim sid timeout.token).1 = some timeout.auto := by
  have hd := h.turns later
  rw [List.append_assoc, List.singleton_append] at hd
  rw [hd.registry]
  exact Registry.claim_eq_some_iff.2
    ⟨timeout.expected, (Registry.timeout?_reached _ _ _).2 ⟨ops, _, rfl, hs⟩⟩

/-- A timeout that is done away with at a turn is not in force after it. -/
theorem Records.not_spared (h : d.Records (ops ++ [.arm sid timeout])) {xs ys : List (Turn κ)}
    {t : Turn κ} (hq : (d.turns xs).2.Quashes t sid timeout.token) :
    ¬Spared ops sid timeout (d.turnsOperations (xs ++ t :: ys)) := by
  intro hs
  rw [turnsOperations_append] at hs
  simp only [turnsOperations] at hs
  have hx := h.turns xs
  rw [List.append_assoc, List.singleton_append] at hx
  rw [← List.append_assoc] at hs
  have hs := hs.of_append
  have hkeeps {op : Registry.Op κ} (ho : op ∈ (d.turns xs).2.operations t) :
      ∃ r, op.Keeps r sid timeout.expected := by
    obtain ⟨as, bs, hab⟩ := List.append_of_mem ho
    rw [hab, ← List.append_assoc] at hs
    exact ⟨_, hs.keeps _ op bs rfl⟩
  cases hq with
  | replaced afterMs expected auto callback ht =>
    subst ht
    have hl := hs.of_append.live _ [] (List.append_nil _).symm
    rw [← hx.registry] at hl
    have ha : .arm sid ⟨expected, auto, (d.turns xs).2.registry.lastToken + 1⟩ ∈
        (d.turns xs).2.operations (.event (.setTimeout sid afterMs expected auto callback)) := by
      simp [operations, setTimeoutOperations, Registry.nextToken, hl]
    obtain ⟨r, hn⟩ := hkeeps ha
    exact hn rfl
  | ended hn =>
    have hl := hs.live _ [] (List.append_nil _).symm
    have ht := (hx.turn t).registry
    rw [List.append_assoc, List.cons_append] at ht
    rw [← ht, hn] at hl
    cases hl
  | stopped hg =>
    have ho := ((d.turns xs).2.turn_asks t).resolve_right fun ha ↦ hg ha.1
    have hc : .cancelAll ∈ (d.turns xs).2.operations t := by simp [ho]
    obtain ⟨r, hn⟩ := hkeeps hc
    exact hn
  | due callback ht =>
    subst ht
    have hc := h.claim_of_spared hs.of_append
    simp only [operations, expireOperations] at hs
    have hn := hs.keeps _ _ _ rfl rfl
    rw [← hx.registry, hc] at hn
    cases hn

end

/-- A timeout is taken if and only if it is the one last set on its subscription, which is live
since, and nothing has done away with it; and it is taken once. The callback of a timeout that
was done away with never runs, and a timeout that ends its subscription does so, and has the server
told, before its callback runs. -/
theorem timeouts_exact (options : ClientOptions) :
    (∀ (ops : List (Registry.Op κ)) (sid token : Nat) (auto : Bool),
      ((reached ops).claim sid token).1 = some auto ↔
        ∃ expected, Stands ops sid ⟨expected, auto, token⟩) ∧
    (∀ (xs ys : List (Registry.Op κ)) (sid token : Nat),
      Issued (xs ++ .claim sid token :: ys) → ((reached xs).claim sid token).1.isSome →
        ∀ n, ((reached (xs ++ .claim sid token :: ys)).claim n token).1 = none) ∧
    ∀ (before later : List (Turn κ)) (sid afterMs expected token : Nat) (auto : Bool)
      (callback : κ),
      let armed := (Client.turns ({ options } : Client κ) before).2.setTimeout sid afterMs expected
        auto callback
      let c := (armed.client.turns later).2
      let r := c.expire sid token callback
      .watch sid token afterMs callback ∈ armed.outputs →
        (∀ xs t ys, later = xs ++ t :: ys → (armed.client.turns xs).2.Quashes t sid token →
          r.call = none) ∧
        ∀ call, r.call = some call → call = .timeout callback sid ∧
          (auto = true → r.client.registry.find? sid = none ∧
            ((∃ w, r.written = [⟨w, .command (.unsub sid (some 0))⟩]) ∨
              r.written = [] ∧ r.client.outbox.pending =
                c.outbox.pending ++ [.command (.unsub sid (some 0))])) := by
  refine ⟨?_, ?_, ?_⟩
  · intro ops sid token auto
    rw [Registry.claim_eq_some_iff]
    exact exists_congr fun expected ↦ Registry.timeout?_reached ops sid _
  · intro xs ys sid token hi hs
    exact hi.claim_eq_none hs
  intro before later sid afterMs expected token auto callback armed c r hw
  have ha := ((Records.new options).turns before).watch hw
  have hclaim {call : Call κ} (hc : r.call = some call) : ∃ auto',
      (c.registry.claim sid token).1 = some auto' :=
    Option.isSome_iff_exists.1 (expire_call_eq_some.1 hc).2
  constructor
  · rintro xs t ys rfl hq
    cases hc : r.call with
    | none => rfl
    | some call =>
      obtain ⟨auto', hc⟩ := hclaim hc
      exact absurd (ha.spared hc).2.2 (ha.not_spared hq)
  · intro call hc
    refine ⟨(expire_call_eq_some.1 hc).1, ?_⟩
    rintro rfl
    obtain ⟨auto', hc⟩ := hclaim hc
    obtain ⟨-, rfl, -⟩ := ha.spared hc
    exact expire_auto hc

def oneTimeout : List (Registry.Op Nat) :=
  [.insert "news" none 7, .token 1, .arm 1 ⟨1, true, 1⟩]

theorem timeouts_exact_once :
    (((reached oneTimeout).claim 1 1).1 = some true ∧
      ((reached (oneTimeout ++ [.claim 1 1])).claim 1 1).1 = none) ∧
    let armed := (Client.turns ({ options := {} } : Client Nat)
      [.event (.subscribe "news" none none 7)]).2.setTimeout 1 100 1 true 8
    .watch 1 1 100 8 ∈ armed.outputs ∧
      ((armed.client.turns [.event .stop]).2.expire 1 1 8).call = none ∧
      (armed.client.expire 1 1 8).call = some (.timeout 8 1) ∧
      (armed.client.expire 1 1 8).client.registry.find? 1 = none := by
  obtain ⟨-, honce, hclient⟩ := timeouts_exact (κ := Nat) {}
  have hi : Issued (oneTimeout ++ [.claim 1 1]) := by
    have hi : Issued ([.insert "news" none 7] : List (Registry.Op Nat)) :=
      Registry.issued_nil.append_of_not_arm (by simp)
    exact (hi.arm (t := ⟨1, true, 1⟩) rfl).append_of_not_arm (by simp)
  have hw : Output.watch 1 1 100 8 ∈ ((Client.turns ({ options := {} } : Client Nat)
      [.event (.subscribe "news" none none 7)]).2.setTimeout 1 100 1 true 8).outputs :=
    List.mem_singleton_self _
  obtain ⟨hnever, -⟩ := hclient _ [.event .stop] 1 100 1 1 true 8 hw
  obtain ⟨-, hruns⟩ := hclient _ [] 1 100 1 1 true 8 hw
  refine ⟨⟨rfl, honce oneTimeout [] 1 1 hi rfl 1⟩, hw, ?_, rfl, ?_⟩
  · exact hnever [] _ [] rfl (.stopped (by decide))
  · exact ((hruns _ rfl).2 rfl).1

def resting : List (Turn Nat) := [.event (.subscribe "news" none none 7), .event .stop]

/-- A timeout that is set between two stops outlasts the second one. -/
theorem timeout_outlasts_stop :
    ¬∀ (options : ClientOptions) (before later : List (Turn Nat))
      (sid afterMs expected token : Nat) (auto : Bool) (callback : Nat),
      let armed := (Client.turns ({ options } : Client Nat) before).2.setTimeout sid afterMs
        expected auto callback
      .watch sid token afterMs callback ∈ armed.outputs → .event .stop ∈ later →
        ((armed.client.turns later).2.expire sid token callback).call = none := by
  intro h
  have hw : Output.watch 1 1 100 8 ∈ ((Client.turns ({ options := {} } : Client Nat)
      resting).2.setTimeout 1 100 1 true 8).outputs := List.mem_singleton_self _
  have hn := h {} resting [.event .stop] 1 100 1 1 true 8 hw (List.mem_singleton_self _)
  cases hn

end Client

end Herald
