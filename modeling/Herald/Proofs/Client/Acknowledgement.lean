import Herald.Proofs.Client.RoundTrips
import Herald.Proofs.Outbox.Carriage

namespace Herald.History

variable {κ : Type}

/-- Connections bring nothing before the client takes them or after they are lost, and no answer
that the server does not owe. -/
def Behaves (h : History κ) (ts : List (Turn κ)) : Prop := Along Admits h ts ∧ Along Owes h ts

instance (h : History κ) (ts : List (Turn κ)) : Decidable (h.Behaves ts) :=
  inferInstanceAs (Decidable (_ ∧ _))

theorem behaves_append {h : History κ} {xs ys : List (Turn κ)} :
    h.Behaves (xs ++ ys) ↔ h.Behaves xs ∧ (h.after xs).Behaves ys := by
  simp only [Behaves, along_append]
  exact and_and_and_comm

theorem dated_after {h : History κ} (hd : h.ledger.Dated) (ts : List (Turn κ)) :
    (h.after ts).ledger.Dated := by
  induction ts generalizing h with
  | nil => exact hd
  | cons t ts ih => exact ih (hd.run _)

theorem confirms_next {h : History κ} (hd : h.ledger.Dated) {subject : String} (hs : subject ≠ "")
    (payload : Bytes) (callback : κ) :
    (h.next (.event (.publishAcked subject payload callback))).ledger.Confirms h.ledger.time
      (.pub subject none payload) := by
  have hu : h.client.turnUses (.event (.publishAcked subject payload callback)) =
      [.send (.pub subject none payload), .roundTrip (.user callback)] := by
    simp [Client.turnUses, Client.uses, Client.publishUses, hs]
  simp only [next, hu]
  exact .of_couple hd _ _

theorem confirms_after {h : History κ} (hs : h.Sound) (hl : h.Tallied) {n : Nat} {c : Command}
    (hc : h.ledger.Confirms n c) {ts : List (Turn κ)} (hb : h.Behaves ts) :
    (h.after ts).ledger.Confirms n c := by
  refine ((hb.1.and hb.2).invariant (I := fun h ↦ h.Sound ∧ h.Tallied ∧ h.ledger.Confirms n c)
    (fun h t hi hp ↦ ?_) ⟨hs, hl, hc⟩).2.2.2
  obtain ⟨hs, hl, hc⟩ := hi
  have hr := hl.ready hs hp.1 hp.2
  exact ⟨hs.next hr, hl.next hs hp.1 hp.2, hc.run (hs.allFit hr)⟩

/-- Only an answer on the connection in use completes a round trip. -/
theorem Completes.generation_eq {h : History κ} {g : Nat} {t : Nat × RoundTrip κ}
    (hc : h.Completes g t) : h.client.generation = g := by
  refine Decidable.byContradiction fun hg ↦ ?_
  have hu : h.client.turnUses (.event (.frame g .pong)) = [] := by
    simp [Client.turnUses, Client.uses, hg]
  simp only [Completes, next, hu, Ledger.run_nil] at hc
  simpa using congrArg List.length hc

/-- A command with a number was handed to a connection before the request with the next one. -/
def CarriedBy (h : History κ) (n : Nat) (command : Command) (g : Nat) : Prop :=
  h.ledger.CarriedBy n command g

/-- Connections bring nothing before they are taken or after they are lost, and no answer that the
server does not owe. Then, when an answer runs the callback of an acknowledged publication, the
publication was handed to just one connection, before a request for that answer. It is the
connection that the answer came on if and only if that one was not lost. -/
theorem acked_iff_carried (options : ClientOptions) (before between : List (Turn κ))
    (subject : String) (payload : Bytes) (callback : κ) (g : Nat) (hs : subject ≠ "")
    (hb : (new options).Behaves (before ++
      .event (.publishAcked subject payload callback) :: between ++ [.event (.frame g .pong)]))
    (hc : ((new options).after (before ++
      .event (.publishAcked subject payload callback) :: between)).Completes g
        (((new options).after before).ledger.time + 1, .user callback)) :
    let n := ((new options).after before).ledger.time
    let h := (new options).after (before ++
      .event (.publishAcked subject payload callback) :: between)
    h.ledger.log = (Client.turns { options } (before ++
        .event (.publishAcked subject payload callback) :: between)).1.flatMap Reaction.written ∧
      h.Matched g (n + 1, .user callback) ∧
      (h.client.turn (.event (.frame g .pong))).call = some (.acked callback) ∧
      ∃ v, (∀ u, h.CarriedBy n (.pub subject none payload) u ↔ u = v) ∧
        (h.CarriedBy n (.pub subject none payload) g ↔ v ∉ h.ledger.dropped) := by
  intro n h
  obtain ⟨hb₁, hb₂⟩ := behaves_append.1 hb
  obtain ⟨hr₁, hs₁, hl₁⟩ := (Sound.new options).of_owes (.new options) hb₁.1 hb₁.2
  -- The publication brings this about, and the turns after it keep it.
  have hcf : h.ledger.Confirms n (.pub subject none payload) := by
    obtain ⟨hb₀, hp⟩ := behaves_append.1 hb₁
    obtain ⟨-, hs₀, hl₀⟩ := (Sound.new options).of_owes (.new options) hb₀.1 hb₀.2
    have hr := hl₀.ready hs₀ hp.1.1 hp.2.1
    have hd : ((new options).after before).ledger.Dated := dated_after .new before
    have hn := confirms_next hd hs payload callback
    have ha := confirms_after (hs₀.next hr) (hl₀.next hs₀ hp.1.1 hp.2.1) hn ⟨hp.1.2, hp.2.2⟩
    rw [show h = _ from after_append _ _ _]
    exact ha
  have hg : h.client.generation = g := hc.generation_eq
  subst hg
  obtain ⟨w, t, trips, hw, ht, hi, hm⟩ := hl₁.matched hs₁ hb₂.1.1 hb₂.2.1
  -- The answer completes the oldest round trip, so that is the one of the publication.
  have htn : t = (n + 1, .user callback) := by
    have he := List.append_cancel_left (hm.completes.symm.trans hc)
    exact congrArg Prod.snd (List.singleton_inj.1 he)
  subst htn
  refine ⟨log_after options _, hm, by rw [hm.callback]; rfl, ?_⟩
  have hwg := hs₁.number_of_writer hw
  have hd : w.number ∉ h.ledger.dropped := by
    rw [hwg]
    exact hb₂.1.1.2
  obtain ⟨v, hu, hv⟩ := hcf.carriedBy_iff hs₁.ledger hw hd hi ht
  exact ⟨v, hu, hwg ▸ hv⟩

def firstConnection : List (Turn Nat) :=
  [.event (.begin .localhost), .event (.connected .localhost), .event (.frame 1 .pong)]

theorem acked_iff_carried_firstConnection :
    (new {}).Behaves (firstConnection ++
        .event (.publishAcked "news" [] 7) :: [] ++ [.event (.frame 1 .pong)]) ∧
      ((new {}).after (firstConnection ++ .event (.publishAcked "news" [] 7) :: [])).Completes 1
        (((new {}).after firstConnection).ledger.time + 1, .user 7) ∧
      ((new {}).after (firstConnection ++ .event (.publishAcked "news" [] 7) :: [])).CarriedBy
        ((new {}).after firstConnection).ledger.time (.pub "news" none []) 1 := by
  have hb : (new {}).Behaves (firstConnection ++
      .event (.publishAcked "news" [] 7) :: [] ++ [.event (.frame 1 .pong)]) := by decide
  obtain ⟨-, hm, -, v, -, hv⟩ :=
    acked_iff_carried {} firstConnection [] "news" [] 7 1 (by decide) hb rfl
  exact ⟨hb, hm.completes, hv.2 List.not_mem_nil⟩

def secondConnection : List (Turn Nat) :=
  [.event (.lost 1), .event (.wake 0), .event (.connected .localhost)]

/-- An answer may run the callback of a publication that the connection never carried. Only the
request goes to the second connection, and not the publication before it. -/
theorem acked_without_carried :
    ¬∀ (options : ClientOptions) (before between : List (Turn Nat)) (subject : String)
      (payload : Bytes) (callback g : Nat), subject ≠ "" →
      (new options).Behaves (before ++ .event (.publishAcked subject payload callback) :: between ++
        [.event (.frame g .pong)]) →
      ((new options).after (before ++
        .event (.publishAcked subject payload callback) :: between)).Completes g
          (((new options).after before).ledger.time + 1, .user callback) →
      ((new options).after (before ++
        .event (.publishAcked subject payload callback) :: between)).CarriedBy
          ((new options).after before).ledger.time (.pub subject none payload) g := by
  intro h
  have hc := h {} firstConnection secondConnection "news" [] 7 2 (by decide) (by decide) rfl
  revert hc
  unfold CarriedBy Ledger.CarriedBy
  decide

end Herald.History
