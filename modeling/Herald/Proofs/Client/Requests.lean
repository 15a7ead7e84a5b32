import Herald.Proofs.Client.Lifecycle
import Herald.Proofs.Client.RoundTrips
import Herald.Proofs.Outbox.Carriage
import Mathlib.Data.List.Induction

namespace Herald

variable {κ : Type}

namespace Client

variable {c : Client κ} {t : Turn κ} {ts : List (Turn κ)}

/-- An answer completes a round trip whose request is not out on the connection in use. -/
def Early (c : Client κ) (t : Turn κ) : Prop :=
  t = .event (.frame c.generation .pong) ∧ c.outbox.inFlight = 0 ∧ c.outbox.pongs ≠ []

def NoneEarly (c : Client κ) (generation : Nat) (ts : List (Turn κ)) : Prop :=
  c.Along (fun d t ↦ d.generation = generation → ¬d.Early t) ts

theorem noneEarly_snoc {generation : Nat} : c.NoneEarly generation (ts ++ [t]) ↔
    c.NoneEarly generation ts ∧
      ((c.turns ts).2.generation = generation → ¬(c.turns ts).2.Early t) :=
  along_append.trans (and_congr_right fun _ ↦ and_iff_left trivial)

/-- What a turn means for the requests of a client: it starts anew with just as many as there are
round trips, there are as many more or fewer as before, or a round trip goes and its request
stays. -/
inductive Settles (c : Client κ) (t : Turn κ) (d : Client κ) : Prop
  | anew : d.generation = c.generation + 1 → d.outbox.pongs.length = d.outbox.requests →
    Settles c t d
  | keeps : d.generation = c.generation → ¬c.Early t → c.outbox.Balances d.outbox →
    Settles c t d
  | early : d.generation = c.generation → c.Early t →
    d.outbox.pongs.length < c.outbox.pongs.length → d.outbox.requests = c.outbox.requests →
    Settles c t d

theorem Early.uses (h : c.Early t) : c.turnUses t = [.complete] := by
  obtain ⟨rfl, -, -⟩ := h
  exact History.turnUses_pong c

theorem Settles.complete (hp : t = .event (.frame c.generation .pong)) {d : Client κ}
    (ho : d.outbox = c.outbox.complete.2) (hg : d.generation = c.generation) :
    c.Settles t d := by
  by_cases he : c.Early t
  · have hi := he.2.1
    obtain ⟨callback, pongs, hcons⟩ := List.exists_cons_of_ne_nil he.2.2
    rw [Outbox.complete_of_cons hcons] at ho
    refine .early hg he ?_ ?_
    · rw [ho, hcons]
      exact Nat.lt_succ_self _
    · rw [ho, Outbox.requests, Outbox.requests, hi]
  · refine .keeps hg he (ho ▸ Outbox.balances_complete fun hne ↦ ?_)
    exact Nat.pos_of_ne_zero fun hi ↦ he ⟨hp, hi, hne⟩

theorem turn_settles (c : Client κ) (t : Turn κ) : c.Settles t (c.turn t).client := by
  have hm := c.turn_moves t
  have ho := (c.turn_follows t).outbox
  have hearly : c.Early t → c.turnUses t = [.complete] := Early.uses
  have hg : (c.turn t).client.generation = (c.turn t).client.standing.2.1 := rfl
  generalize c.turnUses t = ops at hm ho hearly
  generalize (c.turn t).client.standing = s at hm hg
  cases hm with
  | stay hp =>
    refine .keeps hg (fun he ↦ ?_) (ho ▸ Outbox.balances_run hp)
    exact hp .complete (hearly he ▸ List.mem_cons_self)
  | complete ht => exact .complete ht ho hg
  | snap => exact .keeps hg (fun he ↦ nomatch hearly he) (ho ▸ .refl c.outbox)
  | wander => exact .keeps hg (fun he ↦ nomatch hearly he) (ho ▸ .refl c.outbox)
  | lose =>
    exact .keeps hg (fun he ↦ nomatch hearly he) (ho ▸ c.outbox.balances_detach)
  | connect =>
    refine .anew hg ?_
    rw [ho, Outbox.run_attach_roundTrip]
    simp [Outbox.requests]
  | stop | fall => exact .anew hg (ho ▸ rfl)

/-- As many requests as round trips, or more, are out or wait, and just as many if and only if no
answer came early since the client has its generation. -/
structure Counted (c : Client κ) (ts : List (Turn κ)) : Prop where
  covered : (c.turns ts).2.outbox.pongs.length ≤ (c.turns ts).2.outbox.requests
  exact_iff : (c.turns ts).2.outbox.pongs.length = (c.turns ts).2.outbox.requests ↔
    c.NoneEarly (c.turns ts).2.generation ts
  past : c.Along (fun d _ ↦ d.generation ≤ (c.turns ts).2.generation) ts

theorem Counted.snoc (h : Counted c ts) (t : Turn κ) : Counted c (ts ++ [t]) := by
  have hs := (c.turns ts).2.turn_settles t
  have hpast : c.Along (fun d _ ↦ d.generation ≤ ((c.turns ts).2.turn t).client.generation)
      (ts ++ [t]) := by
    have hle : (c.turns ts).2.generation ≤ ((c.turns ts).2.turn t).client.generation := by
      cases hs with
      | anew hg => exact hg ▸ Nat.le_succ _
      | keeps hg | early hg => exact Nat.le_of_eq hg.symm
    exact along_append.2 ⟨h.past.imp fun _ _ hd ↦ Nat.le_trans hd hle, hle, trivial⟩
  have hc := h.covered
  have hiff := h.exact_iff
  suffices hsuff : ((c.turns ts).2.turn t).client.outbox.pongs.length ≤
        ((c.turns ts).2.turn t).client.outbox.requests ∧
      (((c.turns ts).2.turn t).client.outbox.pongs.length =
        ((c.turns ts).2.turn t).client.outbox.requests ↔
          c.NoneEarly ((c.turns ts).2.turn t).client.generation (ts ++ [t])) by
    refine ⟨?_, ?_, ?_⟩ <;> rw [turns_snoc]
    · exact hsuff.1
    · exact hsuff.2
    · exact hpast
  cases hs with
  | anew hg he =>
    refine ⟨Nat.le_of_eq he, iff_of_true he (noneEarly_snoc.2 ⟨?_, fun hn ↦ ?_⟩)⟩
    · exact h.past.imp fun d _ hd hn ↦ by omega
    · omega
  | keeps hg hn hb =>
    rw [noneEarly_snoc, hg, ← hiff]
    unfold Outbox.Balances at hb
    refine ⟨by omega, fun he ↦ ⟨by omega, fun _ ↦ hn⟩, fun he ↦ ?_⟩
    have he := he.1
    omega
  | early hg he hlt hr =>
    rw [noneEarly_snoc]
    exact ⟨by omega, iff_of_false (by omega) fun hn ↦ hn.2 hg.symm he⟩

theorem steady_turns (h : c.outbox.Steady) (ts : List (Turn κ)) :
    (c.turns ts).2.outbox.Steady := by
  induction ts generalizing c with
  | nil => exact h
  | cons t ts ih => exact ih ((c.turn_follows t).outbox ▸ h.run _)

theorem Counted.new (options : ClientOptions) (ts : List (Turn κ)) :
    Counted ({ options } : Client κ) ts := by
  induction ts using List.reverseRecOn with
  | nil => exact ⟨Nat.le_refl _, iff_of_true rfl trivial, trivial⟩
  | append_singleton ts t ih => exact ih.snoc t

end Client

namespace History

theorem length_pingsOn (options : ClientOptions) (ts : List (Turn κ)) (n : Nat) :
    (((new options).after ts).pingsOn n).length =
      (Sent.received (Client.log { options } ts) n).countP Parcel.isPing := by
  rw [pingsOn, Ledger.length_pings, Ledger.map_sentOn, ← log_after]
  rfl

theorem Owes.count_pongs_le {h : History κ} {t : Turn κ} (ho : h.Owes t) {n : Nat}
    (hle : h.pongs.count n ≤ (h.pingsOn n).length) :
    (h.next t).pongs.count n ≤ ((h.next t).pingsOn n).length := by
  have hlen : (h.pingsOn n).length ≤ ((h.next t).pingsOn n).length := by
    obtain ⟨more, hm⟩ := h.ledger.sentOn_grows_run (h.client.turnUses t) n
    rw [pingsOn, pingsOn, next, ← hm, Ledger.pings_append, List.length_append]
    exact Nat.le_add_right _ _
  by_cases ht : t.pong? = some n
  · simp only [Owes, ht] at ho
    have hc : (h.next t).pongs.count n = h.pongs.count n + 1 := by simp [next, ht]
    exact hc ▸ Nat.le_trans ho hlen
  · rw [count_pongs_next ht]
    exact Nat.le_trans hle hlen

/-- A server that sends no answer that it does not owe has sent no more of them than there were
requests. -/
theorem count_pongs_le {options : ClientOptions} {ts : List (Turn κ)}
    (ho : Along Owes (new options) ts) (n : Nat) : (ts.filterMap Turn.pong?).count n ≤
      (Sent.received (Client.log ({ options } : Client κ) ts) n).countP Parcel.isPing := by
  obtain ⟨-, hle⟩ := ho.invariant (I := fun h ↦ h.pongs.count n ≤ (h.pingsOn n).length)
    (fun _ _ hle ho ↦ ho.count_pongs_le hle) (Nat.le_refl _)
  have hp : ((new options).after ts).pongs = ts.filterMap Turn.pong? := pongs_after _ ts
  rw [← length_pingsOn, ← hp]
  exact hle

/-- An answer comes early only on a connection that was lost before. -/
theorem noneEarly {options : ClientOptions} {ts : List (Turn κ)}
    (ha : Along Admits (new options) ts) (ho : Along Owes (new options) ts) (generation : Nat) :
    Client.NoneEarly { options } generation ts := by
  obtain ⟨hi, -⟩ := (Sound.new options).of_owes (.new options) ha ho
  refine (Along.hom History.client fun _ _ ↦ rfl).1 (hi.imp fun h t hi _ he ↦ ?_)
  obtain ⟨⟨hs, hl⟩, ha, ho⟩ := hi
  obtain ⟨rfl, hf, -⟩ := he
  obtain ⟨w, trip, trips, -, -, hpos, -⟩ := hl.pong hs ha ho
  rw [← hs.outbox] at hf
  exact Nat.lt_irrefl 0 (hf ▸ hpos)

end History

end Herald
