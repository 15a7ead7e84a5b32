import Herald.Proofs.Client.Ordinary
import Herald.Proofs.Client.RoundTrips
import Herald.Proofs.Outbox.Target

namespace Herald

variable {κ : Type}

def RoundTrip.handshake? : RoundTrip κ → Option Nat
  | .handshake generation => some generation
  | .user _ => none

namespace Client

def handshakes (c : Client κ) : List Nat := c.outbox.pongs.filterMap RoundTrip.handshake?

def greeting? (c : Client κ) (t : Turn κ) : Option Nat :=
  match (c.turn t).call with
  | some (.connected _) => some c.generation
  | _ => none

def greetings (c : Client κ) : List (Turn κ) → List Nat
  | [] => []
  | t :: ts => (c.greeting? t).toList ++ (c.turn t).client.greetings ts

theorem greeting?_eq_some {c : Client κ} {t : Turn κ} {n : Nat} (h : c.greeting? t = some n) :
    n = c.generation ∧ ∃ callback, (c.turn t).call = some (.connected callback) := by
  unfold greeting? at h
  split at h
  · rename_i callback hc
    exact ⟨(Option.some.inj h).symm, callback, hc⟩
  · cases h

/-- The round trip of the handshake of an old connection calls nobody. -/
theorem pong_of_old {c : Client κ} {n : Nat} {pongs : List (RoundTrip κ)}
    (hp : c.outbox.pongs = .handshake n :: pongs) (hn : n ≠ c.generation) :
    c.turn (.event (.frame c.generation .pong)) =
      { client := { c with outbox := c.outbox.complete.2 } } := by
  simp only [turn, step, receive]
  rw [if_neg (not_not_intro rfl), pong_eq, hp, Outbox.complete, hp]
  simp only [answer, established]
  rw [if_neg fun h ↦ hn h.1.symm]

/-- Apart from taking a connection no handshake is asked for. -/
theorem ordinary_callbacks {ops : List (Use κ)} (h : ∀ op ∈ ops, Ordinary op) :
    (ops.filterMap Outbox.Op.callback?).filterMap RoundTrip.handshake? = [] := by
  refine List.filterMap_eq_nil_iff.2 fun purpose hp ↦ ?_
  obtain ⟨op, hop, he⟩ := List.mem_filterMap.1 hp
  cases h op hop with
  | trip callback =>
    cases he
    rfl
  | _ => cases he

theorem ordinary_pongs_run {o : Outbox Command (RoundTrip κ)} {ops : List (Use κ)}
    (h : ∀ op ∈ ops, Ordinary op) : ((o.run ops).2.pongs.filterMap RoundTrip.handshake?).Sublist
      (o.pongs.filterMap RoundTrip.handshake?) := by
  have hs := (o.pongs_run_sublist ops).filterMap RoundTrip.handshake?
  rwa [List.filterMap_append, ordinary_callbacks h, List.append_nil] at hs

theorem standing_of_attach {c : Client κ} {t : Turn κ} {w : Writer} {preamble : List Command}
    {ops : List (Use κ)} (hu : c.turnUses t = .attach w preamble :: ops) :
    (c.turn t).client.standing = (.connected, c.generation + 1, c.closing) := by
  have hm := c.turn_moves t
  rw [hu] at hm
  generalize (c.turn t).client.standing = s at hm
  cases hm with
  | stay hp => exact (hp _ List.mem_cons_self).elim
  | connect => rfl

/-- At a turn a client greets for the oldest handshake at most, and takes a connection with a new
generation at most. -/
theorem greeting_turn (c : Client κ) (t : Turn κ) : ∃ new,
    ((c.greeting? t).toList ++ (c.turn t).client.handshakes).Sublist (c.handshakes ++ new) ∧
      (new = [] ∧ c.generation ≤ (c.turn t).client.generation ∨
        new = [c.generation + 1] ∧ c.generation + 1 ≤ (c.turn t).client.generation) := by
  have hf := c.turn_follows t
  have hm := c.turn_moves t
  rcases c.turnUses_ordinary t with ⟨u, uri, rfl, -, -, hu⟩ | ho
  · refine ⟨[c.generation + 1], ?_, .inr ⟨rfl, ?_⟩⟩
    · have hg : c.greeting? (.event (.connected u)) = none := by
        refine Option.eq_none_iff_forall_ne_some.2 fun n hn ↦ ?_
        obtain ⟨-, callback, hc⟩ := greeting?_eq_some hn
        cases (turn_call hc).1
      rw [hg, handshakes, hf.outbox, hu, Outbox.run_attach_roundTrip, List.filterMap_append]
      exact List.Sublist.refl _
    · exact Nat.le_of_eq (congrArg (·.2.1) (standing_of_attach hu)).symm
  · refine ⟨[], ?_, .inl ⟨rfl, hm.generation_le⟩⟩
    rw [List.append_nil]
    cases hg : c.greeting? t with
    | none =>
      rw [handshakes, hf.outbox]
      exact ordinary_pongs_run ho
    | some n =>
      obtain ⟨rfl, callback, hc⟩ := greeting?_eq_some hg
      obtain ⟨rfl, -, -, pongs, hp⟩ := turn_call hc
      rw [handshakes, hf.outbox, History.turnUses_pong, Outbox.run_singleton, handshakes, hp]
      simp only [Outbox.apply, Outbox.complete, hp]
      exact List.Sublist.refl _

/-- The connections greeted so far and those whose handshakes are still to be answered, in the
order in which they were taken. -/
structure Rising (greeted : List Nat) (c : Client κ) : Prop where
  order : (greeted ++ c.handshakes).Pairwise (· < ·)
  le : ∀ n ∈ greeted ++ c.handshakes, n ≤ c.generation

theorem Rising.turn {greeted : List Nat} {c : Client κ} (h : Rising greeted c) (t : Turn κ) :
    Rising (greeted ++ (c.greeting? t).toList) (c.turn t).client := by
  obtain ⟨new, hs, hn⟩ := c.greeting_turn t
  have hs := (List.Sublist.refl greeted).append hs
  rw [← List.append_assoc, ← List.append_assoc] at hs
  refine ⟨List.Pairwise.sublist hs ?_, fun n hm ↦ ?_⟩
  · rcases hn with ⟨rfl, -⟩ | ⟨rfl, -⟩
    · exact (List.append_nil _).symm ▸ h.order
    · refine List.pairwise_append.2 ⟨h.order, List.pairwise_singleton _ _, fun n hm m hm' ↦ ?_⟩
      obtain rfl := List.mem_singleton.1 hm'
      exact Nat.lt_succ_of_le (h.le n hm)
  · rcases List.mem_append.1 (hs.subset hm) with hm | hm
    · have hle := h.le n hm
      rcases hn with ⟨-, hg⟩ | ⟨-, hg⟩ <;> omega
    · rcases hn with ⟨rfl, -⟩ | ⟨rfl, hg⟩
      · cases hm
      · exact List.mem_singleton.1 hm ▸ hg

theorem Rising.turns {greeted : List Nat} {c : Client κ} (h : Rising greeted c)
    (ts : List (Turn κ)) : Rising (greeted ++ c.greetings ts) (c.turns ts).2 := by
  induction ts generalizing c greeted with
  | nil => exact (List.append_nil greeted).symm ▸ h
  | cons t ts ih =>
    have hs := ih (h.turn t)
    rw [List.append_assoc] at hs
    exact hs

theorem Rising.new (options : ClientOptions) : Rising [] ({ options } : Client κ) :=
  ⟨List.Pairwise.nil, nofun⟩

end Client

end Herald
