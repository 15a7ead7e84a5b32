import Herald.Proofs.Client.Move
import Herald.Proofs.Outbox.Pairing

namespace Herald

variable {κ : Type}

def Turn.pong? : Turn κ → Option Nat
  | .event (.frame generation .pong) => some generation
  | _ => none

/-- A client with the ledger of its outbox, and the connections that brought an answer to a round
trip, one after another. -/
structure History (κ : Type) where
  client : Client κ
  ledger : Ledger Command (RoundTrip κ) := {}
  pongs : List Nat := []

namespace History

def new (options : ClientOptions) : History κ := { client := { options } }

def next (h : History κ) (t : Turn κ) : History κ where
  client := (h.client.turn t).client
  ledger := h.ledger.run (h.client.turnUses t)
  pongs := h.pongs ++ t.pong?.toList

def after (h : History κ) (ts : List (Turn κ)) : History κ := ts.foldl next h

def pingsOn (h : History κ) (n : Nat) : List Nat := Ledger.pings (Ledger.sentOn h.ledger.sent n)

/-- A connection brings nothing before the client takes it and nothing after it is lost. -/
def Admits (h : History κ) : Turn κ → Prop
  | .event (.frame generation _) =>
    generation ∈ h.ledger.attached ∧ generation ∉ h.ledger.dropped
  | _ => True

instance (h : History κ) (t : Turn κ) : Decidable (h.Admits t) := by
  unfold Admits
  split <;> infer_instance

/-- A connection brings an answer only if one to a request handed to it is outstanding. -/
def Owes (h : History κ) (t : Turn κ) : Prop :=
  match t.pong? with
  | some generation => h.pongs.count generation < (h.pingsOn generation).length
  | none => True

instance (h : History κ) (t : Turn κ) : Decidable (h.Owes t) := by
  unfold Owes
  split <;> infer_instance

abbrev Along (P : History κ → Turn κ → Prop) (h : History κ) (ts : List (Turn κ)) : Prop :=
  Herald.Along next P h ts

theorem after_append (h : History κ) (xs ys : List (Turn κ)) :
    h.after (xs ++ ys) = (h.after xs).after ys := List.foldl_append

theorem along_append {P : History κ → Turn κ → Prop} {h : History κ} {xs ys : List (Turn κ)} :
    Along P h (xs ++ ys) ↔ Along P h xs ∧ Along P (h.after xs) ys := Herald.Along.append

/-- The writer in a ledger is the connection of a connected client. All connections so far have
generations up to that of the client, and the one with that generation is the one in use or was
lost. -/
structure Tracks (l : Ledger Command (RoundTrip κ)) (s : Phase × Nat × Bool) : Prop where
  number : l.number = if s.1 = .connected then some s.2.1 else none
  attached : ∀ n ∈ l.attached, n ≤ s.2.1
  live : s.2.1 ∈ l.attached → s.2.1 ∈ l.dropped ∨ s.1 = .connected

theorem Tracks.not_attached {l : Ledger Command (RoundTrip κ)} {s : Phase × Nat × Bool}
    (h : Tracks l s) : s.2.1 + 1 ∉ l.attached := fun hn ↦
  Nat.not_succ_le_self _ (h.attached _ hn)

theorem Tracks.writer_none {l : Ledger Command (RoundTrip κ)} {s : Phase × Nat × Bool}
    (h : Tracks l s) (hp : s.1 ≠ .connected) : l.writer = none := by
  have hn := h.number
  rw [if_neg hp] at hn
  exact Option.map_eq_none_iff.1 hn

theorem Tracks.move {c : Client κ} {l : Ledger Command (RoundTrip κ)} {t : Turn κ}
    {ops : List (Use κ)} {s : Phase × Nat × Bool} (h : Tracks l c.standing) (hm : c.Move t ops s) :
    Tracks (l.run ops) s := by
  have hnew : c.generation + 1 ∉ l.attached := h.not_attached
  have hle : ∀ n ∈ l.attached, n ≤ c.generation + 1 := fun n hn ↦
    Nat.le_succ_of_le (h.attached n hn)
  cases hm with
  | stay hp =>
    obtain ⟨⟨hn, ha, hd⟩, -⟩ := l.run_plain hp
    exact ⟨hn ▸ h.number, ha ▸ h.attached, ha ▸ hd ▸ h.live⟩
  | complete ht =>
    obtain ⟨⟨hn, ha, hd⟩, -⟩ := Ledger.SameWriters.complete l
    exact ⟨hn ▸ h.number, ha ▸ h.attached, ha ▸ hd ▸ h.live⟩
  | snap ht =>
    obtain ⟨hn, ha, hd⟩ := Ledger.SameWriters.breakWriter l
    exact ⟨hn ▸ h.number, ha ▸ h.attached, ha ▸ hd ▸ h.live⟩
  | wander hp hp' =>
    refine ⟨?_, h.attached, fun hn ↦ .inl ((h.live hn).resolve_right hp)⟩
    rw [if_neg hp']
    exact Option.map_eq_none_iff.2 (h.writer_none hp)
  | connect hp =>
    refine ⟨rfl, fun n hn ↦ ?_, fun _ ↦ .inr rfl⟩
    rcases List.mem_append.1 hn with hn | hn
    · exact hle n hn
    · exact Nat.le_of_eq (List.mem_singleton.1 hn)
  | lose hp hp' =>
    refine ⟨(if_neg hp').symm, h.attached, fun _ ↦ .inl ?_⟩
    have hn : l.number = some c.generation := h.number.trans (if_pos hp)
    obtain ⟨w, hw, hg⟩ := Option.map_eq_some_iff.1 hn
    have hd : (l.run [.detach]).dropped = l.dropped ++ [c.generation] := by
      simp only [Ledger.run_cons, Ledger.run_nil, Ledger.apply, Ledger.use, Ledger.detach, hw]
      exact congrArg (l.dropped ++ [·]) hg
    exact hd ▸ List.mem_append_right _ (List.mem_singleton_self _)
  | stop => exact ⟨rfl, hle, fun hn ↦ (hnew hn).elim⟩
  | fall => exact ⟨rfl, hle, fun hn ↦ (hnew hn).elim⟩

def Ready (h : History κ) (t : Turn κ) : Prop :=
  t.pong? = some h.client.generation →
    ∃ w, h.ledger.writer = some w ∧ (w.isOpen ∨ 0 < h.ledger.inFlight)

structure Sound (h : History κ) : Prop where
  ledger : h.ledger.Sound
  outbox : h.ledger.outbox = h.client.outbox
  tracks : Tracks h.ledger h.client.standing

theorem Sound.new (options : ClientOptions) : (new (κ := κ) options).Sound where
  ledger := .new
  outbox := rfl
  tracks := ⟨rfl, nofun, nofun⟩

theorem Sound.allFit {h : History κ} (hs : h.Sound) {t : Turn κ} (hr : h.Ready t) :
    h.ledger.AllFit (h.client.turnUses t) := by
  have hm := h.client.turn_moves t
  generalize h.client.turnUses t = ops at hm
  generalize (h.client.turn t).client.standing = s at hm
  cases hm with
  | stay hp => exact .of_plain hp
  | complete ht => exact ⟨hr (ht ▸ rfl), trivial⟩
  | wander => trivial
  | snap | lose | stop => exact ⟨trivial, trivial⟩
  | fall => exact ⟨trivial, trivial, trivial⟩
  | connect hp => exact ⟨⟨rfl, hs.tracks.writer_none hp, hs.tracks.not_attached⟩, trivial, trivial⟩

theorem Sound.next {h : History κ} (hs : h.Sound) {t : Turn κ} (hr : h.Ready t) :
    (h.next t).Sound where
  ledger := hs.ledger.run (hs.allFit hr)
  outbox := by
    obtain ⟨ho, -⟩ := Ledger.run_erases hs.ledger.steady (h.client.turnUses t)
    rw [hs.outbox] at ho
    exact ho.trans (h.client.turn_follows t).outbox.symm
  tracks := hs.tracks.move (h.client.turn_moves t)

theorem after_client (h : History κ) (ts : List (Turn κ)) :
    (h.after ts).client = (h.client.turns ts).2 := by
  induction ts generalizing h with
  | nil => rfl
  | cons t ts ih => exact ih (h.next t)

theorem pongs_after (h : History κ) (ts : List (Turn κ)) :
    (h.after ts).pongs = h.pongs ++ ts.filterMap Turn.pong? := by
  induction ts generalizing h with
  | nil => exact (List.append_nil _).symm
  | cons t ts ih =>
    refine (ih (h.next t)).trans ?_
    rw [next, List.append_assoc, List.filterMap_cons]
    cases t.pong? <;> rfl

/-- The ledger tells all that the client has handed to its connections. -/
theorem log_after (options : ClientOptions) (ts : List (Turn κ)) :
    ((new options).after ts).ledger.log = Client.log { options } ts := by
  suffices hsuff : ∀ h : History κ, h.client.outbox.Steady → h.ledger.outbox = h.client.outbox →
      (h.after ts).ledger.log = h.ledger.log ++ h.client.log ts from
    hsuff (new options) .new rfl
  induction ts with
  | nil => exact fun h _ _ ↦ (List.append_nil _).symm
  | cons t ts ih =>
    intro h hs ho
    have hf := h.client.turn_follows t
    obtain ⟨ho', hl⟩ := Ledger.run_erases (ho ▸ hs) (h.client.turnUses t)
    rw [ho, ← hf.outbox] at ho'
    rw [ho, ← hf.written] at hl
    refine (ih (h.next t) (hf.outbox ▸ hs.run _) ho').trans ?_
    rw [show (h.next t).ledger.log = _ from hl, List.append_assoc]
    rfl

end History

end Herald
