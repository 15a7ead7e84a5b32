import Herald.Cli.Session
import Herald.Proofs.Host.Turns

namespace Herald.Cli.Session

variable {s s' s'' : Session}

theorem call_host (s : Session) (due : Option (Call Hook)) : (s.call due).host = s.host := by
  rcases due with _ | call
  · rfl
  · cases call with
    | error callback e =>
      dsimp only [call]
      split <;> rfl
    | message | connected | acked | timeout => rfl

theorem tell_host (s : Session) (e : Event Hook) : (s.tell e).host = (s.host.handle e).2.2 :=
  call_host _ _

theorem tell_network (s : Session) (e : Event Hook) :
    (s.tell e).host.network = s.host.network := by
  rw [tell_host]
  exact (s.host.handle_performs e).network

structure Keeps (s s' : Session) : Prop where
  request : s'.request = s.request
  stage : s'.stage = s.stage
  printed : s'.printed = s.printed

theorem Keeps.trans (h : s.Keeps s') (h' : s'.Keeps s'') : s.Keeps s'' :=
  ⟨h'.request.trans h.request, h'.stage.trans h.stage, h'.printed.trans h.printed⟩

theorem call_keeps (s : Session) (due : Option (Call Hook)) : s.Keeps (s.call due) := by
  rcases due with _ | call
  · exact ⟨rfl, rfl, rfl⟩
  · cases call with
    | error callback e =>
      dsimp only [call]
      split <;> exact ⟨rfl, rfl, rfl⟩
    | message | connected | acked | timeout => exact ⟨rfl, rfl, rfl⟩

theorem call_keeps_of_host (s : Session) (host : Host Hook) (due : Option (Call Hook)) :
    s.Keeps (call { s with host } due) := by
  have hk := call_keeps { s with host } due
  exact ⟨hk.request, hk.stage, hk.printed⟩

theorem tell_keeps (s : Session) (e : Event Hook) : s.Keeps (s.tell e) :=
  s.call_keeps_of_host (s.host.handle e).2.2 (s.host.handle e).2.1

/-- The server has answered only if a callback tells so. -/
theorem acked_of_call {due : Option (Call Hook)} (hs : s.acked = false)
    (ha : (s.call due).acked = true) : ∃ callback, due = some (.acked callback) := by
  have hne : s.acked ≠ true := by simp [hs]
  rcases due with _ | call
  · exact (hne ha).elim
  · cases call with
    | error callback e =>
      dsimp only [call] at ha
      split at ha <;> exact (hne ha).elim
    | acked callback => exact ⟨callback, rfl⟩
    | message | connected | timeout => exact (hne ha).elim

theorem acked_of_tell {e : Event Hook} (hs : s.acked = false) (ha : (s.tell e).acked = true) :
    ∃ callback, (s.host.client.turn (.event e)).call = some (.acked callback) :=
  acked_of_call (s := { s with host := (s.host.handle e).2.2 }) hs ha

def hear (s : Session) (generation : Nat) (fs : List Frame) : Session :=
  fs.foldl (fun s f ↦ s.tell (.frame generation f)) s

theorem hear_keeps (s : Session) (generation : Nat) (fs : List Frame) :
    s.Keeps (s.hear generation fs) := by
  induction fs generalizing s with
  | nil => exact ⟨rfl, rfl, rfl⟩
  | cons f fs ih => exact (s.tell_keeps _).trans (ih _)

def heard (generation : Nat) (fs : List Frame) : List (Turn Hook) :=
  fs.map fun f ↦ .event (.frame generation f)

variable {c : Client Hook} {ts : List (Turn Hook)}

theorem tell_recounts (hr : s.host.Recounts c ts) (e : Event Hook) :
    (s.tell e).host.Recounts c (ts ++ [.event e]) := by
  rw [tell_host]
  exact hr.handle e

theorem hear_recounts (hr : s.host.Recounts c ts) (generation : Nat) (fs : List Frame) :
    (s.hear generation fs).host.Recounts c (ts ++ heard generation fs) := by
  induction fs generalizing s ts with
  | nil => exact (List.append_nil ts).symm ▸ hr
  | cons f fs ih =>
    have ih := ih (tell_recounts hr (.frame generation f))
    rwa [List.append_assoc] at ih

/-- Among the frames after which the server has answered there is one that brings the answer. -/
theorem acked_of_hear (hr : s.host.Recounts c ts) (hs : s.acked = false) {generation : Nat}
    {fs : List Frame} (ha : (s.hear generation fs).acked = true) :
    ∃ before f after callback, fs = before ++ f :: after ∧
      ((c.turns (ts ++ heard generation before)).2.turn (.event (.frame generation f))).call =
        some (.acked callback) := by
  induction fs generalizing s ts with
  | nil => cases hs.symm.trans ha
  | cons f fs ih =>
    cases hf : (s.tell (.frame generation f)).acked with
    | true =>
      obtain ⟨callback, hc⟩ := acked_of_tell hs hf
      refine ⟨[], f, fs, callback, rfl, ?_⟩
      rw [hr.client] at hc
      simpa [heard] using hc
    | false =>
      obtain ⟨before, g, after, callback, rfl, hc⟩ :=
        ih (tell_recounts hr (.frame generation f)) hf ha
      refine ⟨f :: before, g, after, callback, rfl, ?_⟩
      rwa [List.append_assoc] at hc

end Herald.Cli.Session
