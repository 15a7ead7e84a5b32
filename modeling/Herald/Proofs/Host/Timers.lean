import Herald.Host
import Herald.Proofs.Client.Retrying

namespace Herald

variable {κ : Type}

namespace Timer

theorem first?_eq_none_iff {ts : List (Timer κ)} : first? ts = none ↔ ts = [] := by
  cases ts with
  | nil => simp [first?]
  | cons t ts =>
    simp only [first?, reduceCtorEq, iff_false]
    split
    · split <;> simp
    · simp

/-- The timer due first stands somewhere in the list, in which none is due before it. -/
theorem first?_eq_some {ts us : List (Timer κ)} {t : Timer κ} (h : first? ts = some (t, us)) :
    ∃ xs ys, ts = xs ++ t :: ys ∧ us = xs ++ ys ∧ ∀ u ∈ ts, t.due ≤ u.due := by
  induction ts generalizing t us with
  | nil => cases h
  | cons v ts ih =>
    rw [first?] at h
    split at h
    · rename_i u vs hf
      obtain ⟨xs, ys, hs, hu, hle⟩ := ih hf
      split at h
      · rename_i hlt
        cases h
        exact ⟨v :: xs, ys, by rw [hs]; rfl, by rw [hu]; rfl,
          List.forall_mem_cons.2 ⟨Nat.le_of_lt hlt, hle⟩⟩
      · rename_i hlt
        cases h
        have hv (w : Timer κ) (hw : w ∈ ts) : v.due ≤ w.due :=
          Nat.le_trans (Nat.le_of_not_lt hlt) (hle w hw)
        exact ⟨[], ts, rfl, rfl, List.forall_mem_cons.2 ⟨Nat.le_refl _, hv⟩⟩
    · rename_i hn
      cases h
      refine ⟨[], ts, rfl, rfl, List.forall_mem_cons.2 ⟨Nat.le_refl _, ?_⟩⟩
      rw [first?_eq_none_iff.1 hn]
      exact List.forall_mem_nil _

def wake? (t : Timer κ) : Option (Nat × Nat) :=
  match t.alarm with
  | .wake loop => some (t.due, loop)
  | .expire .. => none

theorem eq_of_wake? {t : Timer κ} {due loop : Nat} (h : t.wake? = some (due, loop)) :
    t = ⟨due, .wake loop⟩ := by
  rcases t with ⟨_, _ | _⟩ <;> cases h
  rfl

end Timer

def Retry.apply (now wait : Nat) (wakes : List (Nat × Nat)) : Retry → List (Nat × Nat)
  | .sleep loop => wakes ++ [(now + wait, loop)]
  | .abort loop => wakes.filter (·.2 != loop)

namespace Host

variable {h : Host κ}

def wakes (h : Host κ) : List (Nat × Nat) := h.timers.filterMap Timer.wake?

def Punctual (h : Host κ) : Prop := ∀ t ∈ h.timers, h.now ≤ t.due

theorem setTimer_punctual (hp : h.Punctual) (afterMs : Nat) (alarm : Alarm κ) :
    (h.setTimer afterMs alarm).Punctual := by
  intro t ht
  rcases List.mem_append.1 ht with ht | ht
  · exact hp t ht
  · obtain rfl := List.mem_singleton.1 ht
    exact Nat.le_add_right _ _

theorem setTimer_wakes (h : Host κ) (afterMs : Nat) (alarm : Alarm κ) :
    (h.setTimer afterMs alarm).wakes =
      h.wakes ++ ((⟨h.now + afterMs, alarm⟩ : Timer κ).wake?).toList := by
  rw [wakes, setTimer, List.filterMap_append]
  cases alarm <;> rfl

structure Performs (h h' : Host κ) (retries : List Retry) : Prop where
  client : h'.client = h.client
  network : h'.network = h.network
  now : h'.now = h.now
  punctual : h.Punctual → h'.Punctual
  wakes : h'.wakes =
    retries.foldl (Retry.apply h.now h.client.options.reconnectWaitMs) h.wakes

theorem Performs.refl (h : Host κ) : h.Performs h [] := ⟨rfl, rfl, rfl, id, rfl⟩

theorem Performs.trans {h₁ h₂ : Host κ} {rs ss : List Retry} (h₁' : h.Performs h₁ rs)
    (h₂' : h₁.Performs h₂ ss) : h.Performs h₂ (rs ++ ss) where
  client := h₂'.client.trans h₁'.client
  network := h₂'.network.trans h₁'.network
  now := h₂'.now.trans h₁'.now
  punctual := h₂'.punctual ∘ h₁'.punctual
  wakes := by rw [h₂'.wakes, h₁'.wakes, h₁'.now, h₁'.client, List.foldl_append]

theorem wakes_filter (ts : List (Timer κ)) (loop : Nat) :
    (ts.filter fun t ↦ match t.alarm with
      | .wake other => other != loop
      | .expire .. => true).filterMap Timer.wake? =
        (ts.filterMap Timer.wake?).filter (·.2 != loop) := by
  induction ts with
  | nil => rfl
  | cons t ts ih =>
    rcases t with ⟨due, _ | other⟩
    · simpa [Timer.wake?, List.filterMap_cons] using ih
    · by_cases ho : other = loop <;> simp [Timer.wake?, ho, ih]

theorem perform_output (h : Host κ) (o : Output κ) : h.Performs (h.perform o) o.retry?.toList := by
  cases o with
  | write sent => exact ⟨rfl, rfl, rfl, id, rfl⟩
  | hangUp generation =>
    unfold perform
    dsimp only
    split
    · split
      · exact ⟨rfl, rfl, rfl, id, rfl⟩
      · exact .refl h
    · exact .refl h
  | sleep loop => exact ⟨rfl, rfl, rfl, (setTimer_punctual · _ _), h.setTimer_wakes _ _⟩
  | abort loop =>
    exact ⟨rfl, rfl, rfl, fun hp t ht ↦ hp t (List.mem_filter.1 ht).1, wakes_filter _ _⟩
  | watch sid token afterMs callback =>
    exact ⟨rfl, rfl, rfl, (setTimer_punctual · _ _),
      (h.setTimer_wakes _ _).trans (List.append_nil _)⟩

theorem performs_outputs (h : Host κ) (os : List (Output κ)) :
    h.Performs (os.foldl perform h) (os.filterMap Output.retry?) := by
  induction os generalizing h with
  | nil => exact .refl h
  | cons o os ih =>
    have hs : (o :: os).filterMap Output.retry? =
        o.retry?.toList ++ os.filterMap Output.retry? := by
      rw [List.filterMap_cons]
      cases o.retry? <;> rfl
    rw [hs]
    exact (h.perform_output o).trans (ih _)

theorem handle_performs (h : Host κ) (e : Event κ) :
    Performs { h with client := (h.client.step e).2.client } (h.handle e).2.2
      (h.client.step e).2.retries := performs_outputs _ _

end Host

end Herald
