import Herald.Outbox

namespace Herald

variable {α κ : Type}

def Parcel.command? : Parcel α → Option α
  | .command c => some c
  | .ping => none

def Parcel.isPing : Parcel α → Bool
  | .command _ => false
  | .ping => true

theorem exists_split_of_lt_countP {p : α → Bool} {as : List α} {n : Nat} (h : n < as.countP p) :
    ∃ xs a ys, as = xs ++ a :: ys ∧ p a ∧ xs.countP p = n := by
  induction as generalizing n with
  | nil => cases h
  | cons a as ih =>
    by_cases ha : p a
    · cases n with
      | zero => exact ⟨[], a, as, rfl, ha, rfl⟩
      | succ n =>
        rw [List.countP_cons_of_pos ha, Nat.succ_lt_succ_iff] at h
        obtain ⟨xs, b, ys, rfl, hb, hn⟩ := ih h
        exact ⟨a :: xs, b, ys, rfl, hb, by rw [List.countP_cons_of_pos ha, hn]⟩
    · rw [List.countP_cons_of_neg ha] at h
      obtain ⟨xs, b, ys, rfl, hb, hn⟩ := ih h
      exact ⟨a :: xs, b, ys, rfl, hb, by rw [List.countP_cons_of_neg ha, hn]⟩

def Parcel.commands (ps : List (Parcel α)) : List α := ps.filterMap Parcel.command?

@[simp] theorem Parcel.commands_nil : commands ([] : List (Parcel α)) = [] := rfl

@[simp] theorem Parcel.commands_append (ps qs : List (Parcel α)) :
    commands (ps ++ qs) = commands ps ++ commands qs := List.filterMap_append

@[simp] theorem Parcel.commands_command (c : α) : commands [.command c] = [c] := rfl

@[simp] theorem Parcel.commands_ping : commands [(.ping : Parcel α)] = [] := rfl

@[simp] theorem Parcel.commands_map_command (cs : List α) : commands (cs.map .command) = cs := by
  simp [commands, command?, List.filterMap_map, Function.comp_def]

@[simp] theorem Parcel.commands_replicate_ping (n : Nat) :
    commands (List.replicate n (.ping : Parcel α)) = [] := by
  simp [commands, command?]

def Sent.received (log : List (Sent α)) (n : Nat) : List (Parcel α) :=
  (log.filter (·.writer == n)).map (·.parcel)

@[simp] theorem Sent.received_append (as bs : List (Sent α)) (n : Nat) :
    received (as ++ bs) n = received as n ++ received bs n := by
  simp [received]

theorem Sent.received_map (ps : List (Parcel α)) (m n : Nat) :
    received (ps.map (⟨m, ·⟩)) n = if m = n then ps else [] := by
  split
  · rename_i h
    simp [received, List.filter_map, Function.comp_def, h]
  · rename_i h
    simp [received, List.filter_map, Function.comp_def, h]

theorem Sent.received_eq_nil {log : List (Sent α)} {n : Nat} (h : ∀ s ∈ log, s.writer ≠ n) :
    received log n = [] := by
  rw [received, List.filter_eq_nil_iff.2 (fun s hs ↦ by simpa using h s hs)]
  rfl

/-- What the server has dealt with when a writer brings its next answer, after some others: that
answer is to the request that the writer was handed next. -/
def Sent.Processed (log : List (Sent α)) (n answers : Nat) (ps : List (Parcel α)) : Prop :=
  ∃ qs, received log n = ps ++ .ping :: qs ∧ ps.countP Parcel.isPing = answers

theorem Sent.processed_of_prefix {log : List (Sent α)} {n answers : Nat} {first : List (Parcel α)}
    (h : first ++ [.ping] <+: received log n) (ha : answers ≤ first.countP Parcel.isPing) :
    ∃ ps, Processed log n answers ps ∧ ps <+: first ∧
      (ps = first ↔ answers = first.countP Parcel.isPing) := by
  obtain ⟨rest, hr⟩ := h
  rcases Nat.eq_or_lt_of_le ha with rfl | hlt
  · exact ⟨first, ⟨rest, by simp [← hr], rfl⟩, List.prefix_rfl, iff_of_true rfl rfl⟩
  · obtain ⟨ps, _ | _, qs, rfl, hp, hc⟩ := exists_split_of_lt_countP hlt
    · cases hp
    refine ⟨ps, ⟨qs ++ [.ping] ++ rest, by simp [← hr], hc⟩, List.prefix_append _ _, ?_⟩
    exact iff_of_false (by simp) (Nat.ne_of_lt hlt)

namespace Outbox

def Op.Plain : Op α κ → Prop
  | .send _ | .sendIfLive _ | .roundTrip _ => True
  | _ => False

def run (o : Outbox α κ) : List (Op α κ) → List (Sent α) × Outbox α κ
  | [] => ([], o)
  | op :: ops =>
    let (_, sent, o) := o.apply op
    let (more, o) := o.run ops
    (sent ++ more, o)

theorem run_nil (o : Outbox α κ) : o.run [] = ([], o) := rfl

theorem run_cons (o : Outbox α κ) (op : Op α κ) (ops : List (Op α κ)) : o.run (op :: ops) =
    ((o.apply op).2.1 ++ ((o.apply op).2.2.run ops).1, ((o.apply op).2.2.run ops).2) := rfl

theorem run_singleton (o : Outbox α κ) (op : Op α κ) : o.run [op] = (o.apply op).2 := by
  simp [run_cons, run_nil]

theorem run_append (o : Outbox α κ) (xs ys : List (Op α κ)) :
    o.run (xs ++ ys) = ((o.run xs).1 ++ ((o.run xs).2.run ys).1, ((o.run xs).2.run ys).2) := by
  induction xs generalizing o with
  | nil => simp [run_nil]
  | cons op xs ih => simp [run_cons, ih]

end Outbox

end Herald
