import Herald.Proofs.Client.Greeting

namespace Herald

variable {κ : Type}

/-- Something that happens to a client, where the answer to a handshake only takes its round trip
off, and that the connection is established by it is another thing, which may come later. -/
inductive Moment (κ : Type)
  | turn (t : Turn κ)
  | established (generation : Nat)

def Moment.generation? : Moment κ → Option Nat
  | .turn (.event (.frame generation _)) | .turn (.event (.lost generation))
  | .established generation => some generation
  | _ => none

/-- Two runs that do the same: they leave the same client, write the same on each connection and
run the same callbacks, all in the same order. -/
structure Agree (x y : List (Reaction κ) × Client κ) : Prop where
  client : x.2 = y.2
  outputs : x.1.flatMap (·.outputs) = y.1.flatMap (·.outputs)
  calls : x.1.filterMap (·.call) = y.1.filterMap (·.call)

theorem Agree.cons {x y : List (Reaction κ) × Client κ} (h : Agree x y) (r : Reaction κ) :
    Agree (r :: x.1, x.2) (r :: y.1, y.2) := by
  refine ⟨h.client, ?_, ?_⟩
  · rw [List.flatMap_cons, List.flatMap_cons, h.outputs]
  · rw [List.filterMap_cons, List.filterMap_cons, h.calls]

theorem Agree.split {x y : List (Reaction κ) × Client κ} (h : Agree x y) {r : Reaction κ}
    (hr : r.call = none) (f : Client κ → Reaction κ) :
    Agree (r :: f r.client :: x.1, x.2) (r.andThen f :: y.1, y.2) := by
  refine ⟨h.client, ?_, ?_⟩
  · simp only [List.flatMap_cons, h.outputs, Reaction.andThen, List.append_assoc]
  · simp only [List.filterMap_cons, h.calls, Reaction.andThen, hr]

namespace Client

def answered (c : Client κ) : Reaction κ :=
  match c.outbox.complete with
  | (none, _) => { client := c }
  | (some (.handshake _), outbox) => { client := { c with outbox } }
  | (some (.user callback), outbox) =>
    { client := { c with outbox }, call := some (.acked callback) }

def moment (c : Client κ) : Moment κ → Reaction κ
  | .turn (.event (.frame generation .pong)) =>
    if c.generation ≠ generation then { client := c } else c.answered
  | .turn t => c.turn t
  | .established generation => c.established generation

def moments (c : Client κ) : List (Moment κ) → List (Reaction κ) × Client κ
  | [] => ([], c)
  | m :: ms =>
    let (rs, d) := (c.moment m).client.moments ms
    (c.moment m :: rs, d)

def handshaken? (c : Client κ) : Turn κ → Option Nat
  | .event (.frame generation .pong) =>
    if c.generation = generation then c.outbox.pongs.head?.bind RoundTrip.handshake? else none
  | _ => none

def momentsOf (c : Client κ) : List (Turn κ) → List (Moment κ)
  | [] => []
  | t :: ts =>
    .turn t :: ((c.handshaken? t).map .established).toList ++ (c.turn t).client.momentsOf ts

/-- What happens to a client without all that comes from another connection than the one in use at
that moment. -/
def timely (c : Client κ) : List (Moment κ) → List (Moment κ)
  | [] => []
  | m :: ms =>
    let later := (c.moment m).client.timely ms
    if m.generation?.all (· == c.generation) then m :: later else later

def bound? (c : Client κ) : Moment κ → Option Nat
  | .turn (.event (.connected _)) => c.bind?.map (·.client.generation)
  | _ => none

def bindings (c : Client κ) : List (Moment κ) → List Nat
  | [] => []
  | m :: ms => (c.bound? m).toList ++ (c.moment m).client.bindings ms

/-- What the connection in use has no part in any more. -/
theorem moment_of_stale {c : Client κ} {m : Moment κ} {n : Nat} (hm : m.generation? = some n)
    (hn : n ≠ c.generation) : c.moment m = { client := c } := by
  have hg : c.generation ≠ n := Ne.symm hn
  cases m with
  | turn t =>
    rcases t with e | _
    · cases e with
      | frame generation f =>
        obtain rfl := Option.some.inj hm
        cases f with
        | pong => exact if_pos hg
        | message | ok | error | ping | info | unknown => exact if_pos hg
      | lost generation =>
        obtain rfl := Option.some.inj hm
        exact if_pos (.inl hg)
      | _ => cases hm
    · cases hm
  | established generation =>
    obtain rfl := Option.some.inj hm
    exact if_neg fun h ↦ hg h.1

theorem answered_spares (c : Client κ) : c.Spares c.answered.client := by
  unfold answered
  split <;> exact ⟨_, c.registry, rfl⟩

theorem established_client (c : Client κ) (generation : Nat) :
    (c.established generation).client = c := by
  unfold established
  split <;> rfl

theorem turn_generation (c : Client κ) (t : Turn κ) :
    (c.turn t).client.generation = c.generation + 1 ∨
      (c.turn t).client.generation = c.generation ∧ c.Goes t := by
  have hm := c.turn_moves t
  show (c.turn t).client.standing.2.1 = _ ∨ (c.turn t).client.standing.2.1 = _ ∧
    ((c.turn t).client.standing.2.2 = true → _)
  generalize c.turnUses t = ops at hm
  generalize (c.turn t).client.standing = s at hm ⊢
  cases hm with
  | stay | complete | snap | lose => exact .inr ⟨rfl, id⟩
  | wander _ _ hc => exact .inr ⟨rfl, hc⟩
  | connect | stop | fall => exact .inl rfl

/-- Each new connection and each stop begins the next generation, and nothing else does. -/
theorem moment_generation (c : Client κ) (m : Moment κ) :
    (c.moment m).client.generation = c.generation + 1 ∨
      (c.moment m).client.generation = c.generation ∧
        ((c.moment m).client.closing → c.closing) := by
  unfold moment
  split
  · refine .inr ?_
    split
    · exact ⟨rfl, id⟩
    · obtain ⟨o, r, he⟩ := c.answered_spares
      rw [he]
      exact ⟨rfl, id⟩
  · exact c.turn_generation _
  · rw [established_client]
    exact .inr ⟨rfl, id⟩

theorem moment_generation_le (c : Client κ) (m : Moment κ) :
    c.generation ≤ (c.moment m).client.generation := by
  rcases c.moment_generation m with h | ⟨h, -⟩ <;> omega

theorem moments_generation_le (c : Client κ) (ms : List (Moment κ)) :
    c.generation ≤ (c.moments ms).2.generation := by
  induction ms generalizing c with
  | nil => exact Nat.le_refl _
  | cons m ms ih => exact Nat.le_trans (c.moment_generation_le m) (ih _)

theorem bound?_eq_some {c : Client κ} {m : Moment κ} {n : Nat} (h : c.bound? m = some n) :
    n = c.generation + 1 ∧ (c.moment m).client.generation = n := by
  unfold bound? at h
  split at h
  · rename_i uri
    obtain ⟨r, hr, rfl⟩ := Option.map_eq_some_iff.1 h
    have hm : c.moment (.turn (.event (.connected uri))) = r := by
      simp only [moment, turn, step, hr]
    rw [hm]
    refine ⟨?_, rfl⟩
    unfold bind? at hr
    split at hr <;> cases hr
    rfl
  · cases h

theorem bindings_bounds (c : Client κ) (ms : List (Moment κ)) :
    ∀ n ∈ c.bindings ms, c.generation < n ∧ n ≤ (c.moments ms).2.generation := by
  induction ms generalizing c with
  | nil => exact List.forall_mem_nil _
  | cons m ms ih =>
    intro n hn
    rcases List.mem_append.1 hn with hn | hn
    · obtain ⟨hg, he⟩ := bound?_eq_some (Option.mem_toList.1 hn)
      have hle := (c.moment m).client.moments_generation_le ms
      exact ⟨hg ▸ Nat.lt_succ_self _, he ▸ hle⟩
    · obtain ⟨hlt, hle⟩ := ih _ n hn
      exact ⟨Nat.lt_of_le_of_lt (c.moment_generation_le m) hlt, hle⟩

theorem bindings_increase (c : Client κ) (ms : List (Moment κ)) :
    (c.bindings ms).Pairwise (· < ·) := by
  induction ms generalizing c with
  | nil => exact .nil
  | cons m ms ih =>
    refine List.pairwise_append.2 ⟨?_, ih _, ?_⟩
    · cases c.bound? m with
      | none => exact .nil
      | some n => exact List.pairwise_singleton _ _
    · intro n hn n' hn'
      obtain ⟨-, he⟩ := bound?_eq_some (Option.mem_toList.1 hn)
      exact he ▸ (bindings_bounds _ ms n' hn').1

theorem moments_append (c : Client κ) (xs ys : List (Moment κ)) :
    c.moments (xs ++ ys) =
      ((c.moments xs).1 ++ ((c.moments xs).2.moments ys).1, ((c.moments xs).2.moments ys).2) := by
  induction xs generalizing c with
  | nil => rfl
  | cons m xs ih => simp only [List.cons_append, moments, ih]

/-- Once another connection is taken or the client is stopped, all connections until then are
old for good. -/
theorem bindings_old (c : Client κ) (xs ys : List (Moment κ)) (m : Moment κ)
    (h : ((c.moments xs).2.bound? m).isSome ∨ (c.moments xs).2.closing = false ∧
      ((c.moments xs).2.moment m).client.closing = true) :
    ∀ n ∈ c.bindings xs, n < (c.moments (xs ++ m :: ys)).2.generation := by
  intro n hn
  have hle := (c.bindings_bounds xs n hn).2
  have hlt : n < ((c.moments xs).2.moment m).client.generation := by
    rcases (c.moments xs).2.moment_generation m with he | ⟨-, hgo⟩
    · omega
    · rcases h with hb | ⟨hc, hd⟩
      · obtain ⟨n', hb⟩ := Option.isSome_iff_exists.1 hb
        obtain ⟨hn', he⟩ := bound?_eq_some hb
        omega
      · rw [hgo hd] at hc
        cases hc
  rw [moments_append]
  exact Nat.lt_of_lt_of_le hlt (moments_generation_le _ ys)

/-- What old connections bring leaves no trace. -/
theorem moments_timely (c : Client κ) (ms : List (Moment κ)) :
    Agree (c.moments (c.timely ms)) (c.moments ms) := by
  induction ms generalizing c with
  | nil => exact ⟨rfl, rfl, rfl⟩
  | cons m ms ih =>
    have ih := ih (c.moment m).client
    by_cases ht : m.generation?.all (· == c.generation)
    · simp only [timely, if_pos ht]
      exact ih.cons (c.moment m)
    · obtain ⟨n, hm, hn⟩ : ∃ n, m.generation? = some n ∧ n ≠ c.generation := by
        cases hm : m.generation? with
        | none => simp [hm] at ht
        | some n => exact ⟨n, rfl, by simpa [hm] using ht⟩
      have hs := moment_of_stale hm hn
      rw [hs] at ih
      simp only [timely, if_neg ht, moments, hs]
      exact ⟨ih.client, ih.outputs, ih.calls⟩

/-- A turn is what it is told to consist of. -/
theorem turn_eq_moments (c : Client κ) (t : Turn κ) : c.turn t =
    match c.handshaken? t with
    | none => c.moment (.turn t)
    | some n => (c.moment (.turn t)).andThen (·.established n) := by
  rcases t with e | _
  · cases e with
    | frame generation f =>
      cases f with
      | pong =>
        by_cases hg : c.generation = generation
        · subst hg
          have hp : c.turn (.event (.frame c.generation .pong)) = c.pong := if_neg (by simp)
          have hm : c.moment (.turn (.event (.frame c.generation .pong))) = c.answered :=
            if_neg (by simp)
          rw [hp, hm, handshaken?, if_pos rfl, answered, pong, Outbox.complete]
          cases c.outbox.pongs with
          | nil => rfl
          | cons purpose pongs => cases purpose <;> rfl
        · have hm : c.moment (.turn (.event (.frame generation .pong))) = { client := c } :=
            if_pos hg
          rw [handshaken?, if_neg hg, hm]
          exact if_pos hg
      | message | ok | error | ping | info | unknown => rfl
    | _ => rfl
  · rfl

theorem moment_call_of_handshaken {c : Client κ} {t : Turn κ} {n : Nat}
    (h : c.handshaken? t = some n) : (c.moment (.turn t)).call = none := by
  unfold handshaken? at h
  split at h
  · rename_i generation
    by_cases hg : c.generation = generation
    · rw [if_pos hg] at h
      rw [moment, if_neg (by simp [hg]), answered, Outbox.complete]
      cases hp : c.outbox.pongs with
      | nil => rfl
      | cons purpose pongs =>
        cases purpose with
        | handshake => rfl
        | user => simp [hp, RoundTrip.handshake?] at h
    · rw [if_neg hg] at h
      cases h
  · cases h

theorem moments_momentsOf (c : Client κ) (ts : List (Turn κ)) :
    Agree (c.moments (c.momentsOf ts)) (c.turns ts) := by
  induction ts generalizing c with
  | nil => exact ⟨rfl, rfl, rfl⟩
  | cons t ts ih =>
    have ih := ih (c.turn t).client
    have ht := c.turn_eq_moments t
    cases hn : c.handshaken? t with
    | none =>
      rw [hn] at ht
      rw [ht] at ih
      have ha := ih.cons (c.moment (.turn t))
      simp only [momentsOf, turns, hn, ht]
      exact ha
    | some n =>
      rw [hn] at ht
      rw [ht] at ih
      have ha := ih.split (moment_call_of_handshaken hn) (·.established n)
      simp only [momentsOf, turns, hn, ht]
      exact ha

/-- The connections that a client takes have rising generations, and what any but the one in use
brings leaves no trace. Once another connection is taken or the client is stopped, none of those
until then is in use any more. -/
theorem stale_moments_inert (c : Client κ) :
    (∀ ms, (c.bindings ms).Pairwise (· < ·)) ∧
      (∀ ms, Agree (c.moments (c.timely ms)) (c.moments ms)) ∧
      (∀ xs m ys, ((c.moments xs).2.bound? m).isSome ∨ (c.moments xs).2.closing = false ∧
          ((c.moments xs).2.moment m).client.closing = true →
        ∀ n ∈ c.bindings xs, n < (c.moments (xs ++ m :: ys)).2.generation) ∧
      ∀ ts, Agree (c.moments (c.momentsOf ts)) (c.turns ts) :=
  ⟨c.bindings_increase, c.moments_timely, fun xs m ys ↦ c.bindings_old xs ys m,
    c.moments_momentsOf⟩

def firstConnection : List (Moment Nat) :=
  [.turn (.event (.setConnectHandler 4)), .turn (.event (.begin .localhost)),
    .turn (.event (.connected .localhost)), .turn (.event (.subscribe "news" none none 7)),
    .turn (.event (.lost 1)), .turn (.event (.wake 0))]

def overtaken : List (Moment Nat) :=
  [.established 1, .turn (.event (.frame 1 (.message ⟨"news", 1, none, []⟩))),
    .turn (.event (.lost 1)), .turn (.event (.frame 2 .ping)), .established 2]

theorem stale_moments_inert_overtaken :
    let c : Client Nat := { options := {} }
    let ms := firstConnection ++ .turn (.event (.connected .localhost)) :: overtaken
    c.bindings ms = [1, 2] ∧ (c.timely ms).length + 3 = ms.length ∧
      Agree (c.moments (c.timely ms)) (c.moments ms) ∧
      ∀ n ∈ c.bindings firstConnection, n < (c.moments ms).2.generation := by
  intro c ms
  obtain ⟨-, hagree, hold, -⟩ := stale_moments_inert c
  refine ⟨by decide, by decide, hagree ms, ?_⟩
  exact hold firstConnection (.turn (.event (.connected .localhost))) overtaken (.inl (by decide))

end Client

end Herald
