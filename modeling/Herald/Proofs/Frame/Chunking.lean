import Herald.Proofs.Frame.Search

namespace Herald.Parser

theorem step_of_wait {p : Parser} (hp : p.pending = none) (hn : p.lineLength? = none) :
    p.step = .wait { p with scanned := p.buffer.length } := by
  simp only [step, hp, hn]

/-- The step of a parser whose search stands where it may, by a search of the whole buffer. -/
theorem Searched.step_eq {p : Parser} (h : p.Searched) : p.step =
    match p.pending with
    | none =>
      match Bytes.lineLength? p.buffer with
      | none => .wait { p with scanned := p.buffer.length }
      | some n =>
        match Line.read (p.buffer.take n) with
        | .header h => .header ⟨p.buffer.drop (n + 2), some h, 0⟩
        | .frame f => .frame f ⟨p.buffer.drop (n + 2), none, 0⟩
    | some h =>
      if p.buffer.length < h.length + 2 then .wait p
      else .frame (.message (h.message (p.buffer.take h.length)))
        ⟨p.buffer.drop (h.length + 2), none, 0⟩ := by
  rw [step, h.lineLength?_eq]
  cases hp : p.pending with
  | none => rfl
  | some h' => simp only [h.payload (by rw [hp]; exact Option.some_ne_none _)]

/-- A frame that the buffer gives, it gives with more octets behind it, which stay behind. -/
theorem Searched.step_extend_of_frame {p q : Parser} {f : Frame} (h : p.Searched)
    (hf : p.step = .frame f q) (bs : Bytes) :
    q.Searched ∧ (p.extend bs).step = .frame f (q.extend bs) := by
  rw [h.step_eq] at hf
  rw [(h.extend bs).step_eq]
  cases hp : p.pending with
  | none =>
    simp only [hp] at hf
    cases hn : Bytes.lineLength? p.buffer with
    | none => simp [hn] at hf
    | some n =>
      have hle := Bytes.lineLength?_le hn
      have hn' := Bytes.lineLength?_append_of_some hn bs
      simp only [hn] at hf
      split at hf
      · cases hf
      · rename_i hr
        cases hf
        refine ⟨.of_scanned_eq_zero rfl, ?_⟩
        have hl : n ≤ p.buffer.length := by omega
        simp only [Parser.extend, hp, hn', List.take_append_of_le_length hl, hr,
          List.drop_append_of_le_length hle]
  | some h' =>
    simp only [hp] at hf
    split at hf
    · cases hf
    · rename_i hl
      cases hf
      refine ⟨.of_scanned_eq_zero rfl, ?_⟩
      simp only [Parser.extend, hp, List.length_append, if_neg (show
        ¬ p.buffer.length + bs.length < h'.length + 2 by omega),
        List.take_append_of_le_length (show h'.length ≤ p.buffer.length by omega),
        List.drop_append_of_le_length (show h'.length + 2 ≤ p.buffer.length by omega)]

theorem Searched.step_extend_of_header {p q : Parser} (h : p.Searched)
    (hq : p.step = .header q) (bs : Bytes) :
    q.Searched ∧ (p.extend bs).step = .header (q.extend bs) := by
  rw [h.step_eq] at hq
  rw [(h.extend bs).step_eq]
  cases hp : p.pending with
  | none =>
    simp only [hp] at hq
    cases hn : Bytes.lineLength? p.buffer with
    | none => simp [hn] at hq
    | some n =>
      have hle := Bytes.lineLength?_le hn
      have hn' := Bytes.lineLength?_append_of_some hn bs
      simp only [hn] at hq
      split at hq
      · rename_i hr
        cases hq
        refine ⟨.of_scanned_eq_zero rfl, ?_⟩
        have hl : n ≤ p.buffer.length := by omega
        simp only [Parser.extend, hp, hn', List.take_append_of_le_length hl, hr,
          List.drop_append_of_le_length hle]
      · cases hq
  | some h' =>
    simp only [hp] at hq
    split at hq <;> cases hq

/-- A parser that waits has only moved the place of its search, which changes nothing of what it
does with more octets. -/
theorem Searched.step_extend_of_wait {p q : Parser} (h : p.Searched) (hq : p.step = .wait q)
    (bs : Bytes) : q.Searched ∧ (p.extend bs).step = (q.extend bs).step := by
  rw [h.step_eq] at hq
  cases hp : p.pending with
  | none =>
    simp only [hp] at hq
    cases hn : Bytes.lineLength? p.buffer with
    | none =>
      simp only [hn, Step.wait.injEq] at hq
      subst hq
      have hs : Searched { p with scanned := p.buffer.length } :=
        ⟨Nat.le_refl _, by rwa [List.take_length], fun hp' ↦ absurd hp hp'⟩
      rw [← hp]
      refine ⟨hs, ?_⟩
      rw [(h.extend bs).step_eq, (hs.extend bs).step_eq]
      simp only [Parser.extend, hp]
    | some n =>
      simp only [hn] at hq
      split at hq <;> cases hq
  | some h' =>
    simp only [hp] at hq
    split at hq <;> cases hq
    exact ⟨h, rfl⟩

theorem drain_of_wait {p q : Parser} (h : p.step = .wait q) : p.drain = ([], q) := by
  rw [drain]
  split <;> simp_all

theorem drain_of_header {p q : Parser} (h : p.step = .header q) : p.drain = q.drain := by
  rw [drain]
  split <;> simp_all

theorem drain_of_frame {p q : Parser} {f : Frame} (h : p.step = .frame f q) :
    p.drain = (f :: q.drain.1, q.drain.2) := by
  rw [drain]
  split <;> simp_all

theorem drain_congr {p q : Parser} (h : p.step = q.step) : p.drain = q.drain := by
  cases hq : q.step with
  | wait r => rw [drain_of_wait hq, drain_of_wait (h.trans hq)]
  | header r => rw [drain_of_header hq, drain_of_header (h.trans hq)]
  | frame f r => rw [drain_of_frame hq, drain_of_frame (h.trans hq)]

/-- Octets that come later find what those before them left, and complete what is left to
complete. -/
theorem Searched.drain_extend {p : Parser} (h : p.Searched) (bs : Bytes) :
    p.drain.2.Searched ∧ (p.extend bs).drain =
      (p.drain.1 ++ (p.drain.2.extend bs).drain.1, (p.drain.2.extend bs).drain.2) := by
  -- Each step of the drain is taken as well with more octets behind the buffer, but for the wait.
  induction p using drain.induct with
  | case1 p q hq =>
    obtain ⟨hs, he⟩ := h.step_extend_of_wait hq bs
    rw [drain_of_wait hq, drain_congr he]
    exact ⟨hs, rfl⟩
  | case2 p q hq ih =>
    obtain ⟨hs, he⟩ := h.step_extend_of_header hq bs
    rw [drain_of_header hq, drain_of_header he]
    exact ih hs
  | case3 p f q hq ih =>
    obtain ⟨hs, he⟩ := h.step_extend_of_frame hq bs
    obtain ⟨hd, ih⟩ := ih hs
    rw [drain_of_frame hq, drain_of_frame he, ih]
    exact ⟨hd, rfl⟩

structure Drained (p : Parser) : Prop extends p.Searched where
  idle : p.drain = ([], p)

theorem Drained.new : Drained {} where
  toSearched := .of_scanned_eq_zero rfl
  idle := drain_of_wait (step_of_wait rfl rfl)

theorem Searched.drained {p : Parser} (h : p.Searched) : p.drain.2.Drained where
  toSearched := (h.drain_extend []).1
  idle := by
    have he := (h.drain_extend []).2
    simp only [extend_nil, Prod.ext_iff, List.self_eq_append_right] at he
    exact Prod.ext he.1 he.2.symm

theorem feed_eq (p : Parser) (bs : Bytes) : p.feed bs = (p.extend bs).drain := rfl

theorem Searched.feed {p : Parser} (h : p.Searched) (bs : Bytes) : (p.feed bs).2.Searched :=
  (h.extend bs).drained.toSearched

theorem Drained.feed {p : Parser} (h : p.Drained) (bs : Bytes) : (p.feed bs).2.Drained :=
  (h.extend bs).drained

theorem Drained.feedAll {p : Parser} (h : p.Drained) (chunks : List Bytes) :
    (p.feedAll chunks).2.Drained := by
  induction chunks generalizing p with
  | nil => exact h
  | cons bs chunks ih => exact ih (h.feed bs)

theorem Searched.feed_append {p : Parser} (h : p.Searched) (as bs : Bytes) :
    p.feed (as ++ bs) =
      ((p.feed as).1 ++ ((p.feed as).2.feed bs).1, ((p.feed as).2.feed bs).2) := by
  have he := ((h.extend as).drain_extend bs).2
  rwa [extend_extend] at he

theorem Drained.feedAll_flatten {p : Parser} (h : p.Drained) (chunks : List Bytes) :
    ((p.feedAll chunks).1.flatten, (p.feedAll chunks).2) = p.feed chunks.flatten := by
  induction chunks generalizing p with
  | nil =>
    rw [List.flatten_nil, feed_eq, extend_nil, h.idle]
    rfl
  | cons bs chunks ih =>
    have hr := ih (h.feed bs)
    rw [List.flatten_cons, h.feed_append, ← hr]
    rfl

/-- However a stream is cut, and whatever was read before it, the reads complete in all the frames
that one read of the whole stream completes, and leave the parser as that read leaves it. -/
theorem feedAll_chunks_eq_feed (earlier chunks : List Bytes) :
    let p := (feedAll {} earlier).2
    (p.feedAll chunks).1.flatten = (p.feed chunks.flatten).1 ∧
      (p.feedAll chunks).2 = (p.feed chunks.flatten).2 := by
  intro p
  have hp : p.Drained := Drained.new.feedAll earlier
  exact Prod.ext_iff.1 (hp.feedAll_flatten chunks)

end Herald.Parser
