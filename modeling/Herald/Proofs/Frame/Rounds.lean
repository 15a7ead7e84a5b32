import Mathlib
import Herald.Proofs.Frame.Grammar

namespace Herald

namespace Bytes

/-- The first line end is the one that no other stands before. -/
theorem lineLength?_eq_some_iff_first {bs : Bytes} {n : Nat} : bs.lineLength? = some n ↔
    crlf <+: bs.drop n ∧ ∀ m < n, ¬crlf <+: bs.drop m := by
  induction bs generalizing n with
  | nil => simp [lineLength?, crlf]
  | cons b bs ih =>
    rw [lineLength?_cons]
    by_cases h : crlf <+: b :: bs
    · rw [if_pos (crlf_prefix_cons_iff.1 h)]
      constructor
      · intro hn
        obtain rfl : 0 = n := Option.some.inj hn
        exact ⟨h, fun m hm ↦ absurd hm (Nat.not_lt_zero m)⟩
      · intro hn
        have hz : ¬0 < n := fun hlt ↦ hn.2 0 hlt h
        rw [show n = 0 by omega]
    · rw [if_neg (mt crlf_prefix_cons_iff.2 h), Option.map_eq_some_iff]
      constructor
      · intro hn
        obtain ⟨k, hk, rfl⟩ := hn
        obtain ⟨hc, hf⟩ := ih.1 hk
        refine ⟨hc, fun m hm ↦ ?_⟩
        cases m with
        | zero => exact h
        | succ m => exact hf m (by omega)
      · intro hn
        cases n with
        | zero => exact (h hn.1).elim
        | succ n => exact ⟨n, ih.2 ⟨hn.1, fun m hm ↦ hn.2 (m + 1) (by omega)⟩, rfl⟩

end Bytes

namespace Parser

/-- All that a round of the drain can do, for a parser whose search stands where it may: it waits
for a line end or for the rest of a payload, or it takes a line or a payload off its buffer. -/
inductive Round : Parser → Step → Prop
  | unended {buffer : Bytes} {scanned : Nat} : ¬Bytes.crlf <:+: buffer →
    Round ⟨buffer, none, scanned⟩ (.wait ⟨buffer, none, buffer.length⟩)
  | short {buffer : Bytes} {h : Header} : buffer.length < h.length + 2 →
    Round ⟨buffer, some h, 0⟩ (.wait ⟨buffer, some h, 0⟩)
  | line {line rest : Bytes} {scanned : Nat} {f : Frame} : ¬Bytes.crlf <:+: line →
    Line.Says line (.frame f) →
    Round ⟨line ++ Bytes.crlf ++ rest, none, scanned⟩ (.frame f ⟨rest, none, 0⟩)
  | header {line rest : Bytes} {scanned : Nat} {h : Header} : ¬Bytes.crlf <:+: line →
    Line.Says line (.header h) →
    Round ⟨line ++ Bytes.crlf ++ rest, none, scanned⟩ (.header ⟨rest, some h, 0⟩)
  | payload {payload skipped rest : Bytes} {h : Header} : payload.length = h.length →
    skipped.length = 2 →
    Round ⟨payload ++ skipped ++ rest, some h, 0⟩
      (.frame (.message (h.message payload)) ⟨rest, none, 0⟩)

theorem Searched.round {p : Parser} (h : p.Searched) : p.Round p.step := by
  rw [h.step_eq]
  obtain ⟨buffer, pending, scanned⟩ := p
  cases pending with
  | none =>
    dsimp only
    cases hn : buffer.lineLength? with
    | none => exact .unended (Bytes.lineLength?_eq_none_iff.1 hn)
    | some n =>
      obtain ⟨line, rest, rfl, hl, rfl⟩ := Bytes.lineLength?_eq_some_iff.1 hn
      have hlen : (line ++ Bytes.crlf).length = line.length + 2 := List.length_append
      have hd : (line ++ Bytes.crlf ++ rest).drop (line.length + 2) = rest := List.drop_left' hlen
      have ht : (line ++ Bytes.crlf ++ rest).take line.length = line := by
        rw [List.append_assoc, List.take_left]
      simp only [hd, ht]
      cases hr : Line.read line with
      | header h' => exact .header hl (Line.read_eq_iff.1 hr)
      | frame f => exact .line hl (Line.read_eq_iff.1 hr)
  | some h' =>
    obtain rfl : scanned = 0 := h.payload (Option.some_ne_none h')
    dsimp only
    split
    · rename_i hlt
      exact .short hlt
    · rename_i hge
      have hb : buffer = buffer.take h'.length ++ (buffer.drop h'.length).take 2 ++
          buffer.drop (h'.length + 2) := by
        rw [← List.drop_drop, List.append_assoc, List.take_append_drop, List.take_append_drop]
      have hp : (buffer.take h'.length).length = h'.length := by
        rw [List.length_take]
        omega
      have hs : ((buffer.drop h'.length).take 2).length = 2 := by
        rw [List.length_take, List.length_drop]
        omega
      have hround := @Round.payload _ _ (buffer.drop (h'.length + 2)) _ hp hs
      rwa [← hb] at hround

def Step.next? : Step → Option Parser
  | .frame _ p | .header p => some p
  | .wait _ => none

variable {p q r : Parser} {s : Step}

/-- A round after which the drain goes on consumes two octets at least. -/
theorem Round.next_length (h : Round p s) (hq : s.next? = some q) :
    q.buffer.length + 2 ≤ p.buffer.length := by
  cases h with
  | unended | short => cases hq
  | line | header =>
    obtain rfl := Option.some.inj hq
    simp only [List.length_append, Bytes.crlf, List.length_cons, List.length_nil]
    omega
  | payload _ hs =>
    obtain rfl := Option.some.inj hq
    simp only [List.length_append, hs]
    omega

theorem Round.searched (h : Round p s) (hq : s.next? = some q) : q.Searched := by
  cases h with
  | unended | short => cases hq
  | line | header | payload =>
    obtain rfl := Option.some.inj hq
    exact .of_scanned_eq_zero rfl

inductive Rounds : Nat → Parser → List Frame → Parser → Prop
  | zero (p : Parser) : Rounds 0 p [] p
  | header {n : Nat} {p q r : Parser} {frames : List Frame} :
    p.step = .header q → Rounds n q frames r → Rounds (n + 1) p frames r
  | frame {n : Nat} {p q r : Parser} {f : Frame} {frames : List Frame} :
    p.step = .frame f q → Rounds n q frames r → Rounds (n + 1) p (f :: frames) r

variable {n : Nat} {frames : List Frame}

theorem Rounds.searched (hr : Rounds n p frames q) (h : p.Searched) : q.Searched := by
  induction hr with
  | zero p => exact h
  | header hs _ ih => exact ih (h.round.searched (by rw [hs]; rfl))
  | frame hs _ ih => exact ih (h.round.searched (by rw [hs]; rfl))

theorem Rounds.length (hr : Rounds n p frames q) (h : p.Searched) :
    2 * n + q.buffer.length ≤ p.buffer.length := by
  induction hr with
  | zero p => omega
  | @header n p q r frames hs _ ih =>
    have hq : p.step.next? = some q := by rw [hs]; rfl
    have hlen := h.round.next_length hq
    have hrest := ih (h.round.searched hq)
    omega
  | @frame n p q r f frames hs _ ih =>
    have hq : p.step.next? = some q := by rw [hs]; rfl
    have hlen := h.round.next_length hq
    have hrest := ih (h.round.searched hq)
    omega

/-- A drain comes to a round in which it waits. -/
theorem exists_rounds_drain (p : Parser) :
    ∃ n q, Rounds n p p.drain.1 q ∧ q.step = .wait p.drain.2 := by
  induction p using drain.induct with
  | case1 p q hq =>
    rw [drain_of_wait hq]
    exact ⟨0, p, .zero p, hq⟩
  | case2 p q hq ih =>
    obtain ⟨n, r, hr, hw⟩ := ih
    rw [drain_of_header hq]
    exact ⟨n + 1, r, .header hq hr, hw⟩
  | case3 p f q hq ih =>
    obtain ⟨n, r, hr, hw⟩ := ih
    rw [drain_of_frame hq]
    exact ⟨n + 1, r, .frame hq hr, hw⟩

/-- Whatever was read before and is read now, in each round the search that leaves out what was
searched before finds what a search of the whole buffer finds. -/
theorem resumed_search_eq (chunks : List Bytes) (bs : Bytes) (n : Nat) (frames : List Frame)
    (q : Parser) (hr : Rounds n ((feedAll {} chunks).2.extend bs) frames q) :
    q.lineLength? = q.buffer.lineLength? ∧
      (∀ k, q.lineLength? = some k ↔
        Bytes.crlf <+: q.buffer.drop k ∧ ∀ j < k, ¬Bytes.crlf <+: q.buffer.drop j) ∧
      q.scanned ≤ q.buffer.length ∧ ¬Bytes.crlf <:+: q.buffer.take q.scanned := by
  have hd : (feedAll {} chunks).2.Searched := (Drained.new.feedAll chunks).toSearched
  have hq : q.Searched := hr.searched (hd.extend bs)
  refine ⟨hq.lineLength?_eq, fun k ↦ ?_, hq.le, Bytes.lineLength?_eq_none_iff.1 hq.clear⟩
  rw [hq.lineLength?_eq]
  exact Bytes.lineLength?_eq_some_iff_first

def halved : Parser :=
  (feedAll {} [Bytes.ofString "+OK\r\nPONG\r", []]).2.extend (Bytes.ofString "\n")

theorem resumed_search_eq_halved :
    halved.scanned = 5 ∧ halved.lineLength? = some 4 ∧
      halved.lineLength? = halved.buffer.lineLength? := by
  have hr : Rounds 0 halved [] halved := .zero halved
  exact ⟨by cbv, by cbv, (resumed_search_eq _ _ 0 [] halved hr).1⟩

end Parser

end Herald
