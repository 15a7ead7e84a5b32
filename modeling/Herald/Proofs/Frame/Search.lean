import Herald.Frame.Parser

namespace Herald

namespace Bytes

theorem lineLength?_cons (b : UInt8) (bs : Bytes) : lineLength? (b :: bs) =
    if b = 13 ∧ bs.head? = some 10 then some 0 else (lineLength? bs).map (· + 1) := by
  split
  · rename_i h
    obtain ⟨rfl, h⟩ := h
    obtain ⟨cs, rfl⟩ := List.head?_eq_some_iff.1 h
    rfl
  · rename_i h
    rw [lineLength?]
    rintro cs rfl rfl
    exact h ⟨rfl, rfl⟩

theorem lineLength?_append_of_some {as : Bytes} {n : Nat} (h : as.lineLength? = some n)
    (bs : Bytes) : (as ++ bs).lineLength? = some n := by
  induction as generalizing n with
  | nil => cases h
  | cons a as ih =>
    rw [lineLength?_cons] at h
    rw [List.cons_append, lineLength?_cons]
    split at h
    · rename_i hc
      have he : (as ++ bs).head? = some 10 := by rw [List.head?_append, hc.2]; rfl
      rw [if_pos ⟨hc.1, he⟩]
      exact h
    · rename_i hc
      obtain ⟨m, hm, rfl⟩ := Option.map_eq_some_iff.1 h
      have he : as.head? = (as ++ bs).head? := by
        cases as with
        | nil => cases hm
        | cons _ _ => rfl
      rw [← he, if_neg hc, ih hm]
      rfl

/-- Where a run has no line end, the search may leave it out but for its last octet, which may be
the first half of one. -/
theorem lineLength?_append_of_none {as : Bytes} {a : UInt8}
    (h : (as ++ [a]).lineLength? = none) (bs : Bytes) :
    (as ++ a :: bs).lineLength? = (lineLength? (a :: bs)).map (as.length + ·) := by
  induction as with
  | nil => simp
  | cons x as ih =>
    rw [List.cons_append, lineLength?_cons] at h ⊢
    have he : (as ++ [a]).head? = (as ++ a :: bs).head? := by cases as <;> rfl
    rw [he] at h
    split at h
    · cases h
    · rename_i hc
      rw [if_neg hc, ih (Option.map_eq_none_iff.1 h), Option.map_map, List.length_cons]
      congr 1
      funext n
      simp only [Function.comp_apply]
      omega

theorem crlf_prefix_cons_iff {b : UInt8} {bs : Bytes} :
    crlf <+: b :: bs ↔ b = 13 ∧ bs.head? = some 10 := by
  rw [crlf, List.cons_prefix_cons, eq_comm]
  cases bs with
  | nil => simp
  | cons c bs => simp [List.cons_prefix_cons, eq_comm]

theorem lineLength?_eq_none_iff {bs : Bytes} : bs.lineLength? = none ↔ ¬crlf <:+: bs := by
  induction bs with
  | nil => simp [lineLength?, crlf]
  | cons b bs ih =>
    rw [lineLength?_cons, List.infix_cons_iff, crlf_prefix_cons_iff, not_or]
    split
    · rename_i h
      exact iff_of_false (Option.some_ne_none 0) fun hn ↦ hn.1 h
    · rename_i h
      rw [Option.map_eq_none_iff, ih]
      exact ⟨fun hn ↦ ⟨h, hn⟩, And.right⟩

/-- What stands before the first line end is the line that holds none itself. -/
theorem lineLength?_eq_some_iff {bs : Bytes} {n : Nat} : bs.lineLength? = some n ↔
    ∃ line rest, bs = line ++ crlf ++ rest ∧ ¬crlf <:+: line ∧ line.length = n := by
  constructor
  · intro h
    induction bs generalizing n with
    | nil => cases h
    | cons b bs ih =>
      rw [lineLength?_cons] at h
      split at h
      · rename_i hc
        obtain ⟨rest, rfl⟩ := List.head?_eq_some_iff.1 hc.2
        exact ⟨[], rest, by rw [hc.1]; rfl, by simp [crlf], Option.some.inj h⟩
      · rename_i hc
        obtain ⟨m, hm, rfl⟩ := Option.map_eq_some_iff.1 h
        obtain ⟨line, rest, rfl, hl, rfl⟩ := ih hm
        refine ⟨b :: line, rest, rfl, ?_, rfl⟩
        rw [List.infix_cons_iff, not_or, crlf_prefix_cons_iff]
        refine ⟨fun hp ↦ hc ⟨hp.1, ?_⟩, hl⟩
        rw [List.append_assoc, List.head?_append, hp.2]
        rfl
  · rintro ⟨line, rest, rfl, hl, rfl⟩
    induction line with
    | nil => rfl
    | cons b line ih =>
      rw [List.infix_cons_iff, not_or, crlf_prefix_cons_iff] at hl
      have hc : ¬(b = 13 ∧ (line ++ crlf ++ rest).head? = some 10) := by
        rintro ⟨rfl, hh⟩
        cases line with
        | nil => cases hh
        | cons _ _ => exact hl.1 ⟨rfl, hh⟩
      rw [List.cons_append, List.cons_append, lineLength?_cons, if_neg hc, ih hl.2]
      rfl

end Bytes

namespace Parser

def extend (p : Parser) (bs : Bytes) : Parser := { p with buffer := p.buffer ++ bs }

@[simp] theorem extend_nil (p : Parser) : p.extend [] = p := by simp [extend]

@[simp] theorem extend_extend (p : Parser) (as bs : Bytes) :
    (p.extend as).extend bs = p.extend (as ++ bs) := by simp [extend]

/-- What the place of the search stands for: there is no line end before it, and it is at the
beginning of the buffer while a payload is awaited. -/
structure Searched (p : Parser) : Prop where
  le : p.scanned ≤ p.buffer.length
  clear : Bytes.lineLength? (p.buffer.take p.scanned) = none
  payload : p.pending ≠ none → p.scanned = 0

theorem Searched.of_scanned_eq_zero {p : Parser} (h : p.scanned = 0) : p.Searched where
  le := by omega
  clear := by rw [h]; rfl
  payload _ := h

theorem Searched.extend {p : Parser} (h : p.Searched) (bs : Bytes) : (p.extend bs).Searched where
  le := by
    have := h.le
    simp only [Parser.extend, List.length_append]
    omega
  clear := by
    have hc := h.clear
    simp only [Parser.extend]
    rwa [List.take_append_of_le_length h.le]
  payload := h.payload

/-- The search that takes up where the last one ended finds what a search of the whole buffer
finds. -/
theorem Searched.lineLength?_eq {p : Parser} (h : p.Searched) :
    p.lineLength? = p.buffer.lineLength? := by
  unfold lineLength?
  cases hs : p.scanned with
  | zero => simp
  | succ n =>
    have hle := h.le
    have hclear := h.clear
    rw [hs] at hle hclear
    have hdrop := List.drop_eq_getElem_cons (show n < p.buffer.length by omega)
    have hbuf := List.take_append_drop n p.buffer
    rw [hdrop] at hbuf
    rw [List.take_succ_eq_append_getElem (by omega)] at hclear
    have := Bytes.lineLength?_append_of_none hclear (p.buffer.drop (n + 1))
    rw [hbuf, List.length_take, Nat.min_eq_left (by omega)] at this
    rw [Nat.add_sub_cancel, hdrop, this]

end Parser

end Herald
