import Herald.Proofs.Frame.Rounds

namespace Herald

def Bytes.split? (n : Nat) (bs : Bytes) : Option (Bytes × Bytes) :=
  if n ≤ bs.length then some (bs.take n, bs.drop n) else none

theorem Bytes.split?_of_le {n : Nat} {bs : Bytes} (h : n ≤ bs.length) :
    bs.split? n = some (bs.take n, bs.drop n) := if_pos h

theorem Line.Says.length_le {line : Bytes} {h : Header} (hs : Says line (.header h)) :
    h.length ≤ 64 * 1024 * 1024 := by
  cases hs with
  | known _ hk =>
    cases hk with
    | msg hw =>
      obtain ⟨_, _, _, _, _, _, _, _, hle⟩ := hw
      exact hle

namespace Parser

/-- A round of the drain in which every cut is checked to lie within what is cut, and every length
to leave room in a machine word for the two octets that follow a payload. There is no outcome if a
cut does not, and an unknown frame if a length does not. -/
def step? (p : Parser) : Option Step :=
  match p.pending with
  | none => do
    let (_, unsearched) ← p.buffer.split? (p.scanned - 1)
    match unsearched.lineLength? with
    | none => some (.wait { p with scanned := p.buffer.length })
    | some m => do
      let n := p.scanned - 1 + m
      let (ended, rest) ← p.buffer.split? (n + 2)
      let (line, _) ← ended.split? n
      match Line.read line with
      | .header h => some (.header ⟨rest, some h, 0⟩)
      | .frame f => some (.frame f ⟨rest, none, 0⟩)
  | some h =>
    if USize.size ≤ h.length + 2 then
      some (.frame (.unknown "MSG") { p with pending := none })
    else if p.buffer.length < h.length + 2 then some (.wait p)
    else do
      let (payload, rest) ← p.buffer.split? h.length
      let (_, rest) ← rest.split? 2
      some (.frame (.message (h.message payload)) ⟨rest, none, p.scanned⟩)

theorem Searched.step?_eq {p : Parser} (hp : p.Searched)
    (hl : ∀ h ∈ p.pending, h.length + 2 < USize.size) : p.step? = some p.step := by
  obtain ⟨buffer, pending, scanned⟩ := p
  have hle : scanned ≤ buffer.length := hp.le
  unfold step? step lineLength?
  cases pending with
  | none =>
    have hcut := Bytes.split?_of_le (show scanned - 1 ≤ buffer.length by omega)
    simp only [hcut, Option.bind_eq_bind, Option.bind_some]
    cases hm : Bytes.lineLength? (buffer.drop (scanned - 1)) with
    | none => rfl
    | some m =>
      have hn : scanned - 1 + m + 2 ≤ buffer.length := by
        have := Bytes.lineLength?_le hm
        rw [List.length_drop] at this
        omega
      have hline : scanned - 1 + m ≤ (buffer.take (scanned - 1 + m + 2)).length := by
        rw [List.length_take]
        omega
      have htake : (buffer.take (scanned - 1 + m + 2)).take (scanned - 1 + m) =
          buffer.take (scanned - 1 + m) := by
        rw [List.take_take, Nat.min_eq_left (by omega)]
      simp only [Bytes.split?_of_le hn, Bytes.split?_of_le hline, Option.bind_some,
        Option.map_some, htake]
      cases Line.read (buffer.take (scanned - 1 + m)) <;> rfl
  | some h =>
    have hfit : ¬USize.size ≤ h.length + 2 := Nat.not_le.2 (hl h rfl)
    simp only [if_neg hfit]
    split
    · rfl
    · rename_i hge
      have hcut := Bytes.split?_of_le (show h.length ≤ buffer.length by omega)
      have htwo : 2 ≤ (buffer.drop h.length).length := by
        rw [List.length_drop]
        omega
      have hskip := Bytes.split?_of_le htwo
      simp only [hcut, hskip, Option.bind_eq_bind, Option.bind_some, List.drop_drop]

/-- The octets that a frame takes up: a line, or the line that announces a message, its payload and
two octets more. -/
inductive Occupies : Bytes → Frame → Prop
  | line {line : Bytes} {f : Frame} : ¬Bytes.crlf <:+: line → Line.Says line (.frame f) →
    Occupies (line ++ Bytes.crlf) f
  | message {line payload skipped : Bytes} {h : Header} : ¬Bytes.crlf <:+: line →
    Line.Says line (.header h) → payload.length = h.length → skipped.length = 2 →
    Occupies (line ++ Bytes.crlf ++ payload ++ skipped) (.message (h.message payload))

inductive Announces : Bytes → Option Header → Prop
  | none : Announces [] none
  | some {line : Bytes} {h : Header} : ¬Bytes.crlf <:+: line → Line.Says line (.header h) →
    Announces (line ++ Bytes.crlf) (some h)

/-- Of the octets fed so far, those before the buffer are the ones that the frames take up, one
after another, and then the announcement of a message of which the payload is awaited. -/
def Conserves (fed : Bytes) (frames : List Frame) (p : Parser) : Prop :=
  ∃ blocks announcement, fed = blocks.flatten ++ announcement ++ p.buffer ∧
    List.Forall₂ Occupies blocks frames ∧ Announces announcement p.pending

def Rests (p : Parser) : Prop :=
  match p.pending with
  | none => ¬Bytes.crlf <:+: p.buffer
  | some h => h.length ≤ 64 * 1024 * 1024 ∧ p.buffer.length < h.length + 2

variable {fed : Bytes} {frames : List Frame} {p q : Parser}

theorem Conserves.new : Conserves [] [] {} := ⟨[], [], rfl, .nil, .none⟩

theorem Conserves.extend (h : Conserves fed frames p) (bs : Bytes) :
    Conserves (fed ++ bs) frames (p.extend bs) := by
  obtain ⟨blocks, announcement, rfl, hb, ha⟩ := h
  exact ⟨blocks, announcement, List.append_assoc _ _ _, hb, ha⟩

theorem Conserves.length_le (h : Conserves fed frames p) :
    ∀ hd ∈ p.pending, hd.length ≤ 64 * 1024 * 1024 := by
  intro hd hm
  obtain ⟨_, _, _, _, ha⟩ := h
  rw [hm] at ha
  cases ha with
  | some _ hs => exact hs.length_le

theorem Conserves.fits (h : Conserves fed frames p) :
    ∀ hd ∈ p.pending, hd.length + 2 < USize.size := by
  intro hd hm
  have hle := h.length_le hd hm
  have hsize := USize.le_size
  omega

/-- Nothing is lost in a round, nor counted twice. -/
theorem Conserves.round (h : Conserves fed frames p) (hp : p.Searched) :
    (∀ q, p.step = .wait q → Conserves fed frames q ∧ q.Rests) ∧
      (∀ q, p.step = .header q → Conserves fed frames q) ∧
      ∀ f q, p.step = .frame f q → Conserves fed (frames ++ [f]) q := by
  have hlen := h.length_le
  have hround := hp.round
  obtain ⟨blocks, announcement, hfed, hb, ha⟩ := h
  generalize p.step = s at hround ⊢
  refine ⟨?_, ?_, ?_⟩
  · intro q hs
    subst hs
    cases hround with
    | unended hn => exact ⟨⟨blocks, announcement, hfed, hb, ha⟩, hn⟩
    | short hlt => exact ⟨⟨blocks, announcement, hfed, hb, ha⟩, hlen _ rfl, hlt⟩
  · intro q hs
    subst hs
    cases hround with
    | header hl hsays =>
      cases ha
      refine ⟨blocks, _, ?_, hb, .some hl hsays⟩
      rw [hfed, List.append_nil, ← List.append_assoc]
  · intro f q hs
    subst hs
    cases hround with
    | @line line rest _ _ hl hsays =>
      cases ha
      have hblock : List.Forall₂ Occupies (blocks ++ [line ++ Bytes.crlf]) (frames ++ [f]) :=
        List.rel_append hb (.cons (.line hl hsays) .nil)
      refine ⟨_, [], ?_, hblock, .none⟩
      rw [hfed, List.flatten_concat]
      simp only [List.append_assoc, List.nil_append]
    | @payload payload skipped rest _ hpay hskip =>
      cases ha with
      | @some line _ hl hsays =>
        have hblock : List.Forall₂ Occupies
            (blocks ++ [line ++ Bytes.crlf ++ payload ++ skipped]) (frames ++ [_]) :=
          List.rel_append hb (.cons (.message hl hsays hpay hskip) .nil)
        refine ⟨_, [], ?_, hblock, .none⟩
        rw [hfed, List.flatten_concat]
        simp only [List.append_assoc, List.nil_append]

theorem Conserves.rounds {n : Nat} {more : List Frame} (h : Conserves fed frames p)
    (hp : p.Searched) (hr : Rounds n p more q) : Conserves fed (frames ++ more) q := by
  induction hr generalizing frames with
  | zero p =>
    rw [List.append_nil]
    exact h
  | header hs _ ih => exact ih ((h.round hp).2.1 _ hs) (hp.round.searched (by rw [hs]; rfl))
  | frame hs _ ih =>
    have hq := ih ((h.round hp).2.2 _ _ hs) (hp.round.searched (by rw [hs]; rfl))
    rwa [List.append_assoc] at hq

theorem Conserves.drain (h : Conserves fed frames p) (hp : p.Searched) :
    Conserves fed (frames ++ p.drain.1) p.drain.2 ∧ p.drain.2.Rests := by
  obtain ⟨n, q, hr, hw⟩ := exists_rounds_drain p
  exact ((h.rounds hp hr).round (hr.searched hp)).1 _ hw

theorem Conserves.feedAll (h : Conserves fed frames p) (hp : p.Searched) (hrest : p.Rests)
    (chunks : List Bytes) :
    Conserves (fed ++ chunks.flatten) (frames ++ (p.feedAll chunks).1.flatten)
      (p.feedAll chunks).2 ∧ (p.feedAll chunks).2.Rests := by
  induction chunks generalizing p fed frames with
  | nil =>
    simp only [Parser.feedAll, List.flatten_nil, List.append_nil]
    exact ⟨h, hrest⟩
  | cons bs chunks ih =>
    obtain ⟨hc, hr⟩ := (h.extend bs).drain (hp.extend bs)
    have hall := ih hc (hp.feed bs) hr
    rw [List.append_assoc, List.append_assoc] at hall
    exact hall

structure Sound (fed : Bytes) (frames : List Frame) (p : Parser) : Prop where
  conserves : Conserves fed frames p
  checked : p.step? = some p.step
  fits : ∀ h ∈ p.pending, h.length + 2 < USize.size
  consumes : ∀ q, p.step.next? = some q → q.buffer.length + 2 ≤ p.buffer.length

theorem Conserves.sound (h : Conserves fed frames p) (hp : p.Searched) : Sound fed frames p where
  conserves := h
  checked := hp.step?_eq h.fits
  fits := h.fits
  consumes _ hq := hp.round.next_length hq

/-- However often a parser is fed, the octets before its buffer are just those of its frames and at
most one announcement, and what it keeps completes nothing. The next feed comes to its end after
rounds that each consume two octets at least, in every one of which all is within bounds. -/
theorem feed_conserves (chunks : List Bytes) (bs : Bytes) :
    let p := (feedAll {} chunks).2
    let frames := (feedAll {} chunks).1.flatten
    Conserves chunks.flatten frames p ∧ p.Rests ∧
      (∃ n q, Rounds n (p.extend bs) (p.feed bs).1 q ∧ q.step = .wait (p.feed bs).2 ∧
        2 * n ≤ p.buffer.length + bs.length) ∧
      ∀ n more q, Rounds n (p.extend bs) more q →
        Sound (chunks.flatten ++ bs) (frames ++ more) q := by
  intro p frames
  have hp : p.Searched := (Drained.new.feedAll chunks).toSearched
  have hnew : Rests {} := by simp [Rests, Bytes.crlf]
  obtain ⟨hc, hr⟩ := Conserves.new.feedAll (.of_scanned_eq_zero rfl) hnew chunks
  refine ⟨hc, hr, ?_, ?_⟩
  · obtain ⟨n, q, hround, hw⟩ := exists_rounds_drain (p.extend bs)
    have hlen := hround.length (hp.extend bs)
    simp only [Parser.extend, List.length_append] at hlen
    exact ⟨n, q, hround, hw, by omega⟩
  · intro n more q hround
    have hq := (hc.extend bs).rounds (hp.extend bs) hround
    exact hq.sound (hround.searched (hp.extend bs))

end Parser

end Herald
