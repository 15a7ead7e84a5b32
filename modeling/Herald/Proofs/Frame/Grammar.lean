import Herald.Proofs.Frame.Chunking
import Herald.Proofs.Wire.Fields
import Herald.Proofs.Wire.Utf8
import Mathlib.Algebra.Group.Nat.Defs
import Mathlib.Data.List.TakeDrop

namespace Herald

namespace Bytes

structure Cut (line token rest : Bytes) : Prop where
  eq : line = token ++ rest
  token : ∀ b ∈ token, isSpace b = false
  rest : ∀ b ∈ rest.head?, isSpace b

theorem Cut.splitToken {line token rest : Bytes} (h : Cut line token rest) :
    line.splitToken = (token, rest) := by
  obtain ⟨rfl, ht, hr⟩ := h
  have hd : (token ++ rest).dropWhile (!isSpace ·) = rest :=
    Text.dropWhile_eq (fun b hb ↦ by rw [ht b hb]; rfl) fun b hb ↦ by rw [hr b hb]; rfl
  have he := List.takeWhile_append_dropWhile (p := (!isSpace ·)) (l := token ++ rest)
  rw [hd, List.append_left_inj] at he
  rw [Bytes.splitToken, List.span_eq_takeWhile_dropWhile, hd, he]

theorem exists_cut (line : Bytes) : ∃ token rest, Cut line token rest := by
  induction line with
  | nil => exact ⟨[], [], rfl, nofun, nofun⟩
  | cons b line ih =>
    by_cases hb : isSpace b
    · exact ⟨[], b :: line, rfl, nofun, fun c hc ↦ Option.some.inj hc ▸ hb⟩
    · obtain ⟨token, rest, rfl, ht, hr⟩ := ih
      exact ⟨b :: token, rest, rfl, List.forall_mem_cons.2 ⟨Bool.eq_false_iff.2 hb, ht⟩, hr⟩

theorem isBlank_iff {bs : Bytes} : bs.isBlank ↔ ∀ b ∈ bs, isSpace b := List.all_eq_true

end Bytes

def Header.Written (h : Header) (args : Bytes) : Prop :=
  ∃ (text : String) (sid length : List Char), args = Bytes.ofString text ∧
    Text.Separated text.toList
      (h.subject.toList :: sid :: ((h.reply.map String.toList).toList ++ [length])) ∧
    Text.Numeral sid h.sid ∧ h.sid < 2 ^ 64 ∧
    Text.Numeral length h.length ∧ h.length ≤ 64 * 1024 * 1024

theorem Header.ofFields?_eq_some_iff {words : List (List Char)} {h : Header} :
    ofFields? words = some h ↔ ∃ sid length,
      words = h.subject.toList :: sid :: ((h.reply.map String.toList).toList ++ [length]) ∧
      Text.Numeral sid h.sid ∧ h.sid < 2 ^ 64 ∧
      Text.Numeral length h.length ∧ h.length ≤ 64 * 1024 * 1024 := by
  have hs {cs : List Char} {n : Nat} : Text.digits? UInt64.size cs = some n ↔
      Text.Numeral cs n ∧ n < 2 ^ 64 := Text.digits?_eq_some_iff
  have hl {cs : List Char} {n : Nat} : Text.digits? (maxLength + 1) cs = some n ↔
      Text.Numeral cs n ∧ n ≤ 64 * 1024 * 1024 :=
    Text.digits?_eq_some_iff.trans (and_congr_right fun _ ↦ Nat.lt_succ_iff)
  constructor
  · intro ho
    unfold ofFields? at ho
    split at ho
    · simp only [Option.bind_eq_bind, Option.bind_eq_some_iff, hs, hl, Option.some.injEq] at ho
      obtain ⟨sid, hsid, length, hlength, rfl⟩ := ho
      exact ⟨_, _, by simp, hsid.1, hsid.2, hlength.1, hlength.2⟩
    · simp only [Option.bind_eq_bind, Option.bind_eq_some_iff, hs, hl, Option.some.injEq] at ho
      obtain ⟨sid, hsid, length, hlength, rfl⟩ := ho
      exact ⟨_, _, by simp, hsid.1, hsid.2, hlength.1, hlength.2⟩
    · cases ho
  · rintro ⟨sid, length, rfl, hsid, hsid', hlength, hlength'⟩
    have hs := hs.2 ⟨hsid, hsid'⟩
    have hl := hl.2 ⟨hlength, hlength'⟩
    obtain ⟨subject, n, reply, k⟩ := h
    cases reply <;> simp [ofFields?, hs, hl]

theorem Header.read?_eq_some_iff {args : Bytes} {h : Header} :
    read? args = some h ↔ h.Written args := by
  simp only [read?, Option.bind_eq_some_iff, Utf8.decode?_eq_some_iff, ofFields?_eq_some_iff,
    Text.fields_eq_iff, Written, exists_and_left]

namespace Line

inductive Unquoted : List Char → List Char → Prop
  | pair (cs : List Char) : Unquoted ('\'' :: (cs ++ ['\''])) cs
  | bare {cs : List Char} : (∀ ds, cs ≠ '\'' :: (ds ++ ['\''])) → Unquoted cs cs

theorem Unquoted.unquote {s : String} {cs ds : List Char} (ht : Text.Trimmed s.toList cs)
    (hu : Unquoted cs ds) : unquote s = String.ofList ds := by
  rw [Line.unquote, Text.trim_eq_iff.2 ht]
  cases hu with
  | pair => simp
  | bare hn =>
    split
    · rename_i es
      rw [if_neg]
      intro hl
      obtain ⟨fs, rfl⟩ := List.getLast?_eq_some_iff.1 hl
      exact hn fs rfl
    · rfl

theorem exists_unquoted (cs : List Char) : ∃ ds, Unquoted cs ds := by
  by_cases h : ∃ ds, cs = '\'' :: (ds ++ ['\''])
  · obtain ⟨ds, rfl⟩ := h
    exact ⟨ds, .pair ds⟩
  · exact ⟨cs, .bare fun ds he ↦ h ⟨ds, he⟩⟩

inductive Known : Bytes → Bytes → Line → Prop
  | msg {rest : Bytes} {h : Header} : h.Written rest → Known (Bytes.ofString "MSG") rest (.header h)
  | ok {rest : Bytes} : (∀ b ∈ rest, Bytes.isSpace b) →
    Known (Bytes.ofString "+OK") rest (.frame .ok)
  | ping {rest : Bytes} : (∀ b ∈ rest, Bytes.isSpace b) →
    Known (Bytes.ofString "PING") rest (.frame .ping)
  | pong {rest : Bytes} : (∀ b ∈ rest, Bytes.isSpace b) →
    Known (Bytes.ofString "PONG") rest (.frame .pong)
  | err {rest : Bytes} {cs text : List Char} :
    Text.Trimmed (Utf8.decodeLossy rest).toList cs → Unquoted cs text →
    Known (Bytes.ofString "-ERR") rest (.frame (.error (String.ofList text)))
  | info {rest : Bytes} {text : List Char} : ¬(∀ b ∈ rest, Bytes.isSpace b) →
    Text.Trimmed (Utf8.decodeLossy rest).toList text →
    Known (Bytes.ofString "INFO") rest (.frame (.info (String.ofList text)))

inductive Says (line : Bytes) : Line → Prop
  | known {token rest : Bytes} {l : Line} : Bytes.Cut line token rest → Known token rest l →
    Says line l
  | unknown {token rest : Bytes} : Bytes.Cut line token rest → (∀ l, ¬Known token rest l) →
    Says line (.frame (.unknown (Utf8.decodeLossy line)))

theorem read_of_known {line token rest : Bytes} {l : Line} (hc : Bytes.Cut line token rest)
    (h : Known token rest l) : read line = l := by
  rw [read, hc.splitToken]
  cases h with
  | msg hw => simp only [if_true, Header.read?_eq_some_iff.2 hw]
  | ok hb =>
    have hb := Bytes.isBlank_iff.2 hb
    simp (disch := decide) only [if_neg, hb]
    rfl
  | ping hb =>
    have hb := Bytes.isBlank_iff.2 hb
    simp (disch := decide) only [if_neg, hb]
    rfl
  | pong hb =>
    have hb := Bytes.isBlank_iff.2 hb
    simp (disch := decide) only [if_neg, hb]
    rfl
  | err ht hu =>
    simp (disch := decide) only [if_neg, if_true, hu.unquote ht]
  | info hb ht =>
    have hb := Bytes.isBlank_iff.not.2 hb
    simp (disch := decide) only [if_neg, if_true, hb, Text.trimmed, Text.trim_eq_iff.2 ht]

theorem read_of_unknown {line token rest : Bytes} (hc : Bytes.Cut line token rest)
    (h : ∀ l, ¬Known token rest l) : read line = unknown line := by
  rw [read, hc.splitToken]
  dsimp only
  split
  · rename_i ht
    subst ht
    cases hr : Header.read? rest with
    | none => rfl
    | some hd => exact absurd (.msg (Header.read?_eq_some_iff.1 hr)) (h _)
  split
  · rename_i ht
    subst ht
    obtain ⟨ds, hd⟩ := exists_unquoted (Text.trim (Utf8.decodeLossy rest).toList)
    exact absurd (.err (.trim _) hd) (h _)
  split
  · rename_i ht
    subst ht
    split
    · rfl
    · rename_i hb
      exact absurd (.info (Bytes.isBlank_iff.not.1 hb) (.trim _)) (h _)
  split
  · rfl
  rename_i hb
  have hb := Bytes.isBlank_iff.1 (by simpa using hb)
  split
  · rename_i ht
    subst ht
    exact absurd (.ok hb) (h _)
  split
  · rename_i ht
    subst ht
    exact absurd (.ping hb) (h _)
  split
  · rename_i ht
    subst ht
    exact absurd (.pong hb) (h _)
  · rfl

theorem read_eq_iff {line : Bytes} {l : Line} : read line = l ↔ Says line l := by
  constructor
  · rintro rfl
    obtain ⟨token, rest, hc⟩ := Bytes.exists_cut line
    by_cases hk : ∃ l, Known token rest l
    · obtain ⟨l, hk⟩ := hk
      exact .known hc (read_of_known hc hk ▸ hk)
    · have hk := not_exists.1 hk
      exact read_of_unknown hc hk ▸ .unknown hc hk
  · intro h
    cases h with
    | known hc hk => exact read_of_known hc hk
    | unknown hc hk => exact read_of_unknown hc hk

end Line

namespace Parser

/-- What a stream tells, cut at its first line end again and again. After the header of a message
come its payload, taken by its length, and two octets more. -/
inductive Tells : Bytes → List Frame → Prop
  | nil {bs : Bytes} : ¬Bytes.crlf <:+: bs → Tells bs []
  | frame {line rest : Bytes} {f : Frame} {frames : List Frame} : ¬Bytes.crlf <:+: line →
    Line.Says line (.frame f) → Tells rest frames →
    Tells (line ++ Bytes.crlf ++ rest) (f :: frames)
  | message {line payload skipped rest : Bytes} {h : Header} {frames : List Frame} :
    ¬Bytes.crlf <:+: line → Line.Says line (.header h) → payload.length = h.length →
    skipped.length = 2 → Tells rest frames →
    Tells (line ++ Bytes.crlf ++ (payload ++ skipped ++ rest))
      (.message ⟨h.subject, h.sid, h.reply, payload⟩ :: frames)
  | short {line rest : Bytes} {h : Header} : ¬Bytes.crlf <:+: line →
    Line.Says line (.header h) → rest.length < h.length + 2 →
    Tells (line ++ Bytes.crlf ++ rest) []

theorem step_line {line : Bytes} (hl : ¬Bytes.crlf <:+: line) (rest : Bytes) :
    step ⟨line ++ Bytes.crlf ++ rest, none, 0⟩ =
      match Line.read line with
      | .header h => .header ⟨rest, some h, 0⟩
      | .frame f => .frame f ⟨rest, none, 0⟩ := by
  have hn := Bytes.lineLength?_eq_some_iff.2 ⟨line, rest, rfl, hl, rfl⟩
  have hlen : (line ++ Bytes.crlf).length = line.length + 2 := List.length_append
  have hd : (line ++ Bytes.crlf ++ rest).drop (line.length + 2) = rest := List.drop_left' hlen
  have ht : (line ++ Bytes.crlf ++ rest).take line.length = line := by
    rw [List.append_assoc, List.take_left]
  rw [(Searched.of_scanned_eq_zero rfl).step_eq]
  cases hr : Line.read line with
  | header h => simp only [hn, hd, ht, hr]
  | frame f => simp only [hn, hd, ht, hr]

theorem step_payload {payload skipped : Bytes} {h : Header} (hp : payload.length = h.length)
    (hs : skipped.length = 2) (rest : Bytes) :
    step ⟨payload ++ skipped ++ rest, some h, 0⟩ =
      .frame (.message (h.message payload)) ⟨rest, none, 0⟩ := by
  have hlen : (payload ++ skipped).length = h.length + 2 := by rw [List.length_append, hp, hs]
  have hd : (payload ++ skipped ++ rest).drop (h.length + 2) = rest := List.drop_left' hlen
  have ht : (payload ++ skipped ++ rest).take h.length = payload := by
    rw [List.append_assoc, List.take_left' hp]
  simp only [step, hd, ht]
  rw [if_neg (by rw [List.length_append, hlen]; omega)]

theorem step_short {rest : Bytes} {h : Header} (hl : rest.length < h.length + 2) :
    step ⟨rest, some h, 0⟩ = .wait ⟨rest, some h, 0⟩ := if_pos hl

theorem Tells.drain {bs : Bytes} {frames : List Frame} (h : Tells bs frames) :
    (drain ⟨bs, none, 0⟩).1 = frames := by
  induction h with
  | nil hn =>
    have hn := Bytes.lineLength?_eq_none_iff.2 hn
    rw [drain_of_wait (step_of_wait rfl
      ((Searched.of_scanned_eq_zero rfl).lineLength?_eq.trans hn))]
  | frame hl hf _ ih =>
    have hs := step_line hl
    rw [Line.read_eq_iff.2 hf] at hs
    rw [drain_of_frame (hs _), ih]
  | message hl hh hp hs _ ih =>
    have hs' := step_line hl
    rw [Line.read_eq_iff.2 hh] at hs'
    rw [drain_of_header (hs' _), drain_of_frame (step_payload hp hs _), ih]
    rfl
  | short hl hh hr =>
    have hs := step_line hl
    rw [Line.read_eq_iff.2 hh] at hs
    rw [drain_of_header (hs _), drain_of_wait (step_short hr)]

theorem exists_tells (bs : Bytes) : ∃ frames, Tells bs frames := by
  induction hn : bs.length using Nat.strongRecOn generalizing bs with
  | ind n ih =>
    cases hl : bs.lineLength? with
    | none => exact ⟨[], .nil (Bytes.lineLength?_eq_none_iff.1 hl)⟩
    | some k =>
      obtain ⟨line, rest, rfl, hc, rfl⟩ := Bytes.lineLength?_eq_some_iff.1 hl
      have hcrlf : Bytes.crlf.length = 2 := rfl
      simp only [List.length_append, hcrlf] at hn
      cases hr : Line.read line with
      | frame f =>
        obtain ⟨frames, ht⟩ := ih rest.length (by omega) rest rfl
        exact ⟨_, .frame hc (Line.read_eq_iff.1 hr) ht⟩
      | header h =>
        by_cases hlen : rest.length < h.length + 2
        · exact ⟨[], .short hc (Line.read_eq_iff.1 hr) hlen⟩
        · obtain ⟨frames, ht⟩ := ih (rest.drop (h.length + 2)).length
            (by rw [List.length_drop]; omega) _ rfl
          have he : rest.take h.length ++ (rest.drop h.length).take 2 ++
              rest.drop (h.length + 2) = rest := by
            rw [← List.drop_drop, List.append_assoc, List.take_append_drop,
              List.take_append_drop]
          rw [← he]
          refine ⟨_, .message hc (Line.read_eq_iff.1 hr) ?_ ?_ ht⟩
          · rw [List.length_take]
            omega
          · rw [List.length_take, List.length_drop]
            omega

/-- The frames that a new parser reads from a stream are just those that the stream tells. -/
theorem feed_eq_iff_tells (bs : Bytes) (frames : List Frame) :
    (feed {} bs).1 = frames ↔ Tells bs frames := by
  constructor
  · rintro rfl
    obtain ⟨frames, h⟩ := exists_tells bs
    exact h.drain ▸ h
  · exact Tells.drain

end Parser

end Herald
