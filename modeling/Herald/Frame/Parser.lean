import Herald.Frame.Line

namespace Herald

/-- What is left between two reads: octets that complete no frame, the header whose payload they
belong to, and how many of them are known to hold no line end. -/
structure Parser where
  buffer : Bytes := []
  pending : Option Header := none
  scanned : Nat := 0
deriving DecidableEq, Repr

namespace Bytes

theorem lineLength?_le {bs : Bytes} {n : Nat} (h : bs.lineLength? = some n) :
    n + 2 ≤ bs.length := by
  induction bs using lineLength?.induct generalizing n with
  | case1 bs => simp [lineLength?] at h; simp; omega
  | case2 b bs hb ih =>
    rw [lineLength?] at h
    · obtain ⟨m, hm, rfl⟩ := Option.map_eq_some_iff.1 h
      have := ih hm
      simp only [List.length_cons]
      omega
    · exact hb
  | case3 => simp [lineLength?] at h

end Bytes

namespace Parser

/-- The length of the first line in the buffer. The search takes up one octet before the place
where the last one ended, since a line end may be cut in two. -/
def lineLength? (p : Parser) : Option Nat :=
  (Bytes.lineLength? (p.buffer.drop (p.scanned - 1))).map (p.scanned - 1 + ·)

inductive Step
  | frame (f : Frame) (p : Parser)
  | header (p : Parser)
  | wait (p : Parser)
deriving DecidableEq, Repr

/-- A payload is taken by its length alone, with two octets after it, whatever they are. -/
def step (p : Parser) : Step :=
  match p.pending with
  | none =>
    match p.lineLength? with
    | none => .wait { p with scanned := p.buffer.length }
    | some n =>
      match Line.read (p.buffer.take n) with
      | .header h => .header ⟨p.buffer.drop (n + 2), some h, 0⟩
      | .frame f => .frame f ⟨p.buffer.drop (n + 2), none, 0⟩
  | some h =>
    if p.buffer.length < h.length + 2 then .wait p
    else .frame (.message (h.message (p.buffer.take h.length)))
      ⟨p.buffer.drop (h.length + 2), none, p.scanned⟩

theorem lineLength?_le {p : Parser} {n : Nat} (h : p.lineLength? = some n) :
    n + 2 ≤ p.buffer.length := by
  obtain ⟨m, hm, rfl⟩ := Option.map_eq_some_iff.1 h
  have := Bytes.lineLength?_le hm
  rw [List.length_drop] at this
  omega

theorem length_of_step_frame {p q : Parser} {f : Frame} (h : p.step = .frame f q) :
    q.buffer.length < p.buffer.length := by
  unfold step at h
  split at h
  · split at h
    · cases h
    · rename_i n hn
      have := lineLength?_le hn
      split at h <;> cases h
      simp only [List.length_drop]
      omega
  · split at h <;> cases h
    simp only [List.length_drop]
    omega

theorem length_of_step_header {p q : Parser} (h : p.step = .header q) :
    q.buffer.length < p.buffer.length := by
  unfold step at h
  split at h
  · split at h
    · cases h
    · rename_i n hn
      have := lineLength?_le hn
      split at h <;> cases h
      simp only [List.length_drop]
      omega
  · split at h <;> cases h

def drain (p : Parser) : List Frame × Parser :=
  match _h : p.step with
  | .wait q => ([], q)
  | .header q => drain q
  | .frame f q => (f :: (drain q).1, (drain q).2)
termination_by p.buffer.length
decreasing_by
  · exact length_of_step_header _h
  · exact length_of_step_frame _h

def feed (p : Parser) (bs : Bytes) : List Frame × Parser :=
  drain { p with buffer := p.buffer ++ bs }

def feedAll (p : Parser) : List Bytes → List (List Frame) × Parser
  | [] => ([], p)
  | bs :: rest =>
    let (frames, p) := p.feed bs
    let (more, p) := p.feedAll rest
    (frames :: more, p)

end Parser

def Bytes.pieces (n : Nat) (bs : Bytes) : List Bytes :=
  if _h : n = 0 ∨ bs = [] then if bs = [] then [] else [bs]
  else bs.take n :: pieces n (bs.drop n)
termination_by bs.length
decreasing_by
  have : 0 < bs.length := List.length_pos_iff.2 fun h' ↦ _h (.inr h')
  simp only [List.length_drop]
  omega

end Herald
