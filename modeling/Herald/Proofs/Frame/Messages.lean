import Herald.Command
import Herald.Proofs.Frame.Grammar

namespace Herald

theorem Bytes.ofString_append (s t : String) : ofString (s ++ t) = ofString s ++ ofString t := by
  simp only [ofString_eq, String.toList_append, List.flatMap_append]

namespace Message

def words (m : Message) : List String :=
  m.subject :: toString m.sid :: m.reply.toList ++ [toString m.payload.length]

def wire (m : Message) : Bytes := Command.line ("MSG" :: m.words) ++ m.payload ++ Bytes.crlf

/-- A message that has a wire form: its names are words, and its numbers are within bounds. -/
structure Sendable (m : Message) : Prop where
  subject : Text.IsWord m.subject
  reply : ∀ reply ∈ m.reply, Text.IsWord reply
  sid : m.sid < 2 ^ 64
  payload : m.payload.length ≤ 64 * 1024 * 1024

instance (m : Message) : Decidable m.Sendable :=
  decidable_of_iff (Text.IsWord m.subject ∧ (∀ reply ∈ m.reply, Text.IsWord reply) ∧
    m.sid < 2 ^ 64 ∧ m.payload.length ≤ 64 * 1024 * 1024)
    ⟨fun ⟨hs, hr, hn, hp⟩ ↦ ⟨hs, hr, hn, hp⟩, fun ⟨hs, hr, hn, hp⟩ ↦ ⟨hs, hr, hn, hp⟩⟩

def header (m : Message) : Header := ⟨m.subject, m.sid, m.reply, m.payload.length⟩

variable {m : Message}

theorem Sendable.isWord (h : m.Sendable) : ∀ w ∈ m.words, Text.IsWord w := by
  refine List.forall_mem_append.2 ⟨?_, ?_⟩
  · refine List.forall_mem_cons.2 ⟨h.subject, List.forall_mem_cons.2 ⟨?_, fun w hw ↦ ?_⟩⟩
    · exact Text.isWord_toString m.sid
    · exact h.reply w (Option.mem_toList.1 hw)
  · exact List.forall_mem_singleton.2 (Text.isWord_toString m.payload.length)

theorem words_toList (m : Message) : m.words.map String.toList =
    m.subject.toList :: (toString m.sid).toList ::
      ((m.reply.map String.toList).toList ++ [(toString m.payload.length).toList]) := by
  rw [words]
  cases m.reply <;> rfl

theorem Sendable.written (h : m.Sendable) :
    m.header.Written (Bytes.ofString (" " ++ " ".intercalate m.words)) := by
  refine ⟨" " ++ " ".intercalate m.words, (toString m.sid).toList,
    (toString m.payload.length).toList, rfl, ?_, Text.numeral_toString _, h.sid,
    Text.numeral_toString _, h.payload⟩
  have hs : Text.Separated (" ".intercalate m.words).toList (m.words.map String.toList) :=
    Text.fields_eq_iff.1 (Text.fields_intercalate h.isWord)
  rw [words_toList] at hs
  rw [String.toList_append]
  exact hs.cons rfl

/-- The line of a message announces it. -/
theorem Sendable.says (h : m.Sendable) :
    Line.Says (Bytes.ofString (" ".intercalate ("MSG" :: m.words))) (.header m.header) := by
  have hn : " ".intercalate ("MSG" :: m.words) = "MSG" ++ (" " ++ " ".intercalate m.words) := by
    rw [words, List.cons_append, String.intercalate_cons_cons, String.append_assoc]
  -- over the octets of the word alone, not over all there are
  have hm : ∀ b ∈ Bytes.ofString "MSG", Bytes.isSpace b = false :=
    @of_decide_eq_true _ (List.decidableBAll _ _) rfl
  refine .known ⟨(congrArg Bytes.ofString hn).trans (Bytes.ofString_append _ _), hm, ?_⟩
    (.msg h.written)
  intro b hb
  rw [Bytes.ofString_append] at hb
  obtain rfl : 32 = b := Option.some.inj hb
  rfl

theorem Sendable.not_crlf (h : m.Sendable) :
    ¬Bytes.crlf <:+: Bytes.ofString (" ".intercalate ("MSG" :: m.words)) := by
  intro hi
  have hm : (13 : UInt8) ∈ Bytes.ofString (" ".intercalate ("MSG" :: m.words)) :=
    hi.subset List.mem_cons_self
  obtain ⟨c, hc, he⟩ := Bytes.mem_ofString hm (by decide)
  obtain rfl : c = '\r' := Char.toNat_inj.1 he
  have hw : ∀ w ∈ "MSG" :: m.words, Text.IsWord w :=
    List.forall_mem_cons.2 ⟨by decide, h.isWord⟩
  exact Text.not_mem_intercalate hw rfl (by decide) hc

end Message

namespace Parser

/-- A message is read from its wire form, whatever comes after it. -/
theorem drain_wire {m : Message} (h : m.Sendable) (rest : Bytes) :
    drain ⟨m.wire ++ rest, none, 0⟩ =
      (.message m :: (drain ⟨rest, none, 0⟩).1, (drain ⟨rest, none, 0⟩).2) := by
  have hs := step_line h.not_crlf (m.payload ++ Bytes.crlf ++ rest)
  rw [Line.read_eq_iff.2 h.says] at hs
  have hp : step ⟨m.payload ++ Bytes.crlf ++ rest, some m.header, 0⟩ = .frame (.message m) _ :=
    step_payload rfl rfl rest
  have hw : m.wire ++ rest = Bytes.ofString (" ".intercalate ("MSG" :: m.words)) ++ Bytes.crlf ++
      (m.payload ++ Bytes.crlf ++ rest) := by
    simp only [Message.wire, Command.line, List.append_assoc]
  rw [hw, drain_of_header hs, drain_of_frame hp]

theorem drain_flatMap_wire {ms : List Message} (h : ∀ m ∈ ms, m.Sendable) :
    drain ⟨ms.flatMap Message.wire, none, 0⟩ = (ms.map .message, {}) := by
  induction ms with
  | nil => exact Drained.new.idle
  | cons m ms ih =>
    obtain ⟨hm, hms⟩ := List.forall_mem_cons.1 h
    rw [List.flatMap_cons, drain_wire hm, ih hms]
    rfl

/-- Between two frames nothing is left of what was read. -/
theorem Searched.eq_new {p : Parser} (h : p.Searched) (hb : p.buffer = [])
    (hp : p.pending = none) : p = {} := by
  have hs := h.le
  rw [hb] at hs
  obtain ⟨buffer, pending, scanned⟩ := p
  subst hb hp
  obtain rfl : scanned = 0 := Nat.le_zero.1 hs
  rfl

/-- However the wire forms of some messages are cut, a parser with nothing in its buffer, which may
be a new one or one that has just completed a frame, reads just these messages from them, and is
left with nothing in its buffer. -/
theorem messages_recovered (earlier chunks : List Bytes) (ms : List Message) :
    let p := (feedAll {} earlier).2
    p.buffer = [] → p.pending = none → (∀ m ∈ ms, m.Sendable) →
      chunks.flatten = ms.flatMap Message.wire →
        (p.feedAll chunks).1.flatten = ms.map .message ∧
          (p.feedAll chunks).2.buffer = [] ∧ (p.feedAll chunks).2.pending = none := by
  intro p hb hp hms hc
  have hd : p.Drained := Drained.new.feedAll earlier
  have hn : p = {} := hd.toSearched.eq_new hb hp
  have hf := hd.feedAll_flatten chunks
  rw [hc, hn] at hf
  have he : feed {} (ms.flatMap Message.wire) = (ms.map .message, {}) := drain_flatMap_wire hms
  rw [he] at hf
  obtain ⟨hframes, hleft⟩ := Prod.ext_iff.1 hf
  rw [hn]
  exact ⟨hframes, congrArg buffer hleft, congrArg pending hleft⟩

def disguised : List Message :=
  [⟨"news.é", 18446744073709551615, some "_INBOX.1", Bytes.ofString "\r\nPING\r\n"⟩,
    ⟨"MSG", 0, none, Bytes.ofString "MSG a 1 2\r\nhi\r\n"⟩, ⟨"1", 2, some "3", []⟩]

/-- They are read at once, and then again octet by octet. -/
theorem messages_recovered_disguised :
    let stream := disguised.flatMap Message.wire
    let p := (feedAll {} [stream]).2
    let octets := stream.map fun b ↦ [b]
    (∀ m ∈ disguised, m.Sendable) ∧ p.buffer = [] ∧ p.pending = none ∧
      (p.feedAll octets).1.flatten = disguised.map .message ∧
        (p.feedAll octets).2.buffer = [] ∧ (p.feedAll octets).2.pending = none := by
  intro stream p octets
  have hs : ∀ m ∈ disguised, m.Sendable := by decide
  have hc : [stream].flatten = disguised.flatMap Message.wire := List.append_nil _
  have ho : octets.flatten = disguised.flatMap Message.wire := List.flatMap_singleton' stream
  clear_value octets stream
  have hp : p.buffer = [] ∧ p.pending = none :=
    (messages_recovered [] [stream] disguised rfl rfl hs hc).2
  have hr := messages_recovered [stream] octets disguised hp.1 hp.2 hs ho
  exact ⟨hs, hp.1, hp.2, hr⟩

end Parser

end Herald
