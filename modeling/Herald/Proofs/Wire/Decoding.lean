import Herald.Command
import Herald.Proofs.Frame.Search
import Herald.Proofs.Wire.Fields
import Herald.Proofs.Wire.Json
import Herald.Proofs.Wire.Utf8

namespace Herald

namespace Bytes

theorem lineLength?_append {line : Bytes} (h : 13 ∉ line) (rest : Bytes) :
    (line ++ crlf ++ rest).lineLength? = some line.length :=
  lineLength?_eq_some_iff.2 ⟨line, rest, rfl, fun hi ↦ h (hi.subset (by decide)), rfl⟩

end Bytes

namespace ConnectInfo

def parse? (s : String) : Option ConnectInfo :=
  match Json.parse? s with
  | some (.obj ms) => do
    let verbose ← (Json.Members.get? ms "verbose").bind Json.bool?
    let pedantic ← (Json.Members.get? ms "pedantic").bind Json.bool?
    let user ← Json.optional? Json.text? (Json.Members.get? ms "user")
    let pass ← Json.optional? Json.text? (Json.Members.get? ms "pass")
    some ⟨verbose, pedantic, user, pass⟩
  | _ => none

def members (info : ConnectInfo) : List (String × Json) :=
  ("verbose", .bool info.verbose) :: ("pedantic", .bool info.pedantic) ::
    (info.user.map fun s ↦ ("user", Json.str s)).toList ++
    (info.pass.map fun s ↦ ("pass", Json.str s)).toList

theorem json_eq (info : ConnectInfo) : info.json = .obj info.members := rfl

theorem scalar_members (info : ConnectInfo) : ∀ m ∈ info.members, m.2.Scalar := by
  obtain ⟨verbose, pedantic, user, pass⟩ := info
  cases user <;> cases pass <;> simp [members, Json.Scalar]

theorem parse?_json (info : ConnectInfo) : parse? info.json.text = some info := by
  rw [parse?, json_eq, Json.parse?_text info.scalar_members]
  obtain ⟨verbose, pedantic, user, pass⟩ := info
  cases user <;> cases pass <;> simp [members, Json.bool?, Json.optional?, Json.text?]

theorem printable_json (info : ConnectInfo) : ∀ c ∈ info.json.text.toList, 32 ≤ c.toNat := by
  rw [json_eq]
  exact Json.printable_text info.scalar_members

end ConnectInfo

namespace Command

def names : Command → List String
  | pub subject reply _ => subject :: reply.toList
  | sub subject queue _ => subject :: queue.toList
  | _ => []

/-- The server reads a line by its white space, which is therefore in no name. -/
def Named (c : Command) : Prop := ∀ name ∈ c.names, Text.IsWord name

instance (c : Command) : Decidable c.Named := inferInstanceAs (Decidable (∀ name ∈ c.names, _))

def canonical : Command → Command
  | unsub sid max => unsub sid (max.filter (0 < ·))
  | c => c

inductive Heading
  | command (c : Command)
  | pub (subject : String) (reply : Option String) (length : Nat)

def Heading.ofWords? : List String → Option Heading
  | ["PUB", subject, length] => (Text.nat? length).map (.pub subject none ·)
  | ["PUB", subject, reply, length] => (Text.nat? length).map (.pub subject (some reply) ·)
  | ["SUB", subject, sid] => (Text.nat? sid).map (.command <| .sub subject none ·)
  | ["SUB", subject, queue, sid] => (Text.nat? sid).map (.command <| .sub subject (some queue) ·)
  | ["UNSUB", sid] => (Text.nat? sid).map (.command <| .unsub · none)
  | ["UNSUB", sid, max] =>
    (Text.nat? sid).bind fun sid ↦ (Text.nat? max).map (.command <| .unsub sid <| some ·)
  | ["PING"] => some (.command .ping)
  | ["PONG"] => some (.command .pong)
  | _ => none

def Heading.ofLine? (line : String) : Option Heading :=
  match (Text.fields line.toList).map String.ofList with
  | "CONNECT" :: _ =>
    (ConnectInfo.parse? (String.ofList (line.toList.drop 8))).map (.command <| .connect ·)
  | words => ofWords? words

def Heading.read? (bs : Bytes) : Option (Heading × Bytes) :=
  bs.lineLength?.bind fun n ↦
    ((Utf8.decode? (bs.take n)).bind ofLine?).map fun heading ↦ (heading, bs.drop (n + 2))

/-- The command at the front of a stream, and what follows it. A payload is taken by its length. -/
def read? (bs : Bytes) : Option (Command × Bytes) :=
  match Heading.read? bs with
  | none => none
  | some (.command c, rest) => some (c, rest)
  | some (.pub subject reply length, rest) =>
    if Bytes.crlf.isPrefixOf (rest.drop length) then
      some (.pub subject reply (rest.take length), rest.drop (length + 2))
    else none

theorem length_of_read? {bs rest : Bytes} {c : Command} (h : read? bs = some (c, rest)) :
    rest.length < bs.length := by
  have hheading {heading : Heading} {rest : Bytes} (h : Heading.read? bs = some (heading, rest)) :
      rest.length < bs.length := by
    obtain ⟨n, hn, hr⟩ := Option.bind_eq_some_iff.1 h
    obtain ⟨_, -, he⟩ := Option.map_eq_some_iff.1 hr
    have hle := Bytes.lineLength?_le hn
    cases he
    rw [List.length_drop]
    omega
  unfold read? at h
  split at h
  · cases h
  · rename_i hr
    cases h
    exact hheading hr
  · rename_i hr
    have hl := hheading hr
    split at h <;> cases h
    rw [List.length_drop]
    omega

def readAll? (bs : Bytes) : Option (List Command) :=
  match _h : read? bs with
  | none => if bs = [] then some [] else none
  | some (c, rest) => (readAll? rest).map (c :: ·)
termination_by bs.length
decreasing_by exact length_of_read? _h

theorem Heading.read?_line {words : List String} (h : '\r' ∉ (" ".intercalate words).toList)
    (bs : Bytes) :
    read? (line words ++ bs) = (ofLine? (" ".intercalate words)).map (·, bs) := by
  let text := Bytes.ofString (" ".intercalate words)
  have hl : 13 ∉ text := fun hm ↦ by
    obtain ⟨c, hc, he⟩ := Bytes.mem_ofString hm (by decide)
    obtain rfl : c = '\r' := Char.toNat_inj.1 he
    exact h hc
  have hn : (line words ++ bs).lineLength? = some text.length := Bytes.lineLength?_append hl bs
  have ht : (line words ++ bs).take text.length = text := by
    rw [line, List.append_assoc]
    exact List.take_left
  have hd : (line words ++ bs).drop (text.length + 2) = bs :=
    List.drop_left' (by simp [line, text, Bytes.crlf])
  rw [read?, hn, Option.bind_some, ht, hd, Utf8.decode?_ofString, Option.bind_some]

theorem Heading.read?_words {word : String} {words : List String} (hc : word ≠ "CONNECT")
    (h : ∀ w ∈ word :: words, Text.IsWord w) (bs : Bytes) :
    read? (line (word :: words) ++ bs) = (ofWords? (word :: words)).map (·, bs) := by
  have hr := Text.not_mem_intercalate h (c := '\r') rfl (by decide)
  have hw : ((word :: words).map String.toList).map String.ofList = word :: words := by
    simp
  rw [read?_line hr, ofLine?, Text.fields_intercalate h, hw]
  split
  · rename_i he
    exact (hc (List.cons.inj he).1).elim
  · rfl

theorem connect_text (info : ConnectInfo) :
    " ".intercalate ["CONNECT", info.json.text] = "CONNECT " ++ info.json.text := by
  rw [String.intercalate_cons_cons, String.intercalate_singleton]
  rfl

theorem printable_connect (info : ConnectInfo) :
    ∀ c ∈ ("CONNECT " ++ info.json.text).toList, 32 ≤ c.toNat := by
  rw [String.toList_append]
  exact List.forall_mem_append.2 ⟨Json.printable_of_all rfl, info.printable_json⟩

theorem Heading.read?_connect (info : ConnectInfo) (bs : Bytes) :
    read? (encode (.connect info) ++ bs) = some (.command (.connect info), bs) := by
  have hr : '\r' ∉ (" ".intercalate ["CONNECT", info.json.text]).toList := fun hm ↦ by
    rw [connect_text] at hm
    exact absurd (printable_connect info _ hm) (by decide)
  have hl : ("CONNECT " ++ info.json.text).toList =
      "CONNECT".toList ++ ' ' :: info.json.text.toList := String.toList_append
  have hf := Text.fields_cons (show Text.IsWord "CONNECT" by decide) info.json.text.toList
  have hd : ("CONNECT".toList ++ ' ' :: info.json.text.toList).drop 8 =
      info.json.text.toList := rfl
  rw [encode, read?_line hr, connect_text, ofLine?, hl, hf, hd]
  simp only [List.map_cons, String.ofList_toList, info.parse?_json]
  rfl

theorem read?_of_command {words : List String} {c : Command} {bs : Bytes}
    (h : Heading.read? (line words ++ bs) = some (.command c, bs)) :
    read? (line words ++ bs) = some (c, bs) := by
  rw [read?, h]

theorem read?_of_pub {words : List String} {subject : String} {reply : Option String}
    {payload bs : Bytes} (h : Heading.read? (line words ++ (payload ++ Bytes.crlf ++ bs)) =
      some (.pub subject reply payload.length, payload ++ Bytes.crlf ++ bs)) :
    read? (line words ++ (payload ++ Bytes.crlf ++ bs)) =
      some (.pub subject reply payload, bs) := by
  have hd : (payload ++ Bytes.crlf ++ bs).drop payload.length = Bytes.crlf ++ bs := by
    rw [List.append_assoc, List.drop_left]
  have ht : (payload ++ Bytes.crlf ++ bs).take payload.length = payload := by
    rw [List.append_assoc, List.take_left]
  have hr : (payload ++ Bytes.crlf ++ bs).drop (payload.length + 2) = bs :=
    List.drop_left' (by simp [Bytes.crlf])
  rw [read?, h]
  simp only [hd, ht, hr]
  rfl

theorem isWord_line {word : String} (hw : Text.IsWord word) {names : List String}
    (h : ∀ name ∈ names, Text.IsWord name) (n : Nat) :
    ∀ w ∈ word :: names ++ [toString n], Text.IsWord w := by
  refine List.forall_mem_append.2 ⟨List.forall_mem_cons.2 ⟨hw, h⟩, ?_⟩
  exact List.forall_mem_singleton.2 (Text.isWord_toString n)

theorem Heading.ofWords?_pub (subject : String) (reply : Option String) (n : Nat) :
    ofWords? ("PUB" :: subject :: reply.toList ++ [toString n]) = some (.pub subject reply n) := by
  cases reply <;> simp only [Option.toList, List.cons_append, List.nil_append, ofWords?,
    Text.nat?_toString, Option.map_some]

theorem Heading.ofWords?_sub (subject : String) (queue : Option String) (sid : Nat) :
    ofWords? ("SUB" :: subject :: queue.toList ++ [toString sid]) =
      some (.command (.sub subject queue sid)) := by
  cases queue <;> simp only [Option.toList, List.cons_append, List.nil_append, ofWords?,
    Text.nat?_toString, Option.map_some]

theorem Heading.ofWords?_unsub (sid : Nat) (count : Option Nat) :
    ofWords? ("UNSUB" :: toString sid :: (count.map toString).toList) =
      some (.command (.unsub sid count)) := by
  cases count <;> simp only [Option.map_none, Option.map_some, Option.toList, ofWords?,
    Text.nat?_toString, Option.bind_some]

theorem isWord_counts (sid : Nat) (count : Option Nat) :
    ∀ w ∈ toString sid :: (count.map toString).toList, Text.IsWord w := by
  refine List.forall_mem_cons.2 ⟨Text.isWord_toString sid, ?_⟩
  intro w hm
  obtain ⟨n, -, rfl⟩ := Option.map_eq_some_iff.1 (Option.mem_toList.1 hm)
  exact Text.isWord_toString n

/-- A command is read back from the front of a stream, whatever its payload and what follows. -/
theorem read?_encode {c : Command} (h : c.Named) (bs : Bytes) :
    read? (c.encode ++ bs) = some (c.canonical, bs) := by
  cases c with
  | connect info => exact read?_of_command (Heading.read?_connect info bs)
  | pub subject reply payload =>
    have hs : encode (.pub subject reply payload) ++ bs =
        line ("PUB" :: subject :: reply.toList ++ [toString payload.length]) ++
          (payload ++ Bytes.crlf ++ bs) := by
      simp only [encode, List.append_assoc]
    have hw : ∀ w ∈ "PUB" :: subject :: reply.toList ++ [toString payload.length],
        Text.IsWord w := isWord_line (by decide) h payload.length
    rw [hs]
    refine read?_of_pub ((Heading.read?_words (by decide) hw _).trans ?_)
    exact congrArg (Option.map _) (Heading.ofWords?_pub subject reply payload.length)
  | sub subject queue sid =>
    have hw : ∀ w ∈ "SUB" :: subject :: queue.toList ++ [toString sid], Text.IsWord w :=
      isWord_line (by decide) h sid
    refine read?_of_command ((Heading.read?_words (by decide) hw bs).trans ?_)
    exact congrArg (Option.map _) (Heading.ofWords?_sub subject queue sid)
  | unsub sid max =>
    let count := max.filter (0 < ·)
    have hw : ∀ w ∈ "UNSUB" :: toString sid :: (count.map toString).toList, Text.IsWord w :=
      List.forall_mem_cons.2 ⟨by decide, isWord_counts sid count⟩
    refine read?_of_command ((Heading.read?_words (by decide) hw bs).trans ?_)
    exact congrArg (Option.map _) (Heading.ofWords?_unsub sid count)
  | ping | pong =>
    refine read?_of_command ((Heading.read?_words (by decide) ?_ bs).trans rfl)
    exact List.forall_mem_singleton.2 (by decide)

theorem readAll?_of_read? {bs rest : Bytes} {c : Command} (h : read? bs = some (c, rest)) :
    readAll? bs = (readAll? rest).map (c :: ·) := by
  rw [readAll?]
  split
  · rename_i hr
    rw [hr] at h
    cases h
  · rename_i hr
    rw [hr] at h
    cases h
    rfl

theorem readAll?_encode {cs : List Command} (h : ∀ c ∈ cs, c.Named) :
    readAll? (cs.flatMap encode) = some (cs.map canonical) := by
  induction cs with
  | nil =>
    rw [readAll?]
    rfl
  | cons c cs ih =>
    obtain ⟨hc, hcs⟩ := List.forall_mem_cons.1 h
    rw [List.flatMap_cons, readAll?_of_read? (read?_encode hc _), ih hcs]
    rfl

theorem encode_canonical (c : Command) : c.canonical.encode = c.encode := by
  cases c with
  | unsub sid max =>
    have hm : (max.filter (0 < ·)).filter (0 < ·) = max.filter (0 < ·) := by simp
    simp only [canonical, encode, hm]
  | connect | pub | sub | ping | pong => rfl

theorem flatMap_encode_canonical (cs : List Command) :
    (cs.map canonical).flatMap encode = cs.flatMap encode := by
  rw [List.flatMap_map]
  exact congrArg (List.flatMap · cs) (funext encode_canonical)

/-- The octets that a client writes are those of just one list of commands, up to a count of zero.
In particular no user and no password ends the line of a `CONNECT`, and both are read back from
it. -/
theorem stream_decodable :
    (∀ cs : List Command, (∀ c ∈ cs, c.Named) →
      readAll? (cs.flatMap encode) = some (cs.map canonical)) ∧
    (∀ cs ds : List Command, (∀ c ∈ cs, c.Named) → (∀ d ∈ ds, d.Named) →
      (cs.flatMap encode = ds.flatMap encode ↔ cs.map canonical = ds.map canonical)) ∧
    ∀ info : ConnectInfo,
      encode (.connect info) = Bytes.ofString ("CONNECT " ++ info.json.text) ++ Bytes.crlf ∧
      (∀ b ∈ Bytes.ofString ("CONNECT " ++ info.json.text), b ≠ 13 ∧ b ≠ 10) ∧
      ConnectInfo.parse? info.json.text = some info := by
  refine ⟨fun cs ↦ readAll?_encode, fun cs ds hc hd ↦ ⟨fun h ↦ ?_, fun h ↦ ?_⟩, fun info ↦ ?_⟩
  · have hr := readAll?_encode hc
    rw [h, readAll?_encode hd] at hr
    exact (Option.some.inj hr).symm
  · rw [← flatMap_encode_canonical cs, h, flatMap_encode_canonical]
  · refine ⟨congrArg (Bytes.ofString · ++ Bytes.crlf) (connect_text info), ?_, info.parse?_json⟩
    intro b hb
    have hl := Bytes.printable_ofString (printable_connect info) b hb
    constructor <;> (rintro rfl; exact absurd hl (by decide))

def lookalikes (max : Option Nat) : List Command :=
  [.connect ⟨true, false, some "a\"\\b", some "\r\nPING\r\n\x01é"⟩,
    .pub "PUB" (some "CONNECT") (Bytes.ofString "UNSUB 1\r\nPING\r\n"), .sub "1" (some "2") 3,
    .unsub 18446744073709551615 max, .ping, .pub "PONG" none [], .pong]

theorem stream_decodable_lookalikes :
    (∀ c ∈ lookalikes (some 0), c.Named) ∧
      readAll? ((lookalikes (some 0)).flatMap encode) = some (lookalikes none) ∧
      (lookalikes (some 0)).flatMap encode = (lookalikes none).flatMap encode := by
  have hz : ∀ c ∈ lookalikes (some 0), c.Named := by decide
  have hn : ∀ c ∈ lookalikes none, c.Named := by decide
  obtain ⟨hr, he, -⟩ := stream_decodable
  exact ⟨hz, hr _ hz, (he _ _ hz hn).2 rfl⟩

end Command

end Herald
