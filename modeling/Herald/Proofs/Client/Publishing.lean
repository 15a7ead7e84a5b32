import Herald.Proofs.Client.Move
import Herald.Proofs.Outbox.Conservation

namespace Herald

variable {κ : Type}

def Command.isPub : Command → Bool
  | .pub .. => true
  | _ => false

def Command.pub? (subject : String) (reply : Option String) (payload : Bytes) : Option Command :=
  if subject = "" then none else some (.pub subject (reply.filter (· ≠ "")) payload)

def Turn.accepted? : Turn κ → Option Command
  | .event (.publish subject reply payload) => Command.pub? subject reply payload
  | .event (.publishAcked subject payload _) => Command.pub? subject none payload
  | .event (.request inbox subject payload _ _ _) => Command.pub? subject (some inbox) payload
  | _ => none

def Parcel.pubs (ps : List (Parcel Command)) : List Command :=
  (Parcel.commands ps).filter Command.isPub

namespace Client

def queuedPubs (c : Client κ) : List Command := Parcel.pubs c.outbox.pending

/-- Uses of an outbox that are to send these publications and hand over no other. They forget none
that waits, unless they stop the outbox. -/
structure Sends (ops : List (Use κ)) (pubs : List Command) : Prop where
  commands : (ops.filterMap Outbox.Op.command?).filter Command.isPub = pubs
  keeps : ∀ op ∈ ops, op = .close ∨ op.Keeps Command.isPub

theorem Sends.nil : Sends ([] : List (Use κ)) [] := ⟨rfl, nofun⟩

theorem Sends.append {xs ys : List (Use κ)} {ps qs : List Command} (hx : Sends xs ps)
    (hy : Sends ys qs) : Sends (xs ++ ys) (ps ++ qs) where
  commands := by rw [List.filterMap_append, List.filter_append, hx.commands, hy.commands]
  keeps := List.forall_mem_append.2 ⟨hx.keeps, hy.keeps⟩

theorem Sends.of_keeps {op : Use κ} (h : op.Keeps Command.isPub) (hc : op.command? = none) :
    Sends [op] [] where
  commands := by rw [Outbox.Op.filterMap_command?_cons, hc]; rfl
  keeps := by simpa using .inr h

theorem Sends.unsub (sid : Nat) (max : Option Nat) :
    Sends ([.send (.unsub sid max)] : List (Use κ)) [] :=
  ⟨rfl, by simp [Outbox.Op.Keeps]⟩

theorem publishUses_sends (subject : String) (reply : Option String) (payload : Bytes) :
    Sends (publishUses (κ := κ) subject reply payload)
      (Command.pub? subject reply payload).toList := by
  unfold publishUses Command.pub?
  split
  · exact .nil
  · exact ⟨rfl, by simp [Outbox.Op.Keeps]⟩

theorem subscribeUses_sends (c : Client κ) (subject : String) (queue : Option String)
    (max : Option Nat) : Sends (c.subscribeUses subject queue max) [] := by
  unfold subscribeUses
  split
  · exact .nil
  · have hs : Sends ([.sendIfLive (.sub subject (queue.filter (· ≠ "")) (c.registry.lastSid + 1))] :
        List (Use κ)) [] := .of_keeps rfl rfl
    cases max with
    | none => exact hs
    | some max => exact hs.append (.unsub _ _)

theorem stopUses_sends (c : Client κ) : Sends c.stopUses [] := by
  unfold stopUses
  split
  · exact .nil
  · exact ⟨rfl, by simp⟩

theorem raiseUses_sends (c : Client κ) : Sends c.raiseUses [] := by
  unfold raiseUses
  split
  · exact c.stopUses_sends
  · exact .nil

theorem deliverUses_sends (c : Client κ) (m : Message) : Sends (c.deliverUses m) [] := by
  unfold deliverUses
  split
  · exact .unsub _ _
  · exact .unsub _ _
  · exact .nil

theorem receiveUses_sends (c : Client κ) (f : Frame) : Sends (c.receiveUses f) [] := by
  cases f with
  | message m => exact c.deliverUses_sends m
  | ok | info text => exact .nil
  | error text | unknown line => exact c.raiseUses_sends
  | ping => exact ⟨rfl, by simp [receiveUses, Outbox.Op.Keeps]⟩
  | pong => exact .of_keeps trivial rfl

theorem handshake_isPub (c : Client κ) (uri : ServerUri) :
    ∀ command ∈ c.handshake uri, command.isPub = false := by
  intro command hc
  rcases List.mem_cons.1 hc with rfl | hc
  · rfl
  · obtain ⟨a, -, hc⟩ := List.mem_flatMap.1 hc
    rcases List.mem_cons.1 hc with rfl | hc
    · rfl
    · obtain ⟨n, -, rfl⟩ := List.mem_map.1 (Option.toList_map .. ▸ hc)
      rfl

theorem bindUses_sends (c : Client κ) : Sends c.bindUses [] := by
  unfold bindUses
  split
  · rename_i uri _ _
    have ha : Sends [.attach ⟨c.generation + 1, true⟩ (c.handshake uri)] [] :=
      Sends.of_keeps (κ := κ) ⟨rfl, c.handshake_isPub uri⟩ rfl
    exact ha.append (.of_keeps trivial rfl)
  · exact .nil

/-- A client sends just the publications that it accepts. -/
theorem turnUses_sends (c : Client κ) (t : Turn κ) :
    Sends (c.turnUses t) t.accepted?.toList := by
  rcases t with e | _
  · cases e with
    | publish subject reply payload => exact publishUses_sends subject reply payload
    | publishAcked subject payload callback =>
      simp only [turnUses, uses, Turn.accepted?]
      split
      · rename_i hs
        simpa [Command.pub?, hs] using Sends.nil
      · have hp := publishUses_sends (κ := κ) subject none payload
        have hr : Sends [.roundTrip (.user callback)] [] := .of_keeps trivial rfl
        simpa using hp.append hr
    | flush callback => exact .of_keeps trivial rfl
    | subscribe subject queue max callback => exact c.subscribeUses_sends subject queue max
    | request inbox subject payload queue max callback =>
      simp only [turnUses, uses, Turn.accepted?]
      split
      · rename_i hs
        simpa [Command.pub?, hs] using Sends.nil
      · exact (c.subscribeUses_sends inbox queue max).append (publishUses_sends _ _ _)
    | unsubscribe sid max => exact .unsub sid (some max)
    | stop => exact c.stopUses_sends
    | connected uri => exact c.bindUses_sends
    | frame generation f =>
      simp only [turnUses, uses]
      split
      · exact .nil
      · exact c.receiveUses_sends f
    | lost generation =>
      simp only [turnUses, uses, lostUses]
      have hd : Sends ([.detach] : List (Use κ)) [] := .of_keeps trivial rfl
      have hr : Sends (if c.closing || c.options.reconnect then [] else c.raiseUses) [] := by
        split
        · exact .nil
        · exact c.raiseUses_sends
      split
      · exact .nil
      · exact hd.append hr
    | wake loop =>
      simp only [turnUses, uses, wakeUses]
      split
      · exact .nil
      · split
        · exact c.raiseUses_sends
        · exact .nil
    | expire sid token callback =>
      simp only [turnUses, uses, expireUses]
      split
      · exact .unsub sid (some 0)
      · exact .nil
    | setErrorHandler callback | setConnectHandler callback | setTimeout | begin uri
    | connectFailed uri | attemptFailed loop => exact .nil
  · exact .of_keeps trivial rfl

abbrev Unstopped (c : Client κ) (ts : List (Turn κ)) : Prop := c.Along Goes ts

theorem flushed_turn {c : Client κ} (h : c.outbox.Flushed) (t : Turn κ) :
    (c.turn t).client.outbox.Flushed := by
  rw [(c.turn_follows t).outbox]
  exact h.run _

theorem flushed_turns {c : Client κ} (h : c.outbox.Flushed) (ts : List (Turn κ)) :
    (c.turns ts).2.outbox.Flushed := by
  induction ts generalizing c with
  | nil => exact h
  | cons t ts ih => exact ih (flushed_turn h t)

def writtenPubs (rs : List (Reaction κ)) : List Command :=
  Parcel.pubs ((rs.flatMap Reaction.written).map (·.parcel))

theorem writtenPubs_cons (r : Reaction κ) (rs : List (Reaction κ)) :
    writtenPubs (r :: rs) = writtenPubs [r] ++ writtenPubs rs := by
  simp [writtenPubs, Parcel.pubs]

theorem publications_turn {c : Client κ} (h : c.outbox.Flushed) {t : Turn κ} (hg : c.Goes t) :
    c.queuedPubs ++ t.accepted?.toList =
      writtenPubs [c.turn t] ++ (c.turn t).client.queuedPubs := by
  have hs := c.turnUses_sends t
  -- A use that does not keep publications is a stop, and the client is not stopped.
  have hk : ∀ op ∈ c.turnUses t, op.Keeps Command.isPub := fun op hop ↦
    (hs.keeps op hop).resolve_left fun he ↦ hg.not_mem_close (he ▸ hop)
  have hc := h.conserves_run hk
  have hf := c.turn_follows t
  rw [← hf.written, ← hf.outbox, List.filter_append, List.filter_append, hs.commands] at hc
  simpa [queuedPubs, writtenPubs, Parcel.pubs] using hc

theorem publications_turns {c : Client κ} (h : c.outbox.Flushed) {ts : List (Turn κ)}
    (hu : c.Unstopped ts) : c.queuedPubs ++ ts.filterMap Turn.accepted? =
      writtenPubs (c.turns ts).1 ++ (c.turns ts).2.queuedPubs := by
  induction ts generalizing c with
  | nil => simp [turns, writtenPubs, Parcel.pubs]
  | cons t ts ih =>
    have ht := publications_turn h hu.1
    have ih := ih (flushed_turn h t) hu.2
    calc c.queuedPubs ++ (t :: ts).filterMap Turn.accepted?
      _ = (c.queuedPubs ++ t.accepted?.toList) ++ ts.filterMap Turn.accepted? := by
        rw [List.append_assoc]
        cases ha : t.accepted? <;> simp [ha]
      _ = writtenPubs [c.turn t] ++
            ((c.turn t).client.queuedPubs ++ ts.filterMap Turn.accepted?) := by
        rw [ht, List.append_assoc]
      _ = writtenPubs [c.turn t] ++ writtenPubs ((c.turn t).client.turns ts).1 ++
            ((c.turn t).client.turns ts).2.queuedPubs := by
        rw [ih, List.append_assoc]
      _ = writtenPubs (c.turns (t :: ts)).1 ++ (c.turns (t :: ts)).2.queuedPubs := by
        rw [← writtenPubs_cons]
        rfl

end Client

/-- No command is lost, sent twice or overtaken. The commands that an outbox is to send come to its
writers one after another, each after its preamble, or still wait; and so do the publications that
a client accepts until it is stopped. -/
theorem commands_conserved {α κ₁ κ₂ : Type} {ops : List (Outbox.Op α κ₁)}
    (hops : Outbox.Lossless ops) (options : ClientOptions) (before ts : List (Turn κ₂))
    (hts : (Client.turns { options } before).2.Unstopped ts) :
    (Outbox.carried (ops.filterMap Outbox.Op.attachment?) (Outbox.run {} ops).1 ++
        Parcel.commands (Outbox.run {} ops).2.pending = ops.filterMap Outbox.Op.command? ∧
      (Outbox.run {} ops).2.Flushed ∧
      ∀ earlier w preamble later, ops = earlier ++ .attach w preamble :: later →
        preamble.map .command ++ (Outbox.run {} earlier).2.pending <+:
          Sent.received (Outbox.run {} ops).1 w.number) ∧
    (Client.turns { options } before).2.queuedPubs ++ ts.filterMap Turn.accepted? =
      Client.writtenPubs ((Client.turns { options } before).2.turns ts).1 ++
        ((Client.turns { options } before).2.turns ts).2.queuedPubs := by
  refine ⟨⟨hops.carries.conserved, hops.carries.flushed, ?_⟩, ?_⟩
  · rintro earlier w preamble later rfl
    exact hops.received_of_attach
  · exact Client.publications_turns (Client.flushed_turns (fun _ ↦ rfl) before) hts

def changeOfWriters : List (Outbox.Op Nat Nat) :=
  [.send 1, .attach ⟨1, true⟩ [0], .roundTrip 7, .send 2, .breakWriter, .send 3, .detach, .send 4,
    .attach ⟨2, true⟩ [0], .complete, .send 5]

def publishing : List (Turn Nat) :=
  [.event (.publish "news" none [1]), .event (.begin .localhost), .event (.connected .localhost),
    .event (.publishAcked "news" [2] 7), .event (.lost 1), .event (.publish "news" none [3]),
    .event (.wake 0), .event (.connected .localhost)]

theorem commands_conserved_publishing :
    Outbox.Lossless changeOfWriters ∧ (Client.turns { options := {} } []).2.Unstopped publishing ∧
      Outbox.carried (changeOfWriters.filterMap Outbox.Op.attachment?)
        (Outbox.run {} changeOfWriters).1 = [1, 2, 3, 4, 5] ∧
      Client.writtenPubs ((Client.turns { options := {} } []).2.turns publishing).1 =
        [.pub "news" none [1], .pub "news" none [2], .pub "news" none [3]] := by
  have hops : Outbox.Lossless changeOfWriters :=
    ⟨by simp [changeOfWriters, Outbox.Op.Lossless], by decide⟩
  have hts : (Client.turns { options := {} } []).2.Unstopped publishing := by decide
  obtain ⟨⟨hc, -, -⟩, hp⟩ := commands_conserved hops {} [] publishing hts
  refine ⟨hops, hts, ?_, ?_⟩
  · exact (List.append_nil _).symm.trans hc
  · exact ((List.append_nil _).symm.trans hp.symm)

end Herald
