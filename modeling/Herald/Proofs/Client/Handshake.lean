import Herald.Proofs.Client.Announcements
import Herald.Proofs.Client.Greeting
import Herald.Proofs.Client.Requests

namespace Herald

variable {κ : Type}

namespace Client

/-- A connection was taken by a client as it was before, and this is what it has been handed so far:
first who is there, every live subscription with what its cap still allows, and all that was
waiting, and then the request of the handshake. -/
structure Opened (b : Client κ) (uri : ServerUri) (n : Nat) (sents : List (Sent Command))
    (first : List (Parcel Command)) : Prop where
  binds : b.bind?.isSome
  address : b.uri = some uri
  number : n = b.generation + 1
  begins : first =
    .command (.connect ⟨b.options.verbose, b.options.pedantic, uri.user, uri.pass⟩) ::
      b.registry.subs.flatMap (fun s ↦ .command (.sub s.subject s.queue s.sid) ::
        if 0 < s.max then [.command (.unsub s.sid (some (s.max - s.received)))] else []) ++
      b.outbox.pending
  sent : first ++ [.ping] <+: Sent.received sents n

theorem map_handshake (c : Client κ) (uri : ServerUri) :
    (c.handshake uri).map Parcel.command =
      .command (.connect ⟨c.options.verbose, c.options.pedantic, uri.user, uri.pass⟩) ::
        c.registry.subs.flatMap (fun s ↦ .command (.sub s.subject s.queue s.sid) ::
          if 0 < s.max then [.command (.unsub s.sid (some (s.max - s.received)))] else []) := by
  rw [handshake, Registry.announcements, List.map_cons, List.flatMap_map, List.map_flatMap]
  refine congrArg _ (List.flatMap_congr fun s _ ↦ ?_)
  by_cases hm : 0 < s.max <;> simp [Subscription.announcement, hm]

variable {b c : Client κ} {uri : ServerUri} {n k : Nat} {sents : List (Sent Command)}
  {first : List (Parcel Command)}

theorem Opened.extend (h : Opened b uri n sents first) (more : List (Sent Command)) :
    Opened b uri n (sents ++ more) first := by
  refine { h with sent := h.sent.trans ?_ }
  rw [Sent.received_append]
  exact List.prefix_append _ _

theorem Opened.countP_first (h : Opened b uri n sents first) :
    first.countP Parcel.isPing = b.outbox.pending.countP Parcel.isPing := by
  rw [h.begins, ← map_handshake, List.countP_append, List.countP_map]
  have hn : (b.handshake uri).countP (Parcel.isPing ∘ Parcel.command) = 0 :=
    List.countP_eq_zero.2 fun _ _ ↦ Bool.false_ne_true
  rw [hn, Nat.zero_add]

/-- The round trip of a handshake comes after those that were open before it and that some answers
since then have not completed, or it is over. -/
def Due (b c : Client κ) (k : Nat) : Prop :=
  (k ≤ b.outbox.pongs.length ∧ ∃ later, b.generation + 1 ∉ later.filterMap RoundTrip.handshake? ∧
    c.outbox.pongs = b.outbox.pongs.drop k ++ .handshake (b.generation + 1) :: later) ∨
  b.generation + 1 ∉ c.handshakes

/-- Ordinary uses that complete no round trip ask for some for the application, or forget all. -/
theorem ordinary_pongs_grow {o : Outbox Command (RoundTrip κ)} {ops : List (Use κ)}
    (h : ∀ op ∈ ops, Ordinary op) (hc : .complete ∉ ops) :
    (∃ later, later.filterMap RoundTrip.handshake? = [] ∧
      (o.run ops).2.pongs = o.pongs ++ later) ∨
      (o.run ops).2.pongs.filterMap RoundTrip.handshake? = [] := by
  by_cases hk : .close ∈ ops
  · obtain ⟨xs, ys, rfl⟩ := List.append_of_mem hk
    right
    rw [Outbox.run_append]
    exact List.sublist_nil.1 (ordinary_pongs_run (o := {}) fun op hop ↦
      h op (List.mem_append_right _ (List.mem_cons_of_mem _ hop)))
  · exact .inl ⟨_, ordinary_callbacks h, Outbox.pongs_run hc hk⟩

theorem Due.turn (h : Due b c k) (hg : c.generation = b.generation + 1) {t : Turn κ}
    (ho : ∀ op ∈ c.turnUses t, Ordinary op) :
    Due b (c.turn t).client (k + t.pong?.toList.count (b.generation + 1)) := by
  have hf := (c.turn_follows t).outbox
  have hs : ((c.turn t).client.handshakes).Sublist c.handshakes := by
    rw [handshakes, hf]
    exact ordinary_pongs_run ho
  by_cases ht : t = .event (.frame c.generation .pong)
  · have hk : t.pong?.toList.count (b.generation + 1) = 1 := by
      subst ht
      simp [Turn.pong?, hg]
    rw [hk]
    rcases h with ⟨hle, later, hl, hp⟩ | hn
    · rw [ht, History.turnUses_pong] at hf
      have hf : (c.turn t).client.outbox = c.outbox.complete.2 := ht ▸ hf
      rcases Nat.lt_or_eq_of_le hle with hlt | rfl
      · rw [List.drop_eq_getElem_cons hlt] at hp
        exact .inl ⟨hlt, later, hl, by rw [hf, Outbox.complete_of_cons hp]; rfl⟩
      · rw [List.drop_length] at hp
        refine .inr ?_
        rw [handshakes, hf, Outbox.complete_of_cons hp]
        exact hl
    · exact .inr fun hm ↦ hn (hs.subset hm)
  · have hk : t.pong?.toList.count (b.generation + 1) = 0 := by
      refine List.count_eq_zero.2 fun hm ↦ ht ?_
      rw [hg]
      exact Turn.pong?_eq_some.1 (Option.mem_toList.1 hm)
    rw [hk, Nat.add_zero]
    rcases h with ⟨hle, later, hl, hp⟩ | hn
    · rcases ordinary_pongs_grow (o := c.outbox) ho fun hm ↦ ht (complete_mem_uses hm) with
        ⟨more, hmore, he⟩ | he
      · refine .inl ⟨hle, later ++ more, ?_, ?_⟩
        · rwa [List.filterMap_append, hmore, List.append_nil]
        · rw [hf, he, hp, List.append_assoc]
          rfl
      · refine .inr ?_
        rw [handshakes, hf, he]
        exact List.not_mem_nil
    · exact .inr fun hm ↦ hn (hs.subset hm)

/-- An answer that comes to the round trip of the handshake has as many before it as there were
round trips open. -/
theorem Due.eq_length (h : Due b c k) (hb : b.generation + 1 ∉ b.handshakes)
    {pongs : List (RoundTrip κ)} (hp : c.outbox.pongs = .handshake (b.generation + 1) :: pongs) :
    k = b.outbox.pongs.length := by
  rcases h with ⟨hle, later, -, he⟩ | hn
  · refine Nat.le_antisymm hle (Nat.le_of_not_lt fun hlt ↦ hb ?_)
    rw [hp, List.drop_eq_getElem_cons hlt] at he
    refine List.mem_filterMap.2 ⟨b.outbox.pongs[k], List.getElem_mem hlt, ?_⟩
    rw [← (List.cons.inj he).1]
    rfl
  · refine (hn ?_).elim
    rw [handshakes, hp]
    exact List.mem_cons_self

theorem Opened.of_attach {u : ServerUri} (huri : b.uri = some uri) (hbind : b.bind?.isSome)
    (hu : b.turnUses (.event (.connected u)) = [.attach ⟨b.generation + 1, true⟩ (b.handshake uri),
      .roundTrip (.handshake (b.generation + 1))])
    (hpast : ∀ sent ∈ sents, sent.writer ≤ b.generation) :
    Opened b uri (b.turn (.event (.connected u))).client.generation
      (sents ++ (b.turn (.event (.connected u))).written)
      ((b.handshake uri).map .command ++ b.outbox.pending) where
  binds := hbind
  address := huri
  number := congrArg (·.2.1) (standing_of_attach hu)
  begins := by rw [map_handshake]
  sent := by
    have hg : (b.turn (.event (.connected u))).client.generation = b.generation + 1 :=
      congrArg (·.2.1) (standing_of_attach hu)
    -- Nothing was handed to this connection before.
    have hn : Sent.received sents (b.generation + 1) = [] := by
      refine Sent.received_eq_nil fun sent hs he ↦ ?_
      have hle := hpast sent hs
      omega
    rw [hg, Sent.received_append, hn, (b.turn_follows _).written, hu,
      Outbox.run_attach_roundTrip, Sent.received_map, if_pos rfl]
    exact List.prefix_rfl

theorem Due.of_attach {u : ServerUri} (hu : b.turnUses (.event (.connected u)) =
    [.attach ⟨b.generation + 1, true⟩ (b.handshake uri),
      .roundTrip (.handshake (b.generation + 1))]) :
    Due b (b.turn (.event (.connected u))).client 0 := by
  refine .inl ⟨Nat.zero_le _, [], List.not_mem_nil, ?_⟩
  rw [(b.turn_follows _).outbox, hu, Outbox.run_attach_roundTrip]
  rfl

theorem Opened.requests (h : Opened b uri n sents first) (hl : Linked b.outbox b.standing)
    (hs : b.outbox.Steady) : b.outbox.requests = first.countP Parcel.isPing := by
  have hp : b.phase ≠ .connected := fun hp ↦ by
    have hb := h.binds
    simp [bind?, wantsConnection, hp] at hb
  have hw : b.outbox.writer = none := Option.map_eq_none_iff.1 (hl.trans (if_neg hp))
  rw [h.countP_first, Outbox.requests, hs.idle hw, Nat.zero_add]

/-- A connected client has taken its connection at some turn. -/
theorem opened_of_connected (options : ClientOptions) {ts : List (Turn κ)}
    (hp : (turns ({ options } : Client κ) ts).2.phase = .connected) :
    ∃ before u between uri first, ts = before ++ .event (.connected u) :: between ∧
      Opened (turns ({ options } : Client κ) before).2 uri
        (turns ({ options } : Client κ) ts).2.generation (log { options } ts) first ∧
      Due (turns ({ options } : Client κ) before).2 (turns ({ options } : Client κ) ts).2
        ((between.filterMap Turn.pong?).count
          (turns ({ options } : Client κ) ts).2.generation) := by
  -- The last turn takes the connection, or finds it taken already.
  induction ts using List.reverseRecOn with
  | nil => cases hp
  | append_singleton ts t ih =>
    have hpast := ((Mirrors.new (κ := κ) options).turns .new rfl ts).past
    rw [turns_snoc] at hp
    simp only [turns_snoc, log_snoc]
    rcases (turns ({ options } : Client κ) ts).2.turnUses_ordinary t with
      ⟨u, uri, rfl, huri, hbind, hu⟩ | ho
    · exact ⟨ts, u, [], uri, _, rfl, .of_attach huri hbind hu hpast, .of_attach hu⟩
    · obtain ⟨hp, hg⟩ := connected_before ho hp
      obtain ⟨before, u, between, uri, first, hts, hopen, hdue⟩ := ih hp
      refine ⟨before, u, between ++ [t], uri, first, by simp [hts], ?_, ?_⟩
      · rw [hg]
        exact hopen.extend _
      · have hk := hdue.turn hopen.number ho
        rw [← hopen.number] at hk
        rw [hg, List.filterMap_append, List.count_append]
        cases hpong : t.pong? <;> simpa [hpong] using hk

end Client

namespace History

variable {options : ClientOptions} {before between : List (Turn κ)} {u uri : ServerUri} {n : Nat}
  {sents : List (Sent Command)} {first : List (Parcel Command)}

/-- No answer that is owed came on a connection before it was taken. -/
theorem count_pongs_of_opened (ho : Along Owes (new options) before)
    (hopen : Client.Opened (Client.turns { options } before).2 uri n sents first) :
    ((before ++ .event (.connected u) :: between).filterMap Turn.pong?).count n =
      (between.filterMap Turn.pong?).count n := by
  have hn : Sent.received (Client.log ({ options } : Client κ) before) n = [] := by
    refine Sent.received_eq_nil fun sent hs he ↦ ?_
    have hle := ((Client.Mirrors.new (κ := κ) options).turns .new rfl before).past sent hs
    have hnumber := hopen.number
    omega
  have hzero := count_pongs_le ho n
  rw [hn] at hzero
  rw [List.filterMap_append, List.count_append, Nat.le_zero.1 hzero, Nat.zero_add]
  rfl

/-- The connect handler runs at most once for each connection, while that is the one in use, as the
server answers a request on it. If the server sends no answer that it does not owe, it answers the
request of the handshake, and has dealt with all before that, if and only if no answer came early
since the generation before that of the connection began. So it is if nothing comes on a connection
after it is lost. -/
theorem connected_after_handshake_iff (options : ClientOptions) (ts : List (Turn κ)) (t : Turn κ) :
    let c := (Client.turns ({ options } : Client κ) ts).2
    let log := Client.log ({ options } : Client κ) ts
    (Client.greetings ({ options } : Client κ) (ts ++ [t])).Pairwise (· < ·) ∧
      (∀ n pongs, c.outbox.pongs = .handshake n :: pongs → n ≠ c.generation →
        (c.turn (.event (.frame c.generation .pong))).call = none) ∧
      ∀ callback, (c.turn t).call = some (.connected callback) →
        t = .event (.frame c.generation .pong) ∧ c.phase = .connected ∧
          c.onConnect = some callback ∧
          ∃ before u between uri first, ts = before ++ .event (.connected u) :: between ∧
            let b := (Client.turns ({ options } : Client κ) before).2
            Client.Opened b uri c.generation log first ∧
              (Along Owes (new options) (ts ++ [t]) →
                ∃ ps, Sent.Processed log c.generation
                    ((ts.filterMap Turn.pong?).count c.generation) ps ∧ ps <+: first ∧
                  (ps = first ↔ Client.NoneEarly { options } b.generation before) ∧
                  (Along Admits (new options) ts → ps = first)) := by
  intro c log
  refine ⟨?_, fun n pongs hp hn ↦ ?_, fun callback hc ↦ ?_⟩
  · have hr := ((Client.Rising.new (κ := κ) options).turns (ts ++ [t])).order
    exact (List.pairwise_append.1 hr).1
  · rw [Client.pong_of_old hp hn]
  obtain ⟨rfl, hp, hk, pongs, hpongs⟩ := Client.turn_call hc
  obtain ⟨before, u, between, uri, first, hts, hopen, hdue⟩ :=
    Client.opened_of_connected options hp
  refine ⟨rfl, hp, hk, before, u, between, uri, first, hts, hopen, fun ho ↦ ?_⟩
  let b := (Client.turns ({ options } : Client κ) before).2
  obtain ⟨hob, -⟩ := along_append.1 (hts ▸ (along_append.1 ho).1)
  -- This answer has as many before it on the connection as round trips were open before that.
  have hfresh : b.generation + 1 ∉ b.handshakes := fun hm ↦
    Nat.not_succ_le_self _ (((Client.Rising.new (κ := κ) options).turns before).le _
      (List.mem_append_right _ hm))
  have hnumber : c.generation = b.generation + 1 := hopen.number
  have hcount : (ts.filterMap Turn.pong?).count c.generation = b.outbox.pongs.length := by
    rw [hts, count_pongs_of_opened hob hopen]
    exact hdue.eq_length hfresh (hnumber ▸ hpongs)
  have hsum : Client.Counted { options } before := .new options before
  have hrequests : b.outbox.requests = first.countP Parcel.isPing :=
    hopen.requests (Client.linked_turns (c := { options }) rfl before)
      (Client.steady_turns .new before)
  obtain ⟨ps, hps, hprefix, hiff⟩ := Sent.processed_of_prefix hopen.sent
    (hcount ▸ hrequests ▸ hsum.covered)
  rw [hcount, ← hrequests, hsum.exact_iff] at hiff
  refine ⟨ps, hps, hprefix, hiff, fun ha ↦ hiff.2 ?_⟩
  obtain ⟨hab, -⟩ := along_append.1 (hts ▸ ha)
  exact noneEarly hab hob _

def interrupted : List (Turn Nat) :=
  [.event (.setConnectHandler 9), .event (.begin .localhost), .event (.connected .localhost),
    .event (.lost 1), .event (.publish "news" none [1]), .event (.wake 0),
    .event (.connected .localhost), .event (.frame 2 .pong)]

theorem connected_after_handshake_iff_interrupted :
    let c := (Client.turns ({ options := {} } : Client Nat) interrupted).2
    let log := Client.log ({ options := {} } : Client Nat) interrupted
    Along Owes (new {}) (interrupted ++ [.event (.frame 2 .pong)]) ∧
      Along Admits (new {}) interrupted ∧
      (c.turn (.event (.frame 2 .pong))).call = some (.connected 9) ∧
      ∃ before u between uri first, interrupted = before ++ .event (.connected u) :: between ∧
        Client.Opened (Client.turns { options := {} } before).2 uri 2 log first ∧
        Sent.Processed log 2 1 first := by
  intro c log
  have ho : Along Owes (new {}) (interrupted ++ [.event (.frame 2 .pong)]) := by decide
  have ha : Along Admits (new {}) interrupted := by decide
  have hc : (c.turn (.event (.frame 2 .pong))).call = some (.connected 9) := rfl
  obtain ⟨-, -, hconnected⟩ :=
    connected_after_handshake_iff {} interrupted (.event (.frame 2 .pong))
  obtain ⟨-, -, -, before, u, between, uri, first, hts, hopen, hprocessed⟩ := hconnected 9 hc
  obtain ⟨ps, hps, -, -, hall⟩ := hprocessed ho
  obtain rfl := hall ha
  exact ⟨ho, ha, hc, before, u, between, uri, ps, hts, hopen, hps⟩

/-- The server is lost for the writing task before the client hears what it has answered. -/
def crossed : List (Turn Nat) :=
  [.event (.setConnectHandler 9), .event (.begin .localhost), .event (.connected .localhost),
    .event (.lost 1), .event (.frame 1 .pong), .event (.publish "news" none [1]), .event (.wake 0)]

/-- The connect handler may run before the server has dealt with all that was waiting. The first of
two requests on the second connection is that of the first handshake, which an answer on the first
connection has completed already. -/
theorem connected_before_handshake :
    ¬∀ (options : ClientOptions) (before between : List (Turn Nat)) (u uri : ServerUri)
      (first ps : List (Parcel Command)) (callback : Nat),
      let ts := before ++ .event (.connected u) :: between
      let c := (Client.turns ({ options } : Client Nat) ts).2
      let log := Client.log ({ options } : Client Nat) ts
      Along Owes (new options) (ts ++ [.event (.frame c.generation .pong)]) →
      (c.turn (.event (.frame c.generation .pong))).call = some (.connected callback) →
      Client.Opened (Client.turns ({ options } : Client Nat) before).2 uri c.generation log
        first →
      Sent.Processed log c.generation ((ts.filterMap Turn.pong?).count c.generation) ps →
      ps = first := by
  intro h
  let connect : Parcel Command := .command (.connect ⟨false, false, none, none⟩)
  have he := h {} crossed [] .localhost .localhost
    [connect, .ping, .command (.pub "news" none [1])] [connect] 9 (by decide) rfl
    ⟨rfl, rfl, rfl, rfl, List.prefix_rfl⟩ ⟨[.command (.pub "news" none [1]), .ping], rfl, rfl⟩
  cases he

end History

end Herald
