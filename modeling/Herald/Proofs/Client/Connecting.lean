import Herald.Proofs.Client.Ordinary
import Herald.Proofs.Client.Stopping

namespace Herald

variable {κ : Type}

def Turn.Idle (p : Phase) : Turn κ → Prop
  | .event (.connected _) | .event (.connectFailed _) => False
  | .event (.wake _) => p ≠ .reconnecting
  | _ => True

def Parcel.login? : Parcel Command → Option (Option String × Option String)
  | .command (.connect info) => some (info.user, info.pass)
  | _ => none

def Reaction.credentials (r : Reaction κ) : List (Nat × Option String × Option String) :=
  r.written.filterMap fun sent ↦ sent.parcel.login?.map (sent.writer, ·)

theorem Parcel.login?_eq_none {p : Parcel Command} (h : ∀ info, p ≠ .command (.connect info)) :
    p.login? = none := by
  unfold login?
  split
  · rename_i info
    exact (h info rfl).elim
  · rfl

def ServerUri.guarded : ServerUri := ⟨"nats", "127.0.0.1", defaultPort, some "user", some "pass"⟩

namespace Client

variable {c : Client κ} {t : Turn κ}

def starts? (c : Client κ) : Turn κ → Option ServerUri
  | .event (.begin uri) => (c.begin? uri).map fun _ ↦ uri
  | _ => none

def dials? (c : Client κ) : Turn κ → Option ServerUri
  | .event (.wake _) => c.wake.1
  | t => c.starts? t

def starts (c : Client κ) : List (Turn κ) → List ServerUri
  | [] => []
  | t :: ts => (c.starts? t).toList ++ (c.turn t).client.starts ts

/-- How a turn with which no start begins leaves a client: where it stood, at the end of a connect
or of an attempt, without its connection, or stopped. -/
inductive Course (c : Client κ) (t : Turn κ) (d : Client κ) : Prop
  | stays : d.standing = c.standing → Course c t d
  | ends : ¬t.Idle c.phase → d.closing = c.closing → Course c t d
  | leaves : c.phase = .connected → d.closing = c.closing → Course c t d
  | stops : c.closing = false → d.closing = true → Course c t d

theorem Spares.course {d : Client κ} (h : c.Spares d) : d.uri = c.uri ∧ c.Course t d := by
  refine ⟨?_, .stays h.standing⟩
  obtain ⟨o, r, rfl⟩ := h
  rfl

theorem stop_uri (c : Client κ) : c.stop.client.uri = c.uri := by
  unfold stop
  split <;> rfl

theorem raise_uri (c : Client κ) (e : ClientError) : (c.raise e).client.uri = c.uri := by
  unfold raise
  split
  · rfl
  · exact stop_uri { c with lastError := some e }
  · rfl

theorem stop_course (c : Client κ) (t : Turn κ) :
    c.stop.client.uri = c.uri ∧ c.Course t c.stop.client := by
  refine ⟨c.stop_uri, ?_⟩
  rcases c.stop_cases with ⟨-, hs⟩ | ⟨hc, -, hs⟩
  · exact .stays hs
  · exact .stops hc (congrArg (·.2.2) hs)

theorem raise_course (c : Client κ) (e : ClientError) (t : Turn κ) :
    (c.raise e).client.uri = c.uri ∧ c.Course t (c.raise e).client := by
  refine ⟨c.raise_uri e, ?_⟩
  rcases c.raise_cases e with ⟨-, hs⟩ | ⟨hc, -, hs⟩
  · exact .stays hs
  · exact .stops hc (congrArg (·.2.2) hs)

/-- An error that comes with the end of something leaves a client where that left it, or stops
it. -/
theorem raise_course_of {d : Client κ} (hd : d.uri = c.uri ∧ d.closing = c.closing)
    (h : ∀ {e : Client κ}, e.closing = c.closing → c.Course t e) (error : ClientError) :
    (d.raise error).client.uri = c.uri ∧ c.Course t (d.raise error).client := by
  refine ⟨(d.raise_uri error).trans hd.1, ?_⟩
  rcases d.raise_cases error with ⟨-, hs⟩ | ⟨hc, -, hs⟩
  · exact h ((congrArg (·.2.2) hs).trans hd.2)
  · exact .stops (hd.2 ▸ hc) (congrArg (·.2.2) hs)

theorem receive_course (c : Client κ) (generation : Nat) (f : Frame) (t : Turn κ) :
    (c.receive generation f).client.uri = c.uri ∧ c.Course t (c.receive generation f).client := by
  unfold receive
  split
  · exact (Spares.refl c).course
  cases f with
  | message m => exact (c.deliver_quiet m).spares.course
  | ok => exact (Spares.refl c).course
  | error text | unknown line => exact c.raise_course _ t
  | ping => exact ⟨rfl, .stays rfl⟩
  | pong => exact c.pong_quiet.spares.course
  | info text =>
    simp only
    split <;> exact ⟨rfl, .stays rfl⟩

theorem lost_course (c : Client κ) (generation : Nat) (t : Turn κ) :
    (c.lost generation).client.uri = c.uri ∧ c.Course t (c.lost generation).client := by
  unfold lost
  split
  · exact ⟨rfl, .stays rfl⟩
  rename_i h
  have hp : c.phase = .connected := Decidable.not_not.1 (not_or.1 h).2
  dsimp only
  split
  · exact ⟨rfl, .leaves hp rfl⟩
  · split
    · exact ⟨rfl, .leaves hp rfl⟩
    · let d : Client κ :=
        { c with outbox := c.outbox.detach, reader := none, phase := .disconnected }
      exact raise_course_of (c := c) (d := d) ⟨rfl, rfl⟩ (.leaves hp) (.disconnected d.uriText)

theorem wake_course (c : Client κ) (loop : Nat) :
    c.wake.2.client.uri = c.uri ∧ c.Course (.event (.wake loop)) c.wake.2.client := by
  unfold wake
  split
  · exact ⟨rfl, .stays rfl⟩
  rename_i h
  have hp : c.phase = .reconnecting := Decidable.not_not.1 (not_or.1 h).2
  dsimp only
  split
  · let d : Client κ := { c with attempts := c.attempts + 1, phase := .disconnected, loop := none }
    have hi : ¬(Turn.event (.wake loop) : Turn κ).Idle c.phase := not_not_intro hp
    exact raise_course_of (c := c) (d := d) ⟨rfl, rfl⟩ (.ends hi) (.disconnected d.uriText)
  · exact ⟨rfl, .stays rfl⟩

theorem bind?_course {r : Reaction κ} (h : c.bind? = some r) :
    r.client.uri = c.uri ∧ r.client.closing = c.closing := by
  unfold bind? at h
  split at h
  · obtain rfl := Option.some.inj h
    exact ⟨rfl, rfl⟩
  · cases h

theorem connectFailed_course (c : Client κ) (uri : ServerUri) :
    (c.connectFailed uri).client.uri = c.uri ∧
      (c.connectFailed uri).client.closing = c.closing := by
  rw [connectFailed_client]
  split <;> exact ⟨rfl, rfl⟩

/-- Only a start gives a client an address, and only a start takes back a stop. -/
theorem turn_course (h : c.starts? t = none) :
    (c.turn t).client.uri = c.uri ∧ c.Course t (c.turn t).client := by
  rcases t with e | _
  · by_cases he : e.Light
    · exact (step_quiet he c).spares.course
    cases e with
    | stop => exact c.stop_course _
    | begin uri =>
      have hb : c.begin? uri = none := Option.map_eq_none_iff.1 h
      have he : c.turn (.event (.begin uri)) = { client := c } := by rw [turn, step, hb]
      rw [he]
      exact (Spares.refl c).course
    | connected uri =>
      simp only [turn, step]
      split
      · rename_i r hr
        exact (bind?_course hr).imp_right (.ends not_false)
      · exact (Spares.refl c).course
    | connectFailed uri => exact (c.connectFailed_course uri).imp_right (.ends not_false)
    | frame generation f => exact c.receive_course generation f _
    | lost generation => exact c.lost_course generation _
    | wake loop => exact c.wake_course loop
    | setErrorHandler callback | setConnectHandler callback | attemptFailed loop =>
      exact ⟨rfl, .stays rfl⟩
    | _ => exact absurd trivial he
  · exact ⟨rfl, .stays rfl⟩

theorem turn_of_starts {uri : ServerUri} (h : c.starts? t = some uri) :
    (c.turn t).client = { c with
      phase := .connecting
      uri := some uri
      closing := false
      everConnected := false
      attempts := 0 } := by
  unfold starts? at h
  split at h
  · rename_i u
    obtain ⟨d, hd, rfl⟩ := Option.map_eq_some_iff.1 h
    have he : (c.turn (.event (.begin u))).client = d := by rw [turn, step, hd]
    rw [he]
    unfold begin? at hd
    split at hd <;> cases hd <;> rfl
  · cases h

theorem turn_uri (c : Client κ) (t : Turn κ) :
    (c.turn t).client.uri = (c.starts? t).or c.uri := by
  cases h : c.starts? t with
  | none => exact (turn_course h).1
  | some uri =>
    rw [turn_of_starts h]
    rfl

/-- A client has the address of the start that began last. -/
theorem turns_uri (c : Client κ) (ts : List (Turn κ)) :
    (c.turns ts).2.uri = (c.starts ts).getLast?.or c.uri := by
  induction ts generalizing c with
  | nil => rfl
  | cons t ts ih =>
    have hl : (c.starts? t).toList.getLast? = c.starts? t := by cases c.starts? t <;> rfl
    calc (c.turns (t :: ts)).2.uri
      _ = ((c.turn t).client.starts ts).getLast?.or ((c.starts? t).or c.uri) := by
        rw [← turn_uri]
        exact ih _
      _ = (c.starts (t :: ts)).getLast?.or c.uri := by
        rw [starts, List.getLast?_append, hl, Option.or_assoc]

theorem closing_turns (h : c.closing = true) {ts : List (Turn κ)} (hs : c.starts ts = []) :
    (c.turns ts).2.closing = true := by
  induction ts generalizing c with
  | nil => exact h
  | cons t ts ih =>
    obtain ⟨ht, hs⟩ := List.append_eq_nil_iff.1 hs
    have ht : c.starts? t = none := by simpa using ht
    refine ih ?_ hs
    cases (turn_course ht).2 with
    | stays he => exact (congrArg (·.2.2) he).trans h
    | ends _ he | leaves _ he => exact he.trans h
    | stops _ he => exact he

theorem closing_after_stop {xs ys : List (Turn κ)}
    (hn : (c.turns (xs ++ [.event .stop])).2.starts ys = []) :
    (c.turns (xs ++ .event .stop :: ys)).2.closing = true := by
  have hc : (c.turns (xs ++ [.event .stop])).2.closing = true := by
    rw [turns_snoc]
    exact stop_closing _
  have hs : xs ++ .event .stop :: ys = (xs ++ [.event .stop]) ++ ys := by simp
  rw [hs, turns_append]
  exact closing_turns hc hn

theorem starts?_of_tries (h : c.wantsConnection) (t : Turn κ) : c.starts? t = none := by
  have hp : c.phase = .connecting ∨ c.phase = .reconnecting := by
    simp only [wantsConnection, Bool.and_eq_true] at h
    simpa using h.2
  unfold starts?
  split
  · rcases hp with hp | hp <;> simp [begin?, hp]
  · rfl

/-- A client goes on trying to connect while it is not stopped and no connect comes to its end. -/
theorem tries_turn (h : c.wantsConnection) (hg : c.Goes t) (hi : t.Idle c.phase) :
    (c.turn t).client.standing = c.standing := by
  have hw := h
  simp only [wantsConnection, Bool.and_eq_true, Bool.not_eq_true'] at hw
  obtain ⟨hc, hp⟩ := hw
  cases (turn_course (starts?_of_tries h t)).2 with
  | stays he => exact he
  | ends hn => exact (hn hi).elim
  | leaves hp' => simp [hp'] at hp
  | stops _ he => simp [hg he] at hc

theorem wantsConnection_congr {d : Client κ} (h : d.standing = c.standing) :
    d.wantsConnection = c.wantsConnection := by
  simp only [standing, Prod.mk.injEq] at h
  rw [wantsConnection, wantsConnection, h.1, h.2.2]

theorem tries_turns (h : c.wantsConnection) {ts : List (Turn κ)} (hu : c.Unstopped ts)
    (hi : ∀ t ∈ ts, t.Idle c.phase) :
    (c.turns ts).2.standing = c.standing ∧ c.starts ts = [] := by
  induction ts generalizing c with
  | nil => exact ⟨rfl, rfl⟩
  | cons t ts ih =>
    obtain ⟨ht, hts⟩ := List.forall_mem_cons.1 hi
    have hs := tries_turn h hu.1 ht
    have hp : (c.turn t).client.phase = c.phase := congrArg (·.1) hs
    obtain ⟨hd, hn⟩ := ih (by rw [wantsConnection_congr hs]; exact h) hu.2 (by rw [hp]; exact hts)
    exact ⟨hd.trans hs, by rw [starts, starts?_of_tries h, hn]; rfl⟩

theorem dials_spec {uri : ServerUri} (h : c.dials? t = some uri) :
    (c.turn t).client.uri = some uri ∧ (c.turn t).client.wantsConnection := by
  have hstart (h : c.starts? t = some uri) :
      (c.turn t).client.uri = some uri ∧ (c.turn t).client.wantsConnection := by
    rw [turn_of_starts h]
    exact ⟨rfl, by simp [wantsConnection]⟩
  unfold dials? at h
  split at h
  · rename_i loop
    have hw : ¬(c.closing = true ∨ c.phase ≠ .reconnecting) := fun hc ↦ by
      simp [wake, if_pos hc] at h
    have he : c.wake.2.client = { c with attempts := c.attempts + 1 } ∧ c.uri = some uri := by
      simp only [wake, if_neg hw] at h ⊢
      split at h
      · cases h
      · rename_i hm
        rw [if_neg hm]
        exact ⟨rfl, h⟩
    obtain ⟨hc, hp⟩ : c.closing = false ∧ c.phase = .reconnecting := by simpa using hw
    simp only [turn, step, he.1]
    exact ⟨he.2, by simp [wantsConnection, hc, hp]⟩
  · exact hstart h

/-- No `CONNECT` ever waits for a connection. -/
theorem turnUses_connect (c : Client κ) (t : Turn κ) (info : ConnectInfo) :
    .send (.connect info) ∉ c.turnUses t := by
  intro h
  rcases c.turnUses_ordinary t with ⟨u, uri, -, -, -, hu⟩ | ho
  · rw [hu] at h
    simp at h
  · cases ho _ h

theorem reserved_turns (h : ∀ info, .command (.connect info) ∉ c.outbox.pending)
    (ts : List (Turn κ)) (info : ConnectInfo) :
    .command (.connect info) ∉ (c.turns ts).2.outbox.pending := by
  induction ts generalizing c with
  | nil => exact h info
  | cons t ts ih =>
    refine ih fun info hp ↦ ?_
    rw [(c.turn_follows t).outbox] at hp
    rcases Outbox.mem_pending_run hp with hp | hp | ⟨command, hc, hp⟩
    · cases hp
    · exact h info hp
    · obtain ⟨op, hop, he⟩ := List.mem_filterMap.1 hc
      obtain rfl := Parcel.command.inj hp
      cases op with
      | send command =>
        obtain rfl := Option.some.inj he
        exact c.turnUses_connect t info hop
      | _ => cases he

theorem handshake_connect (c : Client κ) (uri : ServerUri) (info : ConnectInfo) :
    .connect info ∉ (c.handshake uri).tail := by
  intro h
  obtain ⟨a, -, hc⟩ := List.mem_flatMap.1 h
  rcases List.mem_cons.1 hc with hc | hc
  · cases hc
  · obtain ⟨n, -, hc⟩ := List.mem_map.1 (Option.toList_map .. ▸ hc)
    cases hc

/-- On a connection that a client takes, it says who it is just once, by its address. -/
theorem credentials_of_bind? (h : ∀ info, .command (.connect info) ∉ c.outbox.pending)
    {uri : ServerUri} (hu : c.uri = some uri) {r : Reaction κ} (hr : c.bind? = some r) :
    r.credentials = [(c.generation + 1, uri.user, uri.pass)] := by
  have hf := (c.bind?_follows hr).written
  have hw : c.wantsConnection = true := by
    cases hw : c.wantsConnection with
    | true => rfl
    | false => simp [bind?, hw] at hr
  have hb : c.bindUses = [.attach ⟨c.generation + 1, true⟩ (c.handshake uri),
      .roundTrip (.handshake (c.generation + 1))] := by rw [bindUses, hw, hu]
  rw [hb, Outbox.run_attach_roundTrip] at hf
  have hnone {ps : List (Parcel Command)} (hp : ∀ info, .command (.connect info) ∉ ps) :
      ps.filterMap Parcel.login? = [] := by
    refine List.filterMap_eq_nil_iff.2 fun p hm ↦ Parcel.login?_eq_none fun info he ↦ ?_
    exact hp info (he ▸ hm)
  have hhand : ((c.handshake uri).map .command).filterMap Parcel.login? =
      [(uri.user, uri.pass)] := by
    have ht : ((c.handshake uri).tail.map Parcel.command).filterMap Parcel.login? = [] :=
      hnone fun info hm ↦ by
        obtain ⟨command, hc, he⟩ := List.mem_map.1 hm
        exact c.handshake_connect uri info (Parcel.command.inj he ▸ hc)
    exact congrArg ((uri.user, uri.pass) :: ·) ht
  have hping : [(Parcel.ping : Parcel Command)].filterMap Parcel.login? = [] := rfl
  have hmap (ps : List (Parcel Command)) (n : Nat) :
      (ps.map (Sent.mk n)).filterMap (fun sent ↦ sent.parcel.login?.map (sent.writer, ·)) =
        (ps.filterMap Parcel.login?).map (n, ·) := by
    rw [List.filterMap_map, List.map_filterMap]
    rfl
  rw [Reaction.credentials, hf, hmap, List.filterMap_append, List.filterMap_append, hhand, hnone h,
    hping]
  rfl

theorem step_connected (hu : c.uri.isSome) (uri : ServerUri) :
    (c.step (.connected uri)).1 = .accepted c.wantsConnection := by
  obtain ⟨v, hv⟩ := Option.isSome_iff_exists.1 hu
  cases hw : c.wantsConnection <;> simp [step, bind?, hw, hv]

theorem bind?_of_accepted {uri : ServerUri} (h : (c.step (.connected uri)).1 = .accepted true) :
    c.bind? = some (c.step (.connected uri)).2 := by
  cases hb : c.bind? with
  | none => simp [step, hb] at h
  | some r => simp [step, hb]

theorem turns_uri_of_some {u : ServerUri} (hu : c.uri = some u) (ts : List (Turn κ)) :
    (c.turns ts).2.uri = some ((c.starts ts).getLast?.getD u) := by
  rw [turns_uri, hu]
  cases (c.starts ts).getLast? <;> rfl

theorem reserved_dial (options : ClientOptions) (before : List (Turn κ)) (t : Turn κ)
    (info : ConnectInfo) : .command (.connect info) ∉
      ((Client.turns ({ options } : Client κ) before).2.turn t).client.outbox.pending := by
  let c : Client κ := { options }
  have h := reserved_turns (c := c) (fun _ ↦ List.not_mem_nil) (before ++ [t])
  rw [turns_snoc] at h
  exact h info

/-- Whatever comes between, a client that takes a connection says on it, just once, who it is by
the address of the start that began last. That is the address to which the connection was opened
unless the client was stopped meanwhile or another connect came to its end. -/
theorem credentials_of_last_start (options : ClientOptions) (before between : List (Turn κ))
    (t : Turn κ) (u : ServerUri)
    (hd : (Client.turns ({ options } : Client κ) before).2.dials? t = some u)
    (hb : ((((Client.turns { options } before).2.turn t).client.turns between).2.step
      (.connected u)).1 = .accepted true) :
    let a : Client κ := ((Client.turns { options } before).2.turn t).client
    let d := (a.turns between).2
    let v := (a.starts between).getLast?.getD u
    (d.step (.connected u)).2.credentials = [(d.generation + 1, v.user, v.pass)] ∧
      (a.Unstopped between → (∀ s ∈ between, s.Idle a.phase) → v = u) := by
  intro a d v
  obtain ⟨hu, hw⟩ := dials_spec hd
  have hv : d.uri = some v := turns_uri_of_some hu between
  have hp : ∀ info, .command (.connect info) ∉ d.outbox.pending :=
    reserved_turns (reserved_dial options before t) between
  refine ⟨credentials_of_bind? hp hv (bind?_of_accepted hb), fun hs hi ↦ ?_⟩
  have hn : a.starts between = [] := (tries_turns hw hs hi).2
  simp [v, hn]

theorem credentials_of_last_start_guarded :
    let c : Client Nat := { options := {} }
    let a := ((c.turns []).2.turn (.event (.begin .localhost))).client
    let d := (a.turns [.event .stop, .event (.begin .guarded)]).2
    (c.turns []).2.dials? (.event (.begin .localhost)) = some .localhost ∧
      (d.step (.connected .localhost)).1 = .accepted true ∧
      (d.step (.connected .localhost)).2.credentials = [(2, some "user", some "pass")] := by
  intro c a d
  have hd : (c.turns []).2.dials? (.event (.begin .localhost)) = some .localhost := rfl
  have hb : (d.step (.connected .localhost)).1 = .accepted true := rfl
  exact ⟨hd, hb, (credentials_of_last_start {} [] _ _ _ hd hb).1⟩

/-- A stop and another start make a client tell the server that it first turned to who it is for
the second one. -/
theorem credentials_of_another :
    ¬∀ (options : ClientOptions) (before between : List (Turn Nat)) (t : Turn Nat) (u : ServerUri),
      (Client.turns ({ options } : Client Nat) before).2.dials? t = some u →
      ((((Client.turns ({ options } : Client Nat) before).2.turn t).client.turns between).2.step
        (.connected u)).1 = .accepted true →
      ∀ login ∈ ((((Client.turns ({ options } : Client Nat) before).2.turn t).client.turns
        between).2.step (.connected u)).2.credentials, login.2 = (u.user, u.pass) := by
  intro h
  have hl := h {} [] [.event .stop, .event (.begin .guarded)] (.event (.begin .localhost))
    .localhost rfl rfl (2, some "user", some "pass") (by decide)
  simp [ServerUri.localhost] at hl

theorem connectFailed_call (h : c.closing = false) (uri : ServerUri) :
    (c.connectFailed uri).call = match c.onError with
      | .user callback => some (.error callback (.couldNotConnect uri.text))
      | _ => none := by
  unfold connectFailed
  by_cases hp : c.phase = .connecting
  · simp only [hp, if_true, h]
    cases c.onError <;> rfl
  · simp only [hp, if_false, h]
    cases c.onError <;> rfl

/-- What becomes of a start that is not refused. After a stop its failure changes nothing and is not
heard of, unless another start has begun since: then it counts as the failure of that one. If its
connect succeeds the start is answered so, but the connection is taken only if the client still
tries to connect; it does if it was not stopped meanwhile and no other connect came to its end. -/
theorem start_outcome (options : ClientOptions) (before between : List (Turn κ)) (u : ServerUri)
    (hb : (Client.turns ({ options } : Client κ) before).2.starts? (.event (.begin u)) = some u) :
    let a : Client κ := ((Client.turns { options } before).2.turn (.event (.begin u))).client
    let d := (a.turns between).2
    (∀ xs ys, between = xs ++ .event .stop :: ys →
        (a.turns (xs ++ [.event .stop])).2.starts ys = [] → d.connectFailed u = { client := d }) ∧
      (d.closing = false →
        (d.connectFailed u).client.phase =
            (if d.phase = .connecting then .disconnected else d.phase) ∧
          (d.connectFailed u).call = match d.onError with
            | .user callback => some (.error callback (.couldNotConnect u.text))
            | _ => none) ∧
      (d.step (.connected u)).1 = .accepted d.wantsConnection ∧
      (a.Unstopped between → (∀ s ∈ between, s.Idle .connecting) →
        (d.step (.connected u)).1 = .accepted true ∧
          (d.step (.connected u)).2.credentials = [(d.generation + 1, u.user, u.pass)]) ∧
      ∀ s : Scenario, s.host.network.up → (s.conclude u).1 = .started := by
  intro a d
  have ha : a = _ := turn_of_starts hb
  have hd : d.Settled := (((Settled.new options).turns before).turn _).turns between
  have hau : a.uri = some u := by rw [ha]
  have hu : d.uri = some ((a.starts between).getLast?.getD u) := turns_uri_of_some hau between
  have hs := step_connected (hu ▸ rfl : d.uri.isSome) u
  refine ⟨?_, ?_, hs, ?_, ?_⟩
  · rintro xs ys rfl hn
    have hc : d.closing = true := closing_after_stop hn
    exact connectFailed_of_closed hc (hd.closed.2 hc) u
  · intro hc
    refine ⟨?_, connectFailed_call hc u⟩
    rw [connectFailed_client]
    split <;> rfl
  · intro hns hi
    have hap : a.phase = .connecting := by rw [ha]
    have hw : a.wantsConnection := by rw [ha]; simp [wantsConnection]
    obtain ⟨hst, hn⟩ := tries_turns hw hns (hap ▸ hi)
    rw [wantsConnection_congr hst, hw] at hs
    rw [hn] at hu
    have hp : ∀ info, .command (.connect info) ∉ d.outbox.pending :=
      reserved_turns (reserved_dial options before _) between
    exact ⟨hs, credentials_of_bind? hp hu (bind?_of_accepted hs)⟩
  · intro s hup
    simp only [Scenario.conclude, if_pos hup]

def overtaking : List (Turn Nat) := [.event .stop, .event (.begin .guarded)]

theorem start_outcome_overtaken :
    let c : Client Nat := (Client.turns { options := {} } [.event (.setErrorHandler 3)]).2
    let a := (c.turn (.event (.begin .localhost))).client
    let d := (a.turns overtaking).2
    c.starts? (.event (.begin .localhost)) = some .localhost ∧ d.closing = false ∧
      (d.connectFailed .localhost).client.phase = .disconnected ∧
      (d.connectFailed .localhost).call =
        some (.error 3 (.couldNotConnect ServerUri.localhost.text)) ∧
      (a.turns [.event .stop]).2.connectFailed .localhost =
        { client := (a.turns [.event .stop]).2 } := by
  intro c a d
  have hb : c.starts? (.event (.begin .localhost)) = some .localhost := rfl
  have hc : d.closing = false := rfl
  obtain ⟨-, hf, -⟩ := start_outcome {} [.event (.setErrorHandler 3)] overtaking .localhost hb
  obtain ⟨hs, -⟩ := start_outcome {} [.event (.setErrorHandler 3)] [.event .stop] .localhost hb
  obtain ⟨hp, he⟩ := hf hc
  exact ⟨hb, hc, hp, he, hs [] [] rfl rfl⟩

/-- A start that was stopped fails for the next one. And a start that was not stopped is answered
by another connection than its own: its own one is not taken. -/
theorem start_not_its_own :
    (¬∀ (options : ClientOptions) (before xs ys : List (Turn Nat)) (u : ServerUri),
      (Client.turns ({ options } : Client Nat) before).2.starts? (.event (.begin u)) = some u →
      let d := (((Client.turns { options } before).2.turn (.event (.begin u))).client.turns
        (xs ++ .event .stop :: ys)).2
      (d.connectFailed u).client.phase = d.phase ∧ (d.connectFailed u).call = none) ∧
    ¬∀ (options : ClientOptions) (before between : List (Turn Nat)) (u : ServerUri) (s : Scenario),
      (Client.turns ({ options } : Client Nat) before).2.starts? (.event (.begin u)) = some u →
      let a := ((Client.turns { options } before).2.turn (.event (.begin u))).client
      a.Unstopped between → (s.conclude u).1 = .started →
        ((a.turns between).2.step (.connected u)).1 = .accepted true := by
  constructor
  · intro h
    have hp := (h {} [.event (.setErrorHandler 3)] [] [.event (.begin .guarded)] .localhost rfl).1
    exact absurd hp (by decide)
  · intro h
    have ha := h {} [.event (.begin .localhost), .event .stop] [.event (.connected .localhost)]
      .guarded (.new {} { up := true }) rfl (by decide) rfl
    exact absurd ha (by decide)

end Client

end Herald
