import Herald.Client.Event
import Herald.Proofs.Wire.Password
import Mathlib.Logic.Basic

namespace Herald

variable {κ : Type}

def ConnectInfo.redacted (i : ConnectInfo) : ConnectInfo :=
  { i with pass := i.pass.map fun _ ↦ "" }

def Command.redacted : Command → Command
  | .connect info => .connect info.redacted
  | command => command

def Parcel.redacted : Parcel Command → Parcel Command
  | .command c => .command c.redacted
  | .ping => .ping

def Output.redacted : Output κ → Output κ
  | .write sent => .write ⟨sent.writer, sent.parcel.redacted⟩
  | output => output

def Answer.redacted : Answer → Answer
  | .dial uri => .dial (uri.map ServerUri.redacted)
  | answer => answer

def Event.mapUri (f : ServerUri → ServerUri) : Event κ → Event κ
  | .begin uri => .begin (f uri)
  | .connected uri => .connected (f uri)
  | .connectFailed uri => .connectFailed (f uri)
  | event => event

def Client.redacted (c : Client κ) : Client κ := { c with uri := c.uri.map ServerUri.redacted }

def Reaction.redacted (r : Reaction κ) : Reaction κ where
  outputs := r.outputs.map Output.redacted
  client := r.client.redacted
  call := r.call

namespace Client

variable {c d : Client κ}

def withUri (c : Client κ) (uri : Option ServerUri) : Client κ := { c with uri }

/-- What is done alike whatever the password in the address, which stays as it is. -/
def Blind (f : Client κ → Reaction κ) : Prop :=
  ∀ c uri, uri.map ServerUri.redacted = c.uri.map ServerUri.redacted →
    f (c.withUri uri) = { f c with client := (f c).client.withUri uri }

theorem eq_withUri (h : c.redacted = d.redacted) : d = c.withUri d.uri := by
  obtain ⟨⟩ := c
  obtain ⟨⟩ := d
  simp only [redacted, mk.injEq] at h
  simp only [withUri, mk.injEq]
  simp_all

theorem uri_redacted (h : c.redacted = d.redacted) :
    d.uri.map ServerUri.redacted = c.uri.map ServerUri.redacted := congrArg Client.uri h.symm

theorem withUri_redacted {uri uri' : Option ServerUri}
    (h : uri.map ServerUri.redacted = uri'.map ServerUri.redacted) (c : Client κ) :
    (c.withUri uri).redacted = (c.withUri uri').redacted := by
  simp only [redacted, withUri, h]

theorem uriText_withUri {uri : Option ServerUri}
    (h : uri.map ServerUri.redacted = c.uri.map ServerUri.redacted) :
    (c.withUri uri).uriText = c.uriText := by
  have ht (u : Option ServerUri) : (u.map ServerUri.redacted).map ServerUri.text =
      u.map ServerUri.text := by
    rw [Option.map_map]
    rfl
  have hm : uri.map ServerUri.text = c.uri.map ServerUri.text := by rw [← ht, h, ht]
  exact congrArg (·.getD "") hm

namespace Blind

variable {f g : Client κ → Reaction κ}

theorem uri (h : Blind f) (c : Client κ) : (f c).client.uri = c.uri :=
  congrArg (fun r ↦ r.client.uri) (h c c.uri rfl)

theorem redacted (hf : Blind f) (h : c.redacted = d.redacted) :
    (f c).redacted = (f d).redacted := by
  have hu : (f c).client = (f c).client.withUri c.uri := by rw [← hf.uri c]; rfl
  have hc : (f c).client.redacted = ((f c).client.withUri d.uri).redacted :=
    hu ▸ withUri_redacted (uri_redacted h).symm _
  rw [eq_withUri h, hf c d.uri (uri_redacted h)]
  exact congrArg (Reaction.mk _ · _) hc

theorem andThen (hf : Blind f) (hg : Blind g) : Blind fun c ↦ (f c).andThen g := by
  intro c uri hu
  have hu' : uri.map ServerUri.redacted = (f c).client.uri.map ServerUri.redacted := by
    rw [hf.uri c, hu]
  simp only [Reaction.andThen, hf c uri hu, hg (f c).client uri hu']

theorem ite {p : Client κ → Prop} [DecidablePred p] (hp : ∀ c uri, p (c.withUri uri) ↔ p c)
    (hf : Blind f) (hg : Blind g) : Blind fun c ↦ if p c then f c else g c := by
  intro c uri hu
  by_cases h : p c
  · simp only [if_pos h, if_pos ((hp c uri).2 h), hf c uri hu]
  · simp only [if_neg h, if_neg (mt (hp c uri).1 h), hg c uri hu]

end Blind

theorem blind_rest : Blind fun c : Client κ ↦ { client := c } := fun _ _ _ ↦ rfl

theorem send_blind (command : Command) : Blind fun c : Client κ ↦ c.send command :=
  fun _ _ _ ↦ rfl

theorem flush_blind (callback : κ) : Blind fun c ↦ c.flush callback := fun _ _ _ ↦ rfl

theorem publish_blind (subject : String) (reply : Option String) (payload : Bytes) :
    Blind fun c : Client κ ↦ c.publish subject reply payload :=
  .ite (fun _ _ ↦ .rfl) blind_rest (send_blind _)

theorem publishAcked_blind (subject : String) (payload : Bytes) (callback : κ) :
    Blind fun c ↦ c.publishAcked subject payload callback :=
  .ite (fun _ _ ↦ .rfl) blind_rest ((publish_blind subject none payload).andThen
    (flush_blind callback))

theorem unsubscribe_blind (sid max : Nat) : Blind fun c : Client κ ↦ c.unsubscribe sid max :=
  (send_blind _).andThen fun _ _ _ ↦ rfl

theorem subscribe_blind (subject : String) (queue : Option String) (max : Option Nat)
    (callback : κ) : Blind fun c ↦ (c.subscribe subject queue max callback).2 := by
  by_cases h : subject = ""
  · simpa only [subscribe, if_pos h] using blind_rest
  · simp only [subscribe, if_neg h]
    cases max <;> exact fun _ _ _ ↦ rfl

theorem subscribe_number (subject : String) (queue : Option String) (max : Option Nat)
    (callback : κ) (c : Client κ) (uri : Option ServerUri) :
    ((c.withUri uri).subscribe subject queue max callback).1 =
      (c.subscribe subject queue max callback).1 := by
  by_cases h : subject = "" <;> simp only [subscribe, h] <;> rfl

theorem request_blind (inbox subject : String) (payload : Bytes) (queue : Option String)
    (max : Option Nat) (callback : κ) :
    Blind fun c ↦ (c.request inbox subject payload queue max callback).2 := by
  by_cases h : subject = ""
  · simpa only [request, if_pos h] using blind_rest
  · simpa only [request, if_neg h] using
      (subscribe_blind inbox queue max callback).andThen
        (publish_blind subject (some inbox) payload)

theorem request_number (inbox subject : String) (payload : Bytes) (queue : Option String)
    (max : Option Nat) (callback : κ) (c : Client κ) (uri : Option ServerUri) :
    ((c.withUri uri).request inbox subject payload queue max callback).1 =
      (c.request inbox subject payload queue max callback).1 := by
  by_cases h : subject = ""
  · simp only [request, if_pos h]
  · simp only [request, if_neg h]
    exact subscribe_number inbox queue max callback c uri

theorem setTimeout_blind (sid afterMs expected : Nat) (auto : Bool) (callback : κ) :
    Blind fun c ↦ c.setTimeout sid afterMs expected auto callback := by
  intro c uri hu
  simp only [setTimeout, withUri]
  rcases c.registry.nextToken sid with ⟨_ | _, _⟩ <;> rfl

theorem stop_blind : Blind (stop : Client κ → Reaction κ) :=
  .ite (fun _ _ ↦ .rfl) blind_rest fun _ _ _ ↦ rfl

theorem raise_blind (e : ClientError) : Blind fun c : Client κ ↦ c.raise e := by
  intro c uri hu
  cases h : c.onError with
  | unset =>
    have h' : (c.withUri uri).onError = .unset := h
    simp only [raise, h, h']
  | fallback =>
    have h' : (c.withUri uri).onError = .fallback := h
    simp only [raise, h, h']
    exact stop_blind { c with onError := .fallback, lastError := some e } uri hu
  | user callback =>
    have h' : (c.withUri uri).onError = .user callback := h
    simp only [raise, h, h']

theorem raise_disconnected_blind :
    Blind fun c : Client κ ↦ c.raise (.disconnected c.uriText) := by
  intro c uri hu
  simp only [uriText_withUri hu]
  exact raise_blind _ c uri hu

theorem deliver_blind (m : Message) : Blind fun c : Client κ ↦ c.deliver m := by
  intro c uri hu
  have h' : (c.withUri uri).registry.dispatch m = c.registry.dispatch m := rfl
  simp only [deliver, h']
  rcases c.registry.dispatch m with ⟨_ | ⟨_, _, _ | _⟩ | _, _⟩ <;> rfl

theorem established_blind (generation : Nat) :
    Blind fun c : Client κ ↦ c.established generation :=
  .ite (fun _ _ ↦ .rfl) (fun _ _ _ ↦ rfl) blind_rest

theorem pong_blind : Blind (pong : Client κ → Reaction κ) := by
  intro c uri hu
  simp only [pong, withUri]
  rcases c.outbox.complete with ⟨_ | _ | _, outbox⟩
  · rfl
  · exact established_blind _ { c with outbox } uri hu
  · rfl

theorem receive_blind (generation : Nat) (f : Frame) :
    Blind fun c : Client κ ↦ c.receive generation f := by
  refine .ite (fun _ _ ↦ .rfl) blind_rest ?_
  cases f with
  | message m => exact deliver_blind m
  | ok => exact blind_rest
  | error text => exact raise_blind _
  | ping => exact send_blind _
  | pong => exact pong_blind
  | info text =>
    dsimp only
    cases ServerInfo.parse? text <;> exact fun _ _ _ ↦ rfl
  | unknown line => exact raise_blind _

theorem expire_blind (sid token : Nat) (callback : κ) :
    Blind fun c ↦ c.expire sid token callback := by
  intro c uri hu
  simp only [expire, withUri]
  rcases c.registry.claim sid token with ⟨_ | _ | _, registry⟩
  · rfl
  · rfl
  · exact congrArg (fun r : Reaction κ ↦ { r with call := some (.timeout callback sid) })
      (unsubscribe_blind sid 0 { c with registry } uri hu)

theorem lost_blind (generation : Nat) : Blind fun c : Client κ ↦ c.lost generation := by
  refine .ite (fun _ _ ↦ .rfl) blind_rest (.ite (fun _ _ ↦ .rfl) (fun _ _ _ ↦ rfl)
    (.ite (fun _ _ ↦ .rfl) (fun _ _ _ ↦ rfl) fun c uri hu ↦ ?_))
  let released : List (Output κ) := c.outbox.writer.toList.map fun w ↦ .hangUp w.number
  exact congrArg (fun r : Reaction κ ↦ { r with outputs := released ++ r.outputs })
    (raise_disconnected_blind
      { c with outbox := c.outbox.detach, reader := none, phase := .disconnected } uri hu)

theorem wake_eq (c : Client κ) : c.wake =
    (if c.closing ∨ c.phase ≠ .reconnecting then none
      else if c.options.maxReconnectAttempts < c.attempts + 1 then none else c.uri,
    if c.closing ∨ c.phase ≠ .reconnecting then { client := c }
      else if c.options.maxReconnectAttempts < c.attempts + 1 then
        { c with attempts := c.attempts + 1, phase := .disconnected, loop := none }.raise
          (.disconnected c.uriText)
      else { client := { c with attempts := c.attempts + 1 } }) := by
  unfold wake
  split
  · rfl
  · dsimp only
    split <;> rfl

theorem wake_blind : Blind fun c : Client κ ↦ c.wake.2 := by
  simp only [wake_eq]
  refine .ite (fun _ _ ↦ .rfl) blind_rest (.ite (fun _ _ ↦ .rfl) ?_ fun _ _ _ ↦ rfl)
  exact fun c uri hu ↦ raise_disconnected_blind
    { c with attempts := c.attempts + 1, phase := .disconnected, loop := none } uri hu

theorem wake_dial (h : c.redacted = d.redacted) :
    c.wake.1.map ServerUri.redacted = d.wake.1.map ServerUri.redacted := by
  have hd : d.wake.1 = if c.closing ∨ c.phase ≠ .reconnecting then none
      else if c.options.maxReconnectAttempts < c.attempts + 1 then none else d.uri := by
    rw [eq_withUri h, wake_eq]
    rfl
  rw [hd, wake_eq]
  dsimp only
  split
  · rfl
  split
  · rfl
  · exact (uri_redacted h).symm

theorem connectFailed_blind (uri : ServerUri) : Blind fun c : Client κ ↦ c.connectFailed uri := by
  intro c uri' hu
  have hc : (c.withUri uri').closing = c.closing := rfl
  have ho : (c.withUri uri').onError = c.onError := rfl
  by_cases h : c.phase = .connecting
  · have h' : (c.withUri uri').phase = .connecting := h
    simp only [connectFailed, if_pos h, if_pos h', hc, ho]
    cases c.closing <;> cases c.onError <;> rfl
  · have h' : (c.withUri uri').phase ≠ .connecting := h
    simp only [connectFailed, if_neg h, if_neg h', hc, ho]
    cases c.closing <;> cases c.onError <;> rfl

theorem connectFailed_text {u v : ServerUri} (h : u.redacted = v.redacted) (c : Client κ) :
    c.connectFailed u = c.connectFailed v := by
  simp only [connectFailed, ServerUri.text_eq_of_redacted h]

theorem handshake_redacted {u v : ServerUri} (h : u.redacted = v.redacted) (c : Client κ) :
    (c.handshake u).map Command.redacted = (c.handshake v).map Command.redacted := by
  have huser : u.redacted.user = v.redacted.user := congrArg ServerUri.user h
  have hpass : u.redacted.pass = v.redacted.pass := congrArg ServerUri.pass h
  simp only [ServerUri.redacted] at huser hpass
  simp only [handshake, List.map_cons, Command.redacted, ConnectInfo.redacted, huser, hpass]

theorem attach_redacted (o : Outbox Command (RoundTrip κ)) (w : Writer)
    {preamble preamble' : List Command}
    (h : preamble.map Command.redacted = preamble'.map Command.redacted) :
    ((o.attach w preamble).1.map Output.write).map (Output.redacted (κ := κ)) =
      ((o.attach w preamble').1.map Output.write).map Output.redacted := by
  have hp (cs : List Command) : (((cs.map Parcel.command).map fun p ↦ (⟨w.number, p⟩ : Sent Command)
      ).map Output.write).map (Output.redacted (κ := κ)) =
        (cs.map Command.redacted).map fun c ↦ .write ⟨w.number, .command c⟩ := by
    simp only [List.map_map]
    rfl
  simp only [Outbox.attach]
  split
  · simp only [List.map_append, hp, h]
  · rfl

def bound (c : Client κ) : Client κ :=
  { c with
    generation := c.generation + 1
    onError := match c.everConnected, c.onError with
      | false, .unset => .fallback
      | _, handler => handler
    everConnected := true
    attempts := 0
    loop := none
    phase := .connected
    reader := some (c.generation + 1) }

theorem bind?_eq (c : Client κ) : c.bind? = match c.wantsConnection, c.uri with
    | true, some uri => some ((c.bound.withOutbox
        (c.outbox.attach ⟨c.generation + 1, true⟩ (c.bound.handshake uri))).andThen
          (·.roundTrip (.handshake (c.generation + 1))))
    | _, _ => none := rfl

theorem withOutbox_redacted (h : c.redacted = d.redacted)
    {r s : List (Sent Command) × Outbox Command (RoundTrip κ)} (ho : r.2 = s.2)
    (hw : (r.1.map Output.write).map (Output.redacted (κ := κ)) =
      (s.1.map Output.write).map Output.redacted) :
    (c.withOutbox r).redacted = (d.withOutbox s).redacted := by
  have hc : (c.withOutbox r).client.redacted = (d.withOutbox s).client.redacted := by
    simp only [withOutbox, ho]
    exact congrArg (fun c : Client κ ↦ { c with outbox := s.2 }) h
  exact congrArg₂ (Reaction.mk · · none) hw hc

theorem andThen_redacted {r s : Reaction κ} {f : Client κ → Reaction κ}
    (h : r.redacted = s.redacted) (hf : Blind f) :
    (r.andThen f).redacted = (s.andThen f).redacted := by
  have hr := hf.redacted (congrArg Reaction.client h)
  have ho : r.outputs.map Output.redacted = s.outputs.map Output.redacted :=
    congrArg Reaction.outputs h
  have ho' : (f r.client).outputs.map Output.redacted = (f s.client).outputs.map Output.redacted :=
    congrArg Reaction.outputs hr
  have hall : (r.andThen f).outputs.map Output.redacted =
      (s.andThen f).outputs.map Output.redacted := by
    simp only [Reaction.andThen, List.map_append, ho, ho']
  have hcall : (f r.client).call = (f s.client).call := (congrArg Reaction.call hr :)
  simp only [Reaction.redacted, Reaction.mk.injEq]
  exact ⟨hall, (congrArg Reaction.client hr :), hcall⟩

theorem bind?_redacted (h : c.redacted = d.redacted) :
    c.bind?.map Reaction.redacted = d.bind?.map Reaction.redacted := by
  have hu := uri_redacted h
  have hd := eq_withUri h
  have hw : d.wantsConnection = c.wantsConnection := hd ▸ rfl
  have ho : d.outbox = c.outbox := hd ▸ rfl
  have hg : d.generation = c.generation := hd ▸ rfl
  have hb : c.bound.redacted = d.bound.redacted := by
    rw [hd]
    exact withUri_redacted hu.symm c.bound
  have hh (u : ServerUri) : d.bound.handshake u = c.bound.handshake u := hd ▸ rfl
  rw [bind?_eq, bind?_eq, hw, ho, hg]
  cases c.wantsConnection with
  | false => rfl
  | true =>
    cases hcu : c.uri with
    | none =>
      rw [hcu] at hu
      rw [Option.map_eq_none_iff.1 hu]
    | some u =>
      rw [hcu] at hu
      obtain ⟨v, hv, huv⟩ := Option.map_eq_some_iff.1 hu
      rw [hv]
      refine congrArg some (andThen_redacted (withOutbox_redacted hb rfl ?_) fun _ _ _ ↦ rfl)
      rw [hh]
      exact attach_redacted _ _ (handshake_redacted huv.symm _)

theorem begin?_redacted {u v : ServerUri} (hc : c.redacted = d.redacted)
    (hu : u.redacted = v.redacted) :
    (c.begin? u).map redacted = (d.begin? v).map redacted := by
  have hd := eq_withUri hc
  have hp : d.phase = c.phase := hd ▸ rfl
  simp only [begin?, hp]
  rw [hd]
  cases c.phase with
  | disconnected | closed => simp only [Option.map_some, redacted, withUri, hu]
  | connecting | connected | reconnecting => rfl

theorem Blind.answers {f : Client κ → Reaction κ} (hf : Blind f) (h : c.redacted = d.redacted)
    (a : Answer) : (a, f c).map Answer.redacted Reaction.redacted =
      (a, f d).map Answer.redacted Reaction.redacted :=
  congrArg (Prod.mk _) (hf.redacted h)

/-- What a client does at one moment tells no more of passwords than it is told. -/
theorem step_redacted (c : Client κ) (e : Event κ) :
    (c.redacted.step (e.mapUri ServerUri.redacted)).map Answer.redacted Reaction.redacted =
      (c.step e).map Answer.redacted Reaction.redacted := by
  have hc : c.redacted.redacted = c.redacted := by
    have hu : (c.uri.map ServerUri.redacted).map ServerUri.redacted =
        c.uri.map ServerUri.redacted := by
      rw [Option.map_map]
      exact congrArg (c.uri.map ·) (funext ServerUri.redacted_redacted)
    exact withUri_redacted hu c
  cases e with
  | setErrorHandler callback =>
    exact Blind.answers (f := fun c ↦ { client := c.setErrorHandler callback })
      (fun _ _ _ ↦ rfl) hc _
  | setConnectHandler callback =>
    exact Blind.answers (f := fun c ↦ { client := c.setConnectHandler callback })
      (fun _ _ _ ↦ rfl) hc _
  | publish subject reply payload => exact (publish_blind subject reply payload).answers hc _
  | publishAcked subject payload callback =>
    exact (publishAcked_blind subject payload callback).answers hc _
  | flush callback => exact (flush_blind callback).answers hc _
  | subscribe subject queue max callback =>
    exact Prod.ext (congrArg Answer.sid (subscribe_number subject queue max callback c _))
      ((subscribe_blind subject queue max callback).redacted hc)
  | request inbox subject payload queue max callback =>
    exact Prod.ext
      (congrArg Answer.sid (request_number inbox subject payload queue max callback c _))
      ((request_blind inbox subject payload queue max callback).redacted hc)
  | unsubscribe sid max => exact (unsubscribe_blind sid max).answers hc _
  | setTimeout sid afterMs expected auto callback =>
    exact (setTimeout_blind sid afterMs expected auto callback).answers hc _
  | stop => exact stop_blind.answers hc _
  | begin uri =>
    have hb := begin?_redacted hc (ServerUri.redacted_redacted uri)
    simp only [step, Event.mapUri]
    cases h : c.begin? uri with
    | none =>
      rw [h] at hb
      rw [Option.map_eq_none_iff.1 hb]
      exact congrArg (Prod.mk _) (blind_rest.redacted hc)
    | some begun =>
      rw [h] at hb
      obtain ⟨begun', h', he⟩ := Option.map_eq_some_iff.1 hb
      rw [h']
      exact congrArg (Prod.mk _) (blind_rest.redacted he)
  | connected uri =>
    have hb := bind?_redacted hc
    simp only [step, Event.mapUri]
    cases h : c.bind? with
    | none =>
      rw [h] at hb
      rw [Option.map_eq_none_iff.1 hb]
      exact congrArg (Prod.mk _) (blind_rest.redacted hc)
    | some r =>
      rw [h] at hb
      obtain ⟨r', h', he⟩ := Option.map_eq_some_iff.1 hb
      rw [h']
      exact congrArg (Prod.mk _) he
  | connectFailed uri =>
    have ht := connectFailed_text (ServerUri.redacted_redacted uri) c.redacted
    exact (congrArg (fun r ↦ (Answer.done, r).map Answer.redacted Reaction.redacted) ht).trans
      ((connectFailed_blind uri).answers hc _)
  | frame generation f => exact (receive_blind generation f).answers hc _
  | lost generation => exact (lost_blind generation).answers hc _
  | wake loop =>
    exact Prod.ext (congrArg Answer.dial (wake_dial hc)) (wake_blind.redacted hc)
  | attemptFailed loop => exact Blind.answers (f := (attemptFailed · loop)) (fun _ _ _ ↦ rfl) hc _
  | expire sid token callback => exact (expire_blind sid token callback).answers hc _

/-- Over a whole run too, clients and events that differ in passwords alone come to reactions that
do, and so to the same calls. -/
theorem run_redacted {es es' : List (Event κ)} (hc : c.redacted = d.redacted)
    (he : es.map (Event.mapUri ServerUri.redacted) = es'.map (Event.mapUri ServerUri.redacted)) :
    (c.run es).map (List.map Reaction.redacted) redacted =
      (d.run es').map (List.map Reaction.redacted) redacted := by
  induction es generalizing c d es' with
  | nil =>
    rw [List.map_eq_nil_iff.1 he.symm]
    exact congrArg (Prod.mk []) hc
  | cons e es ih =>
    obtain ⟨e', es', rfl, he, hes⟩ := List.map_eq_cons_iff.1 he.symm
    have hs := step_redacted c e
    rw [hc, ← he, step_redacted d e'] at hs
    have hr : (d.step e').2.redacted = (c.step e).2.redacted := congrArg Prod.snd hs
    have hrun := ih (congrArg Reaction.client hr.symm) hes.symm
    exact Prod.ext (congrArg₂ List.cons hr.symm (congrArg Prod.fst hrun)) (congrArg Prod.snd hrun :)

end Client

theorem Event.mapUri_redacted {f : ServerUri → ServerUri} (hf : ∀ u, (f u).redacted = u.redacted)
    (e : Event κ) : (e.mapUri f).mapUri ServerUri.redacted = e.mapUri ServerUri.redacted := by
  cases e with
  | begin uri => exact congrArg Event.begin (hf uri)
  | connected uri => exact congrArg Event.connected (hf uri)
  | connectFailed uri => exact congrArg Event.connectFailed (hf uri)
  | _ => rfl

/-- A change of addresses that leaves all but the passwords leaves a run the same but for them, and
its calls as they are. -/
theorem Client.run_mapUri {f : ServerUri → ServerUri} (hf : ∀ u, (f u).redacted = u.redacted)
    (c : Client κ) (es : List (Event κ)) :
    (c.run es).1.map (·.call) = (c.run (es.map (Event.mapUri f))).1.map (·.call) ∧
      (c.run es).1.map Reaction.redacted =
        (c.run (es.map (Event.mapUri f))).1.map Reaction.redacted ∧
      (c.run es).2.redacted = (c.run (es.map (Event.mapUri f))).2.redacted := by
  have hes : (es.map (Event.mapUri f)).map (Event.mapUri ServerUri.redacted) =
      es.map (Event.mapUri ServerUri.redacted) := by
    rw [List.map_map]
    exact List.map_congr_left fun e _ ↦ Event.mapUri_redacted hf e
  have hrun := run_redacted (c := c) rfl hes.symm
  have hcalls (rs : List (Reaction κ)) :
      (rs.map Reaction.redacted).map (·.call) = rs.map (·.call) := by
    rw [List.map_map]
    rfl
  refine ⟨?_, congrArg Prod.fst hrun, congrArg Prod.snd hrun⟩
  rw [← hcalls, ← hcalls (c.run (es.map _)).1]
  exact congrArg (List.map (·.call)) (congrArg Prod.fst hrun)

end Herald
