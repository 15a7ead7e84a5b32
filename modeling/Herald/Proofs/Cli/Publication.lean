import Mathlib
import Herald.Proofs.Cli.Session

namespace Herald.Cli

/-- What happens to a command that waits for its server: it reads octets, the server ends its
stream or is no longer written to, the network changes, or time passes until a given moment. Left
out are an interrupt from the keyboard, which ends the command at once, and frames still in hand
when a failed write loses their connection. -/
inductive Happening
  | reads (bs : Bytes)
  | hangsUp
  | breaks
  | network (n : Network)
  | passes (now : Nat)

namespace Session

def undergo (s : Session) (o : Happening) : Session :=
  if s.result?.isSome then s
  else match o with
    | .reads bs => s.receive bs
    | .hangsUp => s.hangUp
    | .breaks => { s with host := { s.host with client := (s.host.client.turn .broken).client } }
    | .network n => { s with host := { s.host with network := n } }
    | .passes now => s.wake now

def turnsAt (s : Session) (o : Happening) : List (Turn Hook) :=
  if s.result?.isSome then []
  else match o with
    | .reads bs => match s.host.link with
      | some link => heard link.generation (link.parser.feed bs).1
      | none => []
    | .hangsUp => match s.host.link with
      | some link => [.event (.lost link.generation)]
      | none => []
    | .breaks => [.broken]
    | .network _ => []
    | .passes now => match s.host.nextTimer? now with
      | some (t, host) => host.alarmTurns t.alarm
      | none => []

def after (s : Session) (os : List Happening) : Session := os.foldl undergo s

def turns (s : Session) : List Happening → List (Turn Hook)
  | [] => []
  | o :: os => s.turnsAt o ++ (s.undergo o).turns os

theorem after_of_result {s : Session} (h : s.result?.isSome) (os : List Happening) :
    s.after os = s ∧ s.turns os = [] := by
  have hu (o : Happening) : s.undergo o = s := if_pos h
  have ht (o : Happening) : s.turnsAt o = [] := if_pos h
  induction os with
  | nil => exact ⟨rfl, rfl⟩
  | cons o os ih =>
    simp only [after, turns, List.foldl_cons, hu, ht]
    exact ih

/-- The client takes no turn at a happening that the application has a part in. -/
theorem unasked_turnsAt (s : Session) (o : Happening) : ∀ t ∈ s.turnsAt o, t.Unasked := by
  unfold turnsAt
  split
  · exact nofun
  · cases o with
    | reads bs =>
      dsimp only
      split
      · intro t ht
        obtain ⟨f, -, rfl⟩ := List.mem_map.1 ht
        exact id
      · exact nofun
    | hangsUp =>
      dsimp only
      split
      · exact List.forall_mem_singleton.2 id
      · exact nofun
    | breaks => exact List.forall_mem_singleton.2 trivial
    | network n => exact nofun
    | passes now =>
      dsimp only
      split
      · rename_i timer host _
        exact fun t ht ↦ (host.unasked_alarmTurns timer.alarm t ht).1
      · exact nofun

theorem unasked_turns (s : Session) (os : List Happening) : ∀ t ∈ s.turns os, t.Unasked := by
  induction os generalizing s with
  | nil => exact nofun
  | cons o os ih => exact List.forall_mem_append.2 ⟨s.unasked_turnsAt o, ih _⟩

structure Waits (s : Session) (subject payload : String) (reply : Option String)
    (c : Client Hook) (ts : List (Turn Hook)) : Prop where
  request : s.request = .pub subject payload reply
  stage : s.stage = .publishing
  printed : s.printed = ""
  acked : s.acked = false
  recounts : s.host.Recounts c ts

def publishedLine (subject payload : String) : String :=
  "Published [" ++ subject ++ "] : '" ++ payload ++ "'\n"

variable {s : Session} {subject payload : String} {reply : Option String} {c : Client Hook}
  {ts : List (Turn Hook)}

/-- What a happening comes to while the command waits: it waits on, it fails, or an answer makes it
print its line and end. -/
inductive Advances (s : Session) (subject payload : String) (reply : Option String)
    (c : Client Hook) (ts : List (Turn Hook)) (o : Happening) : Prop
  | waits : (s.undergo o).Waits subject payload reply c (ts ++ s.turnsAt o) →
    Advances s subject payload reply c ts o
  | fails (reason : String) : (s.undergo o).result? = some (1, some reason) →
    Advances s subject payload reply c ts o
  | ends (before after : List (Turn Hook)) (t : Turn Hook) (callback : Hook) :
    s.turnsAt o = before ++ t :: after →
    ((c.turns (ts ++ before)).2.turn t).call = some (.acked callback) →
    (s.undergo o).result? = some (0, none) →
    (s.undergo o).printed = publishedLine subject payload →
    (s.undergo o).host.wire = (c.log (ts ++ s.turnsAt o)).map (·.parcel) →
    Advances s subject payload reply c ts o

theorem proceed_eq (hr : s.request = .pub subject payload reply) (hs : s.stage = .publishing) :
    s.proceed = if s.acked then
        (s.print ("Published [" ++ subject ++ "] : '" ++ payload ++ "'")).finish none
      else s := by
  unfold proceed
  rw [hr, hs]
  cases s.acked <;> rfl

/-- The answer makes the command print its line and end. -/
theorem proceed_of_acked (hr : s.request = .pub subject payload reply)
    (hs : s.stage = .publishing) (hp : s.printed = "") (ha : s.acked = true) :
    s.proceed.result? = some (0, none) ∧ s.proceed.printed = publishedLine subject payload ∧
      s.proceed.host.wire = s.host.wire := by
  rw [proceed_eq hr hs, if_pos ha]
  let line := "Published [" ++ subject ++ "] : '" ++ payload ++ "'"
  have hk := (s.print line).tell_keeps .stop
  have hw : ((s.print line).tell .stop).host.wire = s.host.wire := by
    rw [tell_host, Host.handle_wire]
    exact (congrArg (s.host.wire ++ List.map _ ·) (Client.stop_written _)).trans (List.append_nil _)
  refine ⟨rfl, hk.printed.trans ?_, hw⟩
  simp [print, hp, publishedLine, line, String.append_assoc]

theorem Waits.going (hw : s.Waits subject payload reply c ts) : ¬s.result?.isSome := by
  rw [result?, hw.stage]
  exact Bool.false_ne_true

theorem Waits.proceed (hw : s.Waits subject payload reply c ts) : s.proceed = s := by
  rw [proceed_eq hw.request hw.stage, hw.acked]
  rfl

theorem Waits.of_host (hw : s.Waits subject payload reply c ts) {host : Host Hook}
    {ts' : List (Turn Hook)} (hr : host.Recounts c ts') :
    Waits { s with host } subject payload reply c ts' :=
  ⟨hw.request, hw.stage, hw.printed, hw.acked, hr⟩

theorem Waits.call (hw : s.Waits subject payload reply c ts) {due : Option (Call Hook)}
    (hd : ∀ callback, due ≠ some (.acked callback)) :
    (s.call due).Waits subject payload reply c ts := by
  have hk := s.call_keeps due
  refine ⟨hk.request.trans hw.request, hk.stage.trans hw.stage, hk.printed.trans hw.printed, ?_,
    (s.call_host due).symm ▸ hw.recounts⟩
  refine Bool.eq_false_iff.2 fun ha ↦ ?_
  obtain ⟨callback, hc⟩ := acked_of_call hw.acked ha
  exact hd callback hc

theorem Waits.tell (hw : s.Waits subject payload reply c ts) {e : Event Hook}
    (he : (Turn.event e).pong? = none) :
    (s.tell e).Waits subject payload reply c (ts ++ [.event e]) :=
  (hw.of_host (hw.recounts.handle e)).call (Client.call_ne_acked he)

/-- What is read may hold the answer. -/
theorem Waits.reads (hw : s.Waits subject payload reply c ts) {link : Link}
    (hl : s.host.link = some link) (bs : Bytes) :
    s.Advances subject payload reply c ts (.reads bs) := by
  obtain ⟨-, -, hsearched⟩ := hw.recounts.joined.link link hl
  let frames := (link.parser.feed bs).1
  let s₁ : Session := { s with host := s.host.withParser (link.parser.feed bs).2 }
  let s₂ := s₁.hear link.generation frames
  have ht : s.turnsAt (.reads bs) = heard link.generation frames := by
    rw [turnsAt, if_neg hw.going, hl]
  have hu : s.undergo (.reads bs) = s₂.proceed := by
    rw [undergo, if_neg hw.going, receive, hl]
    simp only [s₂, s₁, Host.withParser_of_some hl]
    rfl
  have hw₁ : s₁.Waits subject payload reply c ts :=
    hw.of_host (hw.recounts.withParser (hsearched.extend bs).drained.toSearched)
  have hr₂ : s₂.host.Recounts c (ts ++ s.turnsAt (.reads bs)) := by
    rw [ht]
    exact hear_recounts hw₁.recounts link.generation frames
  have hk : s₁.Keeps s₂ := s₁.hear_keeps link.generation frames
  have hreq := hk.request.trans hw₁.request
  have hst := hk.stage.trans hw₁.stage
  have hpr := hk.printed.trans hw₁.printed
  cases ha : s₂.acked with
  | false =>
    have hw₂ : s₂.Waits subject payload reply c (ts ++ s.turnsAt (.reads bs)) :=
      ⟨hreq, hst, hpr, ha, hr₂⟩
    refine .waits ?_
    rw [hu, hw₂.proceed]
    exact hw₂
  | true =>
    obtain ⟨before, f, after, callback, hf, hc⟩ := acked_of_hear hw₁.recounts hw₁.acked ha
    obtain ⟨hres, hline, hwire⟩ := proceed_of_acked hreq hst hpr ha
    rw [← hu] at hres hline hwire
    refine .ends (heard link.generation before) (heard link.generation after) _ callback ?_ hc
      hres hline (hwire.trans hr₂.wire)
    rw [ht, hf]
    simp [heard]

/-- Time may run out. -/
theorem Waits.passes (hw : s.Waits subject payload reply c ts) (now : Nat) :
    s.Advances subject payload reply c ts (.passes now) := by
  have hu : s.undergo (.passes now) = s.wake now := if_neg hw.going
  cases hn : s.host.nextTimer? now with
  | some p =>
    obtain ⟨timer, host⟩ := p
    have ht : s.turnsAt (.passes now) = host.alarmTurns timer.alarm := by
      rw [turnsAt, if_neg hw.going, hn]
    have hw' := (hw.of_host ((hw.recounts.nextTimer? hn).ring timer.alarm)).call
      (host.ring_call_ne_acked timer.alarm)
    have hp := hw'.proceed
    refine .waits ?_
    rw [hu, ht, wake, hn]
    dsimp only
    rw [hp]
    exact hw'
  | none =>
    have ht : s.turnsAt (.passes now) = [] := by rw [turnsAt, if_neg hw.going, hn]
    by_cases hd : s.deadline ≤ now
    · refine .fails "Timed out waiting for the server" ?_
      rw [hu, wake, hn]
      simp only [hw.stage, if_pos hd]
      rfl
    · refine .waits ?_
      rw [hu, ht, List.append_nil, wake, hn]
      simp only [hw.stage, if_neg hd]
      have hr := hw.recounts
      exact ⟨hw.request, rfl, hw.printed, hw.acked, ⟨hr.joined.linked, hr.joined.link⟩,
        hr.client, hr.wire⟩

theorem Waits.advances (hw : s.Waits subject payload reply c ts) (o : Happening) :
    s.Advances subject payload reply c ts o := by
  have hrest (hu : s.undergo o = s) (ht : s.turnsAt o = []) :
      s.Advances subject payload reply c ts o :=
    .waits (by rw [hu, ht, List.append_nil]; exact hw)
  cases o with
  | reads bs =>
    cases hl : s.host.link with
    | none =>
      refine hrest ?_ ?_
      · rw [undergo, if_neg hw.going, receive, hl]
      · rw [turnsAt, if_neg hw.going, hl]
    | some link => exact hw.reads hl bs
  | hangsUp =>
    cases hl : s.host.link with
    | none =>
      refine hrest ?_ ?_
      · rw [undergo, if_neg hw.going, hangUp, hl]
      · rw [turnsAt, if_neg hw.going, hl]
    | some link =>
      have hw' := hw.tell (e := .lost link.generation) rfl
      refine .waits ?_
      rw [undergo, turnsAt, if_neg hw.going, if_neg hw.going, hangUp, hl]
      dsimp only
      rw [hw'.proceed]
      exact hw'
  | breaks =>
    refine .waits ?_
    rw [undergo, turnsAt, if_neg hw.going, if_neg hw.going]
    exact hw.of_host hw.recounts.broken
  | network n =>
    refine .waits ?_
    rw [undergo, turnsAt, if_neg hw.going, if_neg hw.going, List.append_nil]
    have hr := hw.recounts
    exact hw.of_host ⟨⟨hr.joined.linked, hr.joined.link⟩, hr.client, hr.wire⟩
  | passes now => exact hw.passes now

/-- An answer comes on the connection in use, and not together with the loss of one. -/
theorem pong_mem_turnsAt (hj : s.host.Joined) {o : Happening} {t : Turn Hook}
    (ht : t ∈ s.turnsAt o) {g : Nat} (hp : t.pong? = some g) :
    s.host.client.phase = .connected ∧ s.host.client.generation = g ∧
      ∀ n, .event (.lost n) ∉ s.turnsAt o := by
  obtain rfl := Turn.pong?_eq_some.1 hp
  unfold turnsAt at ht ⊢
  split at ht
  · cases ht
  rename_i hgoing
  rw [if_neg hgoing]
  cases o with
  | reads bs =>
    dsimp only at ht ⊢
    split at ht
    · rename_i link hl
      obtain ⟨hc, hg, -⟩ := hj.link link hl
      obtain ⟨f, -, he⟩ := List.mem_map.1 ht
      obtain ⟨rfl, -⟩ := Event.frame.inj (Turn.event.inj he)
      refine ⟨hc, hg.symm, fun n hn ↦ ?_⟩
      obtain ⟨f, -, he⟩ := List.mem_map.1 hn
      cases he
    · cases ht
  | hangsUp =>
    dsimp only at ht
    split at ht
    · cases List.mem_singleton.1 ht
    · cases ht
  | breaks => cases List.mem_singleton.1 ht
  | network n => cases ht
  | passes now =>
    dsimp only at ht
    split at ht
    · rename_i timer host _
      cases (host.unasked_alarmTurns timer.alarm _ ht).2
    · cases ht

/-- A command that ends well was told so by the second answer on the first connection, or by one
that came after that connection was lost. -/
theorem Waits.answered {xs us : List (Turn Hook)} {callback : Hook}
    (hw : s.Waits subject payload reply c (xs ++ us)) (hg : 1 ≤ (c.turns xs).2.generation)
    (hp : Client.Pends callback us ((c.turns xs).2.turns us).2) {os : List Happening}
    (hres : (s.after os).result? = some (0, none)) :
    (s.after os).printed = publishedLine subject payload ∧
      (s.after os).host.wire = (c.log (xs ++ (us ++ s.turns os))).map (·.parcel) ∧
      (2 ≤ ((us ++ s.turns os).filterMap Turn.pong?).count 1 ↔
        .event (.lost 1) ∉ us ++ s.turns os) := by
  induction os generalizing s us with
  | nil =>
    have hres : s.result? = some (0, none) := hres
    rw [result?, hw.stage] at hres
    cases hres
  | cons o os ih =>
    have hun := s.unasked_turnsAt o
    have hq : .event (.lost 1) ∈ us ++ s.turnsAt o → ∀ t ∈ s.turnsAt o, t.pong? ≠ some 1 := by
      intro hl t ht he
      obtain ⟨hc, hg', hn⟩ := pong_mem_turnsAt hw.recounts.joined ht he
      have hpast := Client.past_of_mem hg ((List.mem_append.1 hl).resolve_right (hn 1))
      rw [← Client.turns_append, ← hw.recounts.client] at hpast
      exact hpast.2 hg' hc
    cases hw.advances o with
    | waits hw' =>
      have hp' := hp.turns hun hq
      rw [List.append_assoc] at hw'
      rw [← Client.turns_append] at hp'
      have ih := ih hw' hp' hres
      rwa [List.append_assoc] at ih
    | fails reason hf =>
      have hstop := (after_of_result (by rw [hf]; rfl) os).1
      have hres : ((s.undergo o).after os).result? = some (0, none) := hres
      rw [hstop, hf] at hres
      cases hres
    | ends before after t other ht hc hend hline hwire =>
      obtain ⟨hafter, hnone⟩ := after_of_result (s := s.undergo o) (by rw [hend]; rfl) os
      have hsame : s.after (o :: os) = s.undergo o := hafter
      have hturns : s.turns (o :: os) = s.turnsAt o := by
        rw [turns, hnone, List.append_nil]
      rw [hsame, hturns]
      refine ⟨hline, by rw [hwire, List.append_assoc], ?_⟩
      rw [ht] at hun hq ⊢
      have hp' := hp.turns (fun u hu ↦ hun u (List.mem_append_left _ hu)) fun hl u hu ↦ by
        refine hq ?_ u (List.mem_append_left _ hu)
        rw [← List.append_assoc]
        exact List.mem_append_left _ hl
      rw [← Client.turns_append, ← Client.turns_append, ← List.append_assoc] at hp'
      exact hp'.acked_iff hc hq

theorem Waits.submit (hw : s.Waits subject payload reply c ts) :
    s.submit.Waits subject payload reply c
      (ts ++ [.event (.publish subject reply (Bytes.ofString payload)),
        .event (.flush .acked)]) := by
  have hw' := (hw.tell (e := .publish subject reply (Bytes.ofString payload)) rfl).tell
    (e := .flush .acked) rfl
  rw [List.append_assoc] at hw'
  simp only [Session.submit, hw.request]
  exact ⟨hw'.request, rfl, hw'.printed, hw'.acked, hw'.recounts⟩

def opening (subject payload : String) (reply : Option String) (server : String) :
    List (Turn Hook) :=
  match ServerUri.parse? server with
  | .ok uri => [.event (.setErrorHandler .failed), .event (.begin uri), .event (.connected uri),
      .event (.publish subject reply (Bytes.ofString payload)), .event (.flush .acked)]
  | .error _ => []

/-- A command to publish waits once it is connected, and fails if it does not get there. -/
theorem start_pub (options : ClientOptions) (network : Network) (subject payload : String)
    (reply : Option String) (server : String) :
    let s := start (.new options network) (.pub subject payload reply) server
    (∃ reason, s.result? = some (1, some reason)) ∨ (∃ uri, ServerUri.parse? server = .ok uri) ∧
      s.Waits subject payload reply { options } (opening subject payload reply server) := by
  let s₀ : Session :=
    { request := .pub subject payload reply, host := .new options network, stage := .publishing }
  have hw₀ : s₀.Waits subject payload reply { options } [] :=
    ⟨rfl, rfl, rfl, rfl, .new options network⟩
  unfold start opening
  cases ServerUri.parse? server with
  | error e => exact .inl ⟨_, rfl⟩
  | ok uri =>
    let s₂ := (s₀.tell (.setErrorHandler .failed)).tell (.begin uri)
    have hw₂ := (hw₀.tell (e := .setErrorHandler .failed) rfl).tell (e := .begin uri) rfl
    dsimp only
    split
    · have hw₃ := (hw₂.of_host (hw₂.recounts.connect uri)).call
        (s₂.host.connect_call_ne_acked uri)
      exact .inr ⟨⟨uri, rfl⟩, hw₃.submit⟩
    · exact .inl ⟨_, rfl⟩

/-- At the end of its opening the command has published its message, if that has a subject, and has
asked for an acknowledgement. -/
theorem opening_posted (options : ClientOptions) (subject payload : String)
    (reply : Option String) {server : String} {uri : ServerUri}
    (hu : ServerUri.parse? server = .ok uri) :
    Client.Posted options (opening subject payload reply server)
      (Command.pub? subject reply (Bytes.ofString payload)) .acked := by
  rw [opening, hu]
  have hsilent : ∀ t ∈ [Turn.event (.setErrorHandler Hook.failed), .event (.begin uri),
      .event (.connected uri), .event (.publish subject reply (Bytes.ofString payload)),
      .event (.flush .acked)], t.pong? = none := by simp [Turn.pong?]
  by_cases hs : subject = ""
  · subst hs
    exact ⟨rfl, rfl, rfl, rfl, ⟨_, rfl⟩, hsilent, by simp⟩
  · let ts : List (Turn Hook) :=
      [.event (.setErrorHandler .failed), .event (.begin uri), .event (.connected uri)]
    let rest : List (Turn Hook) :=
      [.event (.publish subject reply (Bytes.ofString payload)), .event (.flush .acked)]
    let command := Command.pub subject (reply.filter (· ≠ "")) (Bytes.ofString payload)
    let b := (Client.turns ({ options } : Client Hook) ts).2
    have hpub : b.turn (.event (.publish subject reply (Bytes.ofString payload))) =
        b.send command := if_neg hs
    have hend : (Client.turns ({ options } : Client Hook) (ts ++ rest)).2 =
        ((b.send command).client.flush .acked).client :=
      congrArg (fun r ↦ (r.client.flush .acked).client) hpub
    have hlog : Client.log ({ options } : Client Hook) (ts ++ rest) = Client.log { options } ts ++
        [b.send command, (b.send command).client.flush .acked].flatMap Reaction.written := by
      rw [Client.log_append, ← hpub]
      rfl
    rw [Command.pub?, if_neg hs]
    exact ⟨hend ▸ rfl, hend ▸ rfl, hend ▸ rfl, hend ▸ rfl, ⟨_, hlog⟩, hsilent, by simp⟩

/-- A command to publish that ends well has printed its line. Its message went to the first
connection, unless it had no subject, and is confirmed if and only if it had one and that connection
was not lost. -/
theorem published_confirmed_iff (options : ClientOptions) (network : Network)
    (subject payload : String) (reply : Option String) (server : String) (os : List Happening) :
    let s := start (.new options network) (.pub subject payload reply) server
    let ts := opening subject payload reply server ++ s.turns os
    let command := Command.pub subject (reply.filter (· ≠ "")) (Bytes.ofString payload)
    (s.after os).result? = some (0, none) →
      (s.after os).printed = "Published [" ++ subject ++ "] : '" ++ payload ++ "'\n" ∧
      (s.after os).host.wire = (Client.log { options } ts).map (·.parcel) ∧
      (∀ g, .command command ∈ Sent.received (Client.log { options } ts) g ↔
        subject ≠ "" ∧ g = 1) ∧
      (Confirmed options ts command ↔ subject ≠ "" ∧ .event (.lost 1) ∉ ts) := by
  intro s ts command hres
  rcases start_pub options network subject payload reply server with
    ⟨reason, hf⟩ | ⟨⟨uri, hu⟩, hw⟩
  · have hstop : s.after os = s := (after_of_result (by rw [hf]; rfl) os).1
    cases (hf.symm.trans (hstop ▸ hres) :)
  have hp := opening_posted options subject payload reply hu
  rw [← List.append_nil (opening subject payload reply server)] at hw
  obtain ⟨hline, hwire, hcount⟩ := hw.answered (Nat.le_of_eq hp.generation.symm) hp.pends hres
  have hun := s.unasked_turns os
  have hpub : Command.pub? subject reply (Bytes.ofString payload) = some command ↔
      subject ≠ "" := by
    unfold Command.pub?
    split <;> simp_all [command]
  have hlost : .event (.lost 1) ∈ ts ↔ .event (.lost 1) ∈ s.turns os :=
    List.mem_append.trans (or_iff_right hp.kept)
  refine ⟨hline, hwire, fun g ↦ ?_, ?_⟩
  · rw [hp.mem_received_iff hun rfl, hpub]
  · rw [hp.confirmed_iff hun rfl, hpub, hlost]
    exact and_congr_right fun _ ↦ hcount

def answered : List Happening := [.reads (Bytes.ofString "PONG\r\nPONG\r\n")]

theorem localhost_parsed : ServerUri.parse? "nats://localhost" = .ok .localhost := by cbv

theorem published_confirmed_iff_news :
    let s := start (.new {} {}) (.pub "news" "hello" none) "nats://localhost"
    let ts := opening "news" "hello" none "nats://localhost" ++ s.turns answered
    (s.after answered).result? = some (0, none) ∧
      (s.after answered).printed = "Published [news] : 'hello'\n" ∧
      Confirmed {} ts (.pub "news" none (Bytes.ofString "hello")) := by
  have hres : ((start (.new {} {}) (.pub "news" "hello" none) "nats://localhost").after
      answered).result? = some (0, none) := by cbv
  have hturns : (start (.new {} {}) (.pub "news" "hello" none) "nats://localhost").turns answered =
      [.event (.frame 1 .pong), .event (.frame 1 .pong)] := by cbv
  obtain ⟨hline, -, -, hconf⟩ := published_confirmed_iff {} {} "news" "hello" none
    "nats://localhost" answered hres
  refine ⟨hres, hline, hconf.2 ⟨by decide, fun hl ↦ ?_⟩⟩
  rw [hturns] at hl
  rcases List.mem_append.1 hl with hl | hl
  · exact (opening_posted {} "news" "hello" none localhost_parsed).kept hl
  · simp at hl

/-- A server to which nothing gets through any more, and which then ends its stream. It is there
again later and answers all requests. -/
def interrupted : List Happening :=
  [.breaks, .hangsUp, .passes 2000, .reads (Bytes.ofString "PONG\r\nPONG\r\nPONG\r\n")]

/-- A command to publish may end well although its connection was lost. -/
example : ((start (.new {} {}) (.pub "news" "hello" none) "nats://localhost").after
    interrupted).result? = some (0, none) := by cbv

/-- Of a message without a subject it is printed that it was published, which it never is. -/
theorem published_without_subject :
    let s := start (.new {} {}) (.pub "" "hello" none) "nats://localhost"
    let ts := opening "" "hello" none "nats://localhost" ++ s.turns answered
    History.Along History.Owes (.new {}) ts ∧ (s.after answered).result? = some (0, none) ∧
      (s.after answered).printed = "Published [] : 'hello'\n" ∧
      ¬Confirmed {} ts (.pub "" none (Bytes.ofString "hello")) := by
  refine ⟨of_decide_eq_true (by cbv), by cbv, by cbv, fun hc ↦ ?_⟩
  have hp := opening_posted {} "" "hello" none localhost_parsed
  cases ((hp.confirmed_iff (unasked_turns _ answered) rfl).1 hc).1

end Session

end Herald.Cli
