import Herald.Proofs.Cli.Reports

namespace Herald

def Message.listed (m : Message) : String :=
  "[" ++ m.subject ++ "] " ++ ((m.reply.map fun r ↦ "(reply: " ++ r ++ ") ").getD "") ++ m.text ++
    "\n"

def Message.listing (ms : List Message) : String := ms.foldl (fun text m ↦ text ++ m.listed) ""

theorem Message.listing_concat (ms : List Message) (m : Message) :
    listing (ms ++ [m]) = listing ms ++ m.listed := by simp [listing]

/-- What a command that stands there has printed of what was reported: all messages once it
listens, as many as were asked for if it has ended well, and otherwise those before the reason for
which it has ended, or none if it never got to listen. A command for messages stands nowhere
else. -/
def Cli.Stage.Tells (count : Option Nat) (server : String) (told : List Cli.News)
    (ms : List Message) : Cli.Stage → Prop
  | .subscribing => ms = []
  | .listening k => k = ms.length ∧ ms = told.filterMap Cli.News.message?
  | .finished none => ms ≠ [] ∧ count = some ms.length
  | .finished (some reason) => (∃ later, told = ms.map .message ++ .failed reason :: later) ∨
      ms = [] ∧ (reason = "Timed out waiting for the server" ∨
        reason = "Failed to connect to " ++ server)
  | .publishing | .awaiting => False

namespace Cli.Session

open Message (listing within)

variable {s : Session} {subject : String} {queue : Option String} {count : Option Nat}
  {server : String} {c : Client Hook} {ts : List (Turn Hook)} {ms : List Message} {ns : List News}

theorem printMessage_printed (s : Session) (m : Message) :
    (s.printMessage m).printed = s.printed ++ m.listed := by
  simp [printMessage, print, Message.listed, String.append_assoc]

theorem finish_printed (s : Session) (failure : Option String) :
    (s.finish failure).printed = s.printed := (s.tell_keeps .stop).printed

def Wants (count : Option Nat) (ms : List Message) : Prop := ∀ n ∈ count, ms = [] ∨ ms.length < n

inductive Ends (s : Session) (count : Option Nat) (told : List News) (ms : List Message) : Prop
  | enough (n : Nat) (later : List News) : s.stage = .finished none → s.printed = listing ms →
    told = ms.map .message ++ later → count = some n → ms.length = max n 1 → Ends s count told ms
  | failed (reason : String) (later : List News) : s.stage = .finished (some reason) →
    s.printed = listing ms → told = ms.map .message ++ .failed reason :: later → Wants count ms →
    Ends s count told ms
  | unanswered : s.stage = .finished (some "Timed out waiting for the server") →
    s.printed = listing ms → ms = [] → Ends s count told ms

theorem Ends.result {told : List News} (h : s.Ends count told ms) : s.result?.isSome := by
  rcases h with ⟨_, _, hs, _⟩ | ⟨_, _, hs, _⟩ | ⟨hs, _⟩ <;> rw [result?, hs] <;> rfl

inductive Takes (s : Session) (count : Option Nat) (ms : List Message) (ns : List News)
    (s' : Session) : Prop
  | all (more : List Message) : ns = more.map .message → s'.request = s.request →
    s'.host = s.host → s'.stage = .listening (ms ++ more).length →
    s'.printed = listing (ms ++ more) → s'.news = [] → Wants count (ms ++ more) →
    Takes s count ms ns s'
  | ends (more : List Message) : s'.Ends count (ms.map .message ++ ns) (ms ++ more) →
    Takes s count ms ns s'

theorem Takes.of_concat {s₁ s' : Session} {m : Message} (h : Takes s₁ count (ms ++ [m]) ns s')
    (hr : s₁.request = s.request) (hh : s₁.host = s.host) :
    Takes s count ms (.message m :: ns) s' := by
  cases h with
  | all more hn hr' hh' hs hp hnews hw =>
    rw [List.append_assoc] at hs hp hw
    exact .all (m :: more) (congrArg (News.message m :: ·) hn) (hr'.trans hr) (hh'.trans hh) hs hp
      hnews hw
  | ends more he =>
    refine .ends (m :: more) ?_
    simpa using he

/-- News are taken up in order, until there are enough or the connection is lost. -/
theorem takes_takeNews (hr : s.request = .sub subject queue count)
    (hs : s.stage = .listening ms.length) (hp : s.printed = listing ms) (hw : Wants count ms)
    (ht : News.timedOut ∉ ns) : Takes s count ms ns (s.takeNews ns) := by
  induction ns generalizing s ms with
  | nil =>
    rw [← List.append_nil ms] at hs hp hw
    exact .all [] rfl rfl rfl hs hp rfl hw
  | cons n ns ih =>
    obtain ⟨hn, hns⟩ := List.ne_and_not_mem_of_not_mem_cons ht
    cases n with
    | message m =>
      have hpm : (s.printMessage m).printed = listing (ms ++ [m]) := by
        rw [printMessage_printed, hp, Message.listing_concat]
      have hlen : (ms ++ [m]).length = ms.length + 1 := List.length_append
      unfold takeNews
      simp only [hs, hr]
      split
      · rename_i hc
        obtain ⟨n, rfl, hle⟩ := (Option.any_eq_true _ _).1 hc
        have hle : n ≤ ms.length + 1 := of_decide_eq_true hle
        refine .ends [m] (.enough n ns rfl ?_ (by simp) rfl ?_)
        · rw [finish_printed, hpm]
        · -- Not even a count of zero is noticed before there is a message.
          rw [hlen]
          rcases hw n rfl with hnil | hlt
          · have hzero : ms.length = 0 := congrArg List.length hnil
            omega
          · omega
      · rename_i hc
        have hmore : Wants count (ms ++ [m]) := by
          intro n hn
          have hlt : ¬n ≤ ms.length + 1 := fun hle ↦
            hc ((Option.any_eq_true _ _).2 ⟨n, hn, decide_eq_true hle⟩)
          refine .inr ?_
          omega
        let s₁ : Session := { s.printMessage m with stage := .listening (ms.length + 1) }
        have hs₁ : s₁.stage = .listening (ms ++ [m]).length := congrArg Stage.listening hlen.symm
        have hrest : Takes s₁ count (ms ++ [m]) ns (s₁.takeNews ns) := ih hr hs₁ hpm hmore hns
        exact hrest.of_concat rfl rfl
    | failed reason =>
      unfold takeNews
      simp only [hs]
      refine .ends [] (.failed reason ns rfl ?_ (by simp) (by simpa using hw))
      rw [finish_printed, hp, List.append_nil]
    | timedOut => exact (hn rfl).elim

structure Attends (s : Session) (subject : String) (queue : Option String) (count : Option Nat)
    (c : Client Hook) (ts : List (Turn Hook)) (ms : List Message) : Prop where
  request : s.request = .sub subject queue count
  printed : s.printed = listing ms
  wants : Wants count ms
  stage : s.stage = .subscribing ∧ ms = [] ∨ s.stage = .listening ms.length
  hears : s.Hears c ts (ms.map .message)

inductive Follows (s : Session) (subject : String) (queue : Option String) (count : Option Nat)
    (c : Client Hook) (ts : List (Turn Hook)) : Prop
  | waits (ms : List Message) : s.Attends subject queue count c ts ms →
    (∀ k, s.stage = .listening k → s.news = []) → Follows s subject queue count c ts
  | ends (ms : List Message) : s.Ends count (c.reports ts) ms → Follows s subject queue count c ts

theorem Attends.going (h : s.Attends subject queue count c ts ms) : ¬s.result?.isSome := by
  rcases h.stage with ⟨hs, -⟩ | hs <;> rw [result?, hs] <;> exact Bool.false_ne_true

theorem Attends.of_keeps (h : s.Attends subject queue count c ts ms) {s' : Session}
    {ts' : List (Turn Hook)} (hk : s.Keeps s') (hh : s'.Hears c ts' (ms.map .message)) :
    s'.Attends subject queue count c ts' ms where
  request := hk.request.trans h.request
  printed := hk.printed.trans h.printed
  wants := h.wants
  stage := by
    rw [hk.stage]
    exact h.stage
  hears := hh

theorem Attends.takeNews (h : s.Attends subject queue count c ts ms)
    (hs : s.stage = .listening ms.length) (ht : News.timedOut ∉ c.reports ts) :
    (s.takeNews s.news).Follows subject queue count c ts := by
  have hreports := h.hears.reports
  have hn : News.timedOut ∉ s.news := fun hn ↦ ht (hreports ▸ List.mem_append_right _ hn)
  cases takes_takeNews h.request hs h.printed h.wants hn with
  | all more hm hr hh hstage hp hnews hw =>
    refine .waits (ms ++ more) ⟨hr.trans h.request, hp, hw, .inr hstage, ?_, ?_⟩ fun _ _ ↦ hnews
    · rw [hh]
      exact h.hears.recounts
    · rw [hreports, hnews, hm, List.map_append, List.append_nil]
  | ends more he =>
    rw [← hreports] at he
    exact .ends (ms ++ more) he

theorem proceed_of_subscribing (hs : s.stage = .subscribing) : s.proceed =
    if s.acked then { s with stage := .listening 0 }.takeNews s.news else s := by
  unfold Session.proceed
  rw [hs]
  cases s.acked <;> rfl

/-- The command goes on once the server has dealt with the subscription, and takes up all news that
have come in. -/
theorem Attends.proceed (h : s.Attends subject queue count c ts ms)
    (ht : News.timedOut ∉ c.reports ts) : s.proceed.Follows subject queue count c ts := by
  rcases h.stage with ⟨hs, hms⟩ | hs
  · subst hms
    rw [proceed_of_subscribing hs]
    split
    · let s₁ : Session := { s with stage := .listening 0 }
      have h₁ : s₁.Attends subject queue count c ts [] :=
        ⟨h.request, h.printed, h.wants, .inr rfl, h.hears.recounts, h.hears.reports⟩
      exact h₁.takeNews rfl ht
    · refine .waits [] h fun k hk ↦ ?_
      rw [hs] at hk
      cases hk
  · have hp : s.proceed = s.takeNews s.news := by
      unfold Session.proceed
      simp only [hs]
    rw [hp]
    exact h.takeNews hs ht

/-- What a happening comes to for a command that waits. -/
theorem Attends.undergo (h : s.Attends subject queue count c ts ms)
    (hn : ∀ k, s.stage = .listening k → s.news = []) (o : Happening)
    (ht : News.timedOut ∉ c.reports (ts ++ s.turnsAt o)) :
    (s.undergo o).Follows subject queue count c (ts ++ s.turnsAt o) := by
  obtain ⟨s', hk, hh, hu⟩ := h.hears.next h.going o
  have h' := h.of_keeps hk hh
  cases hu with
  | proceeds hu =>
    rw [hu]
    exact h'.proceed ht
  | rests hu hsame =>
    rw [hu]
    refine .waits ms h' fun k hs ↦ ?_
    rw [hsame]
    exact hn k (hk.stage.symm.trans hs)
  | expires hu hstage =>
    rw [hu]
    rcases h.stage with ⟨-, hms⟩ | hs
    · exact .ends ms (.unanswered rfl h'.printed hms)
    · rw [hs] at hstage
      rcases hstage with hstage | hstage <;> cases hstage

/-- Whatever happens, the client serves the subscription of a command that waits, and the command
follows what the client reports. -/
theorem Attends.after {sub : Subscription Hook} {quota : Option Nat}
    (h : s.Attends subject queue count c ts ms) (hn : ∀ k, s.stage = .listening k → s.news = [])
    (hs : c.Served sub quota ts) (os : List Happening) :
    c.Served sub quota (ts ++ s.turns os) ∧
      (s.after os).Follows subject queue count c (ts ++ s.turns os) := by
  induction os generalizing s ts ms with
  | nil =>
    rw [turns, List.append_nil]
    exact ⟨hs, .waits ms h hn⟩
  | cons o os ih =>
    have hs' := hs.append (s.unasked_turnsAt o) (h.hears.timelyAlong hs.tends.heeded o)
    have hf := h.undergo hn o (Client.timedOut_not_mem hs'.timeouts)
    rw [turns, ← List.append_assoc]
    cases hf with
    | waits ms' h' hn' => exact ih h' hn' hs'
    | ends ms' he =>
      obtain ⟨hafter, hnone⟩ := after_of_result he.result os
      have hsame : s.after (o :: os) = s.undergo o := hafter
      rw [hsame, hnone, List.append_nil]
      exact ⟨hs', .ends ms' he⟩

def entry (network : Network) (subject : String) (queue : Option String) (count : Option Nat)
    (server : String) : List (Turn Hook) :=
  match ServerUri.parse? server with
  | .ok uri =>
    if network.routed && network.up then
      [.event (.setErrorHandler .failed), .event (.begin uri), .event (.connected uri),
        .event (.subscribe subject queue count .delivered), .event (.flush .acked)]
    else [.event (.setErrorHandler .failed), .event (.begin uri), .event (.connectFailed uri)]
  | .error _ => []

def subscribed (subject : String) (queue : Option String) : Subscription Hook :=
  { sid := 1, subject, queue := queue.filter (· ≠ ""), callback := .delivered }

/-- Without a subject there is no subscription, as if none of its messages were asked for. -/
def quota (subject : String) (count : Option Nat) : Option Nat :=
  if subject = "" then some 0 else count

theorem entry_brings (network : Network) (subject : String) (queue : Option String)
    (count : Option Nat) (server : String) (sid : Nat) :
    (entry network subject queue count server).filterMap (Turn.brings? sid) = [] := by
  unfold entry
  split
  · split <;> rfl
  · rfl

theorem served_entry (options : ClientOptions) (network : Network) (subject : String)
    (queue : Option String) (count : Option Nat) {server : String} {uri : ServerUri}
    (hu : ServerUri.parse? server = .ok uri) (hn : network.routed && network.up) :
    Client.Served { options } (subscribed subject queue) (quota subject count)
      (entry network subject queue count server) := by
  let ts₀ : List (Turn Hook) :=
    [.event (.setErrorHandler .failed), .event (.begin uri), .event (.connected uri)]
  let subscribe : Turn Hook := .event (.subscribe subject queue count .delivered)
  have hentry : entry network subject queue count server =
      ts₀ ++ [subscribe] ++ [.event (.flush .acked)] := by
    simp only [entry, hu, if_pos hn]
    rfl
  obtain ⟨hcall, honError, hsubs⟩ := Client.subscribe_left (c := (Client.turns { options } ts₀).2)
    rfl subject queue count .delivered
  have hcalls : Client.calls { options } (ts₀ ++ [subscribe] ++ [.event (.flush .acked)]) = [] := by
    rw [Client.calls_snoc, Client.calls_snoc]
    have hfirst : Client.calls { options } ts₀ = [] := rfl
    have hsecond : ((Client.turns { options } ts₀).2.turn subscribe).call = none := hcall
    rw [hfirst, hsecond]
    rfl
  rw [hentry]
  refine ⟨⟨⟨.failed, ?_⟩, ?_⟩, ?_, ?_⟩
  · rw [Client.turns_snoc, Client.turns_snoc]
    exact honError
  · rw [Client.turns_snoc, Client.turns_snoc, Client.delivered, hcalls]
    exact hsubs
  · rw [Client.delivered, hcalls]
    exact (Message.within_nil _).symm
  · rw [hcalls]
    exact List.forall_mem_nil _

theorem Hears.submit (h : s.Hears c ts []) (hr : s.request = .sub subject queue count)
    (hp : s.printed = "") :
    s.submit.stage = .subscribing ∧ s.submit.Attends subject queue count c
      (ts ++ [.event (.subscribe subject queue count .delivered), .event (.flush .acked)]) [] := by
  let s₁ := (s.tell (.subscribe subject queue count .delivered)).tell (.flush .acked)
  have hk : s.Keeps s₁ := (s.tell_keeps _).trans (tell_keeps _ _)
  have h₁ := (h.tell (.subscribe subject queue count .delivered)).tell (.flush .acked)
  rw [List.append_assoc] at h₁
  simp only [Session.submit, hr]
  exact ⟨rfl, hk.request.trans hr, hk.printed.trans hp, fun _ _ ↦ .inl rfl, .inl ⟨rfl, rfl⟩,
    h₁.recounts, h₁.reports⟩

/-- A command for messages waits once it is connected, and fails if it does not get there. -/
theorem start_sub (options : ClientOptions) (network : Network) (subject : String)
    (queue : Option String) (count : Option Nat) (server : String) :
    let s := start (.new options network) (.sub subject queue count) server
    (s.stage = .finished (some ("Failed to connect to " ++ server)) ∧ s.printed = "" ∧
        Client.delivered { options } (entry network subject queue count server) = []) ∨
      (∃ uri, ServerUri.parse? server = .ok uri) ∧ (network.routed && network.up) ∧
        s.stage = .subscribing ∧
        s.Attends subject queue count { options } (entry network subject queue count server)
          [] := by
  let s₀ : Session :=
    { request := .sub subject queue count, host := .new options network, stage := .publishing }
  have h₀ : s₀.Hears { options } [] [] := ⟨.new options network, rfl⟩
  unfold start entry
  cases ServerUri.parse? server with
  | error e => exact .inl ⟨rfl, rfl, rfl⟩
  | ok uri =>
    let ts₂ : List (Turn Hook) := [.event (.setErrorHandler .failed), .event (.begin uri)]
    let s₂ := (s₀.tell (.setErrorHandler .failed)).tell (.begin uri)
    have h₂ : s₂.Hears { options } ts₂ [] := (h₀.tell _).tell _
    have hnetwork : s₂.host.network = network := rfl
    dsimp only
    rw [hnetwork]
    split
    · rename_i hn
      let s₃ := Session.call { s₂ with host := (s₂.host.connect uri).2 } (s₂.host.connect uri).1
      have hc : Client.calls { options } (ts₂ ++ [.event (.connected uri)]) =
          Client.calls { options } ts₂ ++ (s₂.host.connect uri).1.toList := by
        rw [Client.calls_snoc, (Host.connect_spec _ uri).1, h₂.recounts.client]
        rfl
      have h₃ : s₃.Hears { options } (ts₂ ++ [.event (.connected uri)]) [] :=
        h₂.call (h₂.recounts.connect uri) hc
      have hk : s₂.Keeps s₃ := s₂.call_keeps_of_host _ _
      exact .inr ⟨⟨uri, rfl⟩, hn, h₃.submit hk.request hk.printed⟩
    · exact .inl ⟨rfl, rfl, rfl⟩

/-- A command has printed these messages. They are the first ones delivered and not more than were
asked for, and as long as it waits they are fewer, if any were asked for. -/
structure Honours (s : Session) (count : Option Nat) (server : String) (c : Client Hook)
    (ts : List (Turn Hook)) (ms : List Message) : Prop where
  printed : s.printed = listing ms
  first : ms <+: c.delivered ts
  most : ∀ n ∈ count, ms.length ≤ n
  stage : s.stage.Tells count server (c.reports ts) ms
  waiting : s.result? = none → ∀ n ∈ count, (ms.length < n ↔ n ≠ 0)

theorem delivered_of_reports (h : c.reports ts = ms.map .message ++ ns) :
    c.delivered ts = ms ++ ns.filterMap News.message? := by
  rw [← Client.filterMap_reports, h, List.filterMap_append, List.filterMap_map]
  congr 1
  exact List.filterMap_some

theorem Attends.honours (h : s.Attends subject queue count c ts ms)
    (hn : ∀ k, s.stage = .listening k → s.news = [])
    (hd : ∀ n ∈ count, (c.delivered ts).length ≤ n) : s.Honours count server c ts ms := by
  have hdelivered := delivered_of_reports h.hears.reports
  have hf : ms <+: c.delivered ts := hdelivered ▸ List.prefix_append _ _
  refine ⟨h.printed, hf, fun n hc ↦ hf.length_le.trans (hd n hc), ?_, fun _ n hc ↦ ⟨?_, ?_⟩⟩
  · rcases h.stage with ⟨hs, hms⟩ | hs
    · rw [hs]
      exact hms
    · rw [hs]
      refine ⟨rfl, ?_⟩
      rw [Client.filterMap_reports, hdelivered, hn _ hs]
      exact (List.append_nil _).symm
  · omega
  · intro hn
    rcases h.wants n hc with hms | hlt
    · subst hms
      exact Nat.pos_of_ne_zero hn
    · exact hlt

theorem Ends.honours (h : s.Ends count (c.reports ts) ms)
    (hd : ∀ n ∈ count, (c.delivered ts).length ≤ n) : s.Honours count server c ts ms := by
  have hwaiting (hr : s.result? = none) : ∀ n ∈ count, (ms.length < n ↔ n ≠ 0) := by
    rw [← Option.not_isSome_iff_eq_none] at hr
    exact (hr h.result).elim
  have hmost (hf : ms <+: c.delivered ts) : ∀ n ∈ count, ms.length ≤ n :=
    fun n hn ↦ hf.length_le.trans (hd n hn)
  cases h with
  | enough n later hs hp ht hc hn =>
    have hf : ms <+: c.delivered ts := delivered_of_reports ht ▸ List.prefix_append _ _
    have hle := hmost hf n hc
    refine ⟨hp, hf, hmost hf, ?_, hwaiting⟩
    rw [hs]
    refine ⟨List.ne_nil_of_length_pos (by omega), ?_⟩
    rw [hc]
    congr 1
    omega
  | failed reason later hs hp ht hw =>
    have hf : ms <+: c.delivered ts := delivered_of_reports ht ▸ List.prefix_append _ _
    refine ⟨hp, hf, hmost hf, ?_, hwaiting⟩
    rw [hs]
    exact .inl ⟨later, ht⟩
  | unanswered hs hp hms =>
    subst hms
    refine ⟨hp, List.nil_prefix, hmost List.nil_prefix, ?_, hwaiting⟩
    rw [hs]
    exact .inr ⟨rfl, .inl rfl⟩

/-- A command for messages prints the first ones that come for its subscription, in order and not
more than were asked for, and as long as it waits it has printed fewer if and only if any were
asked for. -/
theorem count_honoured_iff (options : ClientOptions) (network : Network) (subject : String)
    (queue : Option String) (count : Option Nat) (server : String) (os : List Happening) :
    let s := start (.new options network) (.sub subject queue count) server
    let ts := entry network subject queue count server ++ s.turns os
    Client.delivered { options } ts =
        within (quota subject count) (ts.filterMap (Turn.brings? 1)) ∧
      ∃ ms, (s.after os).Honours count server { options } ts ms := by
  intro s ts
  have hquota (h : Client.delivered { options } ts =
      within (quota subject count) (ts.filterMap (Turn.brings? 1))) :
      ∀ n ∈ count, (Client.delivered { options } ts).length ≤ n := by
    rintro n rfl
    rw [h, quota]
    split
    · exact Nat.zero_le n
    · exact List.length_take_le n _
  rcases start_sub options network subject queue count server with
    ⟨hs, hp, hd⟩ | ⟨⟨uri, hu⟩, hn, hs, ha⟩
  · obtain ⟨hafter, hnone⟩ := after_of_result (s := s) (by rw [result?, hs]; rfl) os
    have hts : ts = entry network subject queue count server := by
      rw [← List.append_nil (entry network subject queue count server), ← hnone]
    have hmessages : Client.delivered { options } ts =
        within (quota subject count) (ts.filterMap (Turn.brings? 1)) := by
      rw [hts, hd, entry_brings, Message.within_nil]
    rw [hafter]
    refine ⟨hmessages, [], hp, List.nil_prefix, fun n _ ↦ Nat.zero_le n, ?_, fun hr ↦ ?_⟩
    · rw [hs]
      exact .inr ⟨rfl, .inr rfl⟩
    · rw [result?, hs] at hr
      cases hr
  · obtain ⟨hserved, hf⟩ := ha.after (fun k hk ↦ by cases hs.symm.trans hk)
      (served_entry options network subject queue count hu hn) os
    refine ⟨hserved.messages, ?_⟩
    cases hf with
    | waits ms h hn => exact ⟨ms, h.honours hn (hquota hserved.messages)⟩
    | ends ms h => exact ⟨ms, h.honours (hquota hserved.messages)⟩

/-- A command for no messages at all waits for one like any other. -/
theorem waits_for_none :
    let s := start (.new {} {}) (.sub "news" none (some 0)) "nats://localhost"
    (s.after answered).result? = none ∧
      ∃ ms, (s.after answered).printed = listing ms ∧
        (s.after answered).stage = .listening ms.length ∧ ¬ms.length < 0 :=
  ⟨by cbv, [], by cbv, by cbv, Nat.not_lt_zero 0⟩

end Cli.Session

end Herald
