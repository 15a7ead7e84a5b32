import Herald.Proofs.Client.Calls
import Herald.Proofs.Host.Connection
import Herald.Scenario.Step

namespace Herald

variable {κ σ τ : Type}

/-- What an application does at one moment. It may look at its client and at the clock, ask for an
inbox and call its client, one after another and each as it sees fit after those before, and in the
end it has something in mind. -/
inductive Conduct (κ σ : Type)
  | rest (mind : σ)
  | look (next : Client κ → Nat → Conduct κ σ)
  | inbox (next : String → Conduct κ σ)
  | call (e : Event κ) (spoken : e.Spoken) (next : Answer → Conduct κ σ)

namespace Conduct

def bind : Conduct κ σ → (σ → Conduct κ τ) → Conduct κ τ
  | rest mind, f => f mind
  | look next, f => look fun c now ↦ (next c now).bind f
  | inbox next, f => inbox fun name ↦ (next name).bind f
  | call e spoken next, f => call e spoken fun answer ↦ (next answer).bind f

/-- A call to the client makes no callback due at once (`Event.Spoken.call_eq_none`). -/
def run (h : Host κ) : Conduct κ σ → σ × Host κ
  | rest mind => (mind, h)
  | look next => (next h.client h.now).run h
  | inbox next => (next h.newInbox.1).run h.newInbox.2
  | call e _ next => (next (h.handle e).1).run (h.handle e).2.2

theorem run_joined {h : Host κ} (hj : h.Joined) (d : Conduct κ σ) : (d.run h).2.Joined := by
  induction d generalizing h with
  | rest mind => exact hj
  | look next ih => exact ih h.client h.now hj
  | inbox next ih => exact ih h.newInbox.1 ⟨hj.linked, hj.link⟩
  | call e spoken next ih => exact ih (h.handle e).1 (hj.handle e)

theorem run_bind (h : Host κ) (d : Conduct κ σ) (f : σ → Conduct κ τ) :
    (d.bind f).run h = (f (d.run h).1).run (d.run h).2 := by
  induction d generalizing h with
  | rest mind => rfl
  | look next ih => exact ih h.client h.now h
  | inbox next ih => exact ih h.newInbox.1 h.newInbox.2
  | call e spoken next ih => exact ih (h.handle e).1 (h.handle e).2.2

end Conduct

/-- A host with an application: the callbacks that came due so far, in order, and what the
application has in mind. -/
structure Hosted (κ σ : Type) where
  host : Host κ
  calls : List (Call κ) := []
  mind : σ

inductive Doing (κ σ : Type)
  | occurs (o : Occurrence κ)
  | reads (bs : Bytes)
  | acts (conduct : σ → Conduct κ σ)

namespace Hosted

def new (options : ClientOptions) (network : Network) (mind : σ) : Hosted κ σ :=
  { host := .new options network, mind }

def act (s : Hosted κ σ) (conduct : σ → Conduct κ σ) : Hosted κ σ :=
  let (mind, host) := (conduct s.mind).run s.host
  { s with host, mind }

variable (app : σ → Call κ → Conduct κ σ)

def call (s : Hosted κ σ) : Option (Call κ) → Hosted κ σ
  | none => s
  | some call => { s with calls := s.calls ++ [call] }.act (app · call)

def handle (s : Hosted κ σ) (e : Event κ) : Hosted κ σ :=
  let (_, due, host) := s.host.handle e
  { s with host }.call app due

def hear (s : Hosted κ σ) (generation : Nat) (fs : List Frame) : Hosted κ σ :=
  fs.foldl (fun s f ↦ s.handle app (.frame generation f)) s

/-- Octets come on the connection in one read. All of the frames that they complete are there
before the first one counts. -/
def read (s : Hosted κ σ) (bs : Bytes) : Hosted κ σ :=
  match s.host.link with
  | none => s
  | some link =>
    let (frames, parser) := link.parser.feed bs
    { s with host := s.host.withParser parser }.hear app link.generation frames

def proceed (s : Hosted κ σ) : Doing κ σ → Hosted κ σ
  | .occurs o =>
    let (due, host) := s.host.occur o
    { s with host }.call app due
  | .reads bs => s.read app bs
  | .acts conduct => s.act conduct

def after (s : Hosted κ σ) (ds : List (Doing κ σ)) : Hosted κ σ := ds.foldl (proceed app) s

variable {app : σ → Call κ → Conduct κ σ} {s : Hosted κ σ}

theorem call_joined (hj : s.host.Joined) (due : Option (Call κ)) :
    (s.call app due).host.Joined := by
  cases due with
  | none => exact hj
  | some call => exact Conduct.run_joined hj _

theorem handle_joined (hj : s.host.Joined) (e : Event κ) : (s.handle app e).host.Joined :=
  call_joined (hj.handle e) _

theorem hear_joined (hj : s.host.Joined) (generation : Nat) (fs : List Frame) :
    (s.hear app generation fs).host.Joined := by
  induction fs generalizing s with
  | nil => exact hj
  | cons f fs ih => exact ih (handle_joined hj _)

theorem read_of_none (hl : s.host.link = none) (bs : Bytes) : s.read app bs = s := by
  simp only [read, hl]

theorem read_of_some {link : Link} (hl : s.host.link = some link) (bs : Bytes) :
    s.read app bs = { s with host := s.host.withParser (link.parser.feed bs).2 }.hear app
      link.generation (link.parser.feed bs).1 := by
  simp only [read, hl]

theorem read_joined (hj : s.host.Joined) (bs : Bytes) : (s.read app bs).host.Joined := by
  cases hl : s.host.link with
  | none =>
    rw [read_of_none hl]
    exact hj
  | some link =>
    rw [read_of_some hl]
    obtain ⟨-, -, hs⟩ := hj.link link hl
    exact hear_joined (hj.withParser (hs.feed bs)) _ _

theorem proceed_joined (hj : s.host.Joined) (d : Doing κ σ) :
    (s.proceed app d).host.Joined := by
  cases d with
  | occurs o => exact call_joined (hj.occur o) _
  | reads bs => exact read_joined hj bs
  | acts conduct => exact Conduct.run_joined hj _

theorem after_joined (hj : s.host.Joined) (ds : List (Doing κ σ)) :
    (s.after app ds).host.Joined := by
  induction ds generalizing s with
  | nil => exact hj
  | cons d ds ih => exact ih (proceed_joined hj d)

end Hosted

namespace Conduct

def tell (e : Event κ) (spoken : e.Spoken) : Conduct κ (Option Reply) :=
  call e spoken fun _ ↦ rest none

def ask (e : Event κ) (spoken : e.Spoken) : Conduct κ (Option Reply) :=
  call e spoken fun
    | .sid n => rest (some (.sid n))
    | _ => rest none

def note (notices : List (Nat × Notice)) (n : Notice) : Conduct κ (List (Nat × Notice)) :=
  look fun _ now ↦ rest (notices ++ [(now, n)])

end Conduct

def Action.conduct (message : Option Message) : Action → Conduct Callback (Option Reply)
  | .onError script => .tell (.setErrorHandler ⟨.null, script⟩) trivial
  | .onConnect script => .tell (.setConnectHandler ⟨.null, script⟩) trivial
  | .publish subject payload => .tell (.publish subject none payload) trivial
  | .publishReply subject reply payload => .tell (.publish subject (some reply) payload) trivial
  | .publishAck subject payload id script =>
    .tell (.publishAcked subject payload ⟨id, script⟩) trivial
  | .flush id script => .tell (.flush ⟨id, script⟩) trivial
  | .subscribe subject queue max tag script =>
    .ask (.subscribe subject queue max ⟨tag, script⟩) trivial
  | .request subject payload queue max tag script =>
    .inbox fun inbox ↦ .ask (.request inbox subject payload queue max ⟨tag, script⟩) trivial
  | .unsubscribe sid => .tell (.unsubscribe sid 0) trivial
  | .unsubscribeAfter sid max => .tell (.unsubscribe sid max) trivial
  | .timeout sid afterMs expected auto id script =>
    .tell (.setTimeout sid afterMs expected auto ⟨id, script⟩) trivial
  | .stop => .tell .stop trivial
  | .serverInfo => .look fun c _ ↦ .rest (some (.serverInfo c.serverInfo))
  | .lastError => .look fun c _ ↦ .rest (some (.lastError c.lastError))
  | .options => .look fun c _ ↦ .rest (some (.options c.options))
  | .echo subject =>
    match message with
    | some m => .tell (.publish subject none m.payload) trivial
    | none => .rest none
  | .respond payload =>
    match message.bind (·.reply) with
    | some reply => .tell (.publish reply none payload) trivial
    | none => .rest none

namespace Scenario

def conduct (message : Option Message) (notices : List (Nat × Notice)) :
    List Action → Conduct Callback (List (Nat × Notice))
  | [] => .rest notices
  | a :: script => (a.conduct message).bind fun
    | some reply => (Conduct.note notices (.did a.name reply)).bind fun notices ↦
        conduct message notices script
    | none => conduct message notices script

def heard : Call Callback → Notice × Option Message × List Action
  | .message callback m => (.message callback.label m, some m, callback.script)
  | .error callback e => (.error e, none, callback.script)
  | .connected callback => (.connected, none, callback.script)
  | .acked callback => (.acked callback.label, none, callback.script)
  | .timeout callback sid => (.timeout callback.label sid, none, callback.script)

def answer (notices : List (Nat × Notice)) (call : Call Callback) :
    Conduct Callback (List (Nat × Notice)) :=
  let (notice, message, script) := heard call
  (Conduct.note notices notice).bind (conduct message · script)

def hosted (s : Scenario) : Hosted Callback (List (Nat × Notice)) :=
  { host := s.host, mind := s.notices }

def resume (s : Scenario) (t : Hosted Callback (List (Nat × Notice))) : Scenario :=
  { s with host := t.host, notices := t.mind }

variable (s : Scenario) (t : Hosted Callback (List (Nat × Notice)))

theorem act_eq (message : Option Message) (a : Action) :
    s.act message a = (((a.conduct message).run s.host).1,
      { s with host := ((a.conduct message).run s.host).2 }) := by
  have hask (s : Scenario) (e : Event Callback) (he : e.Spoken) :
      s.ask e = (((Conduct.ask e he).run s.host).1,
        { s with host := ((Conduct.ask e he).run s.host).2 }) := by
    simp only [Scenario.ask, Conduct.ask, Conduct.run]
    cases (s.host.handle e).1 <;> rfl
  cases a with
  | subscribe subject queue max tag script =>
    exact hask s (.subscribe subject queue max ⟨tag, script⟩) trivial
  | request subject payload queue max tag script =>
    exact hask { s with host := s.host.newInbox.2 }
      (.request s.host.newInbox.1 subject payload queue max ⟨tag, script⟩) trivial
  | echo subject => cases message <;> rfl
  | respond payload =>
    simp only [act, Action.conduct]
    cases message.bind (·.reply) <;> rfl
  | _ => rfl

theorem play_eq (message : Option Message) (script : List Action) :
    s.play message script = s.resume (s.hosted.act (conduct message · script)) := by
  induction script generalizing s with
  | nil => rfl
  | cons a script ih =>
    rw [play, List.foldl_cons, act_eq]
    simp only [Hosted.act, hosted, conduct, Conduct.run_bind]
    generalize (a.conduct message).run s.host = r
    obtain ⟨reply, host⟩ := r
    cases reply with
    | none => exact ih { s with host }
    | some reply => exact ih (note { s with host } (.did a.name reply))

theorem call_eq (due : Option (Call Callback)) :
    s.call due = s.resume (s.hosted.call answer due) := by
  cases due with
  | none => rfl
  | some call =>
    have hc : s.call (some call) =
        (s.note (heard call).1).play (heard call).2.1 (heard call).2.2 := by
      cases call <;> rfl
    rw [hc, play_eq]
    rfl

theorem resume_call (due : Option (Call Callback)) :
    (s.resume t).call due = s.resume (t.call answer due) := by
  rw [call_eq]
  cases due <;> rfl

theorem resume_handle (e : Event Callback) :
    (s.resume t).handle e = s.resume (t.handle answer e) :=
  s.resume_call { t with host := (t.host.handle e).2.2 } (t.host.handle e).2.1

theorem resume_hear (generation : Nat) (fs : List Frame) :
    fs.foldl (fun s f ↦ s.handle (.frame generation f)) (s.resume t) =
      s.resume (t.hear answer generation fs) := by
  induction fs generalizing t with
  | nil => rfl
  | cons f fs ih =>
    rw [List.foldl_cons, resume_handle, ih]
    rfl

theorem resume_receive {link : Link} (hl : t.host.link = some link) (bs : Bytes) :
    (s.resume t).receive link bs = s.resume (t.read answer bs) := by
  rw [Hosted.read_of_some hl, ← resume_hear, Host.withParser_of_some hl]
  rfl

theorem resume_send (bs : Bytes) :
    ((s.resume t).proceed (.serverSend bs)).2 = s.resume (t.read answer bs) := by
  have hr : (s.resume t).host.link = t.host.link := rfl
  cases hl : t.host.link with
  | none => simp only [proceed, hr, hl, Hosted.read_of_none hl]
  | some link => simp only [proceed, hr, hl, resume_receive s t hl]

def after (s : Scenario) (es : List Step) : Scenario := es.foldl (fun s e ↦ (s.step e).2) s

variable {s : Scenario}

theorem act_joined (hj : s.host.Joined) (message : Option Message) (a : Action) :
    (s.act message a).2.host.Joined := by
  rw [act_eq]
  exact Conduct.run_joined hj _

theorem call_joined (hj : s.host.Joined) (due : Option (Call Callback)) :
    (s.call due).host.Joined := by
  rw [call_eq]
  exact Hosted.call_joined hj due

theorem handle_joined (hj : s.host.Joined) (e : Event Callback) : (s.handle e).host.Joined :=
  call_joined (s := { s with host := (s.host.handle e).2.2 }) (hj.handle e) _

theorem receive_joined (hj : s.host.Joined) {link : Link} (hl : s.host.link = some link)
    (bs : Bytes) : (s.receive link bs).host.Joined := by
  have hr : s.receive link bs = s.resume (s.hosted.read answer bs) :=
    s.resume_receive s.hosted hl bs
  rw [hr]
  exact Hosted.read_joined hj bs

theorem refuse_joined (hj : s.host.Joined) (uri : ServerUri) (kind : IoErrorKind) :
    (s.refuse uri kind).2.host.Joined := handle_joined hj _

theorem conclude_joined (hj : s.host.Joined) (uri : ServerUri) :
    (s.conclude uri).2.host.Joined := by
  unfold conclude
  split
  · exact call_joined (s := { s with host := (s.host.connect uri).2 }) (hj.connect uri) _
  · exact refuse_joined hj uri _

mutual

theorem make_joined {s : Scenario} (hj : s.host.Joined) : (m : Move) → (s.make m).2.host.Joined
  | .act a => act_joined hj none a
  | .start uri during => by
    unfold make
    split
    · exact hj
    · rename_i uri _
      have hb := hj.handle (.begin uri)
      split
      · rename_i host he
        rw [he] at hb
        dsimp only
        split
        · exact conclude_joined (makeDuring_joined hb during) uri
        · exact refuse_joined hb uri _
      · exact hj

theorem makeDuring_joined {s : Scenario} (hj : s.host.Joined) :
    (ms : List Move) → (s.makeDuring ms).host.Joined
  | [] => hj
  | m :: ms => by
    have hm := make_joined (s := s.note (.during m.name s.host.client.phase.name)) hj m
    unfold makeDuring
    split
    · rename_i he
      rw [he] at hm
      exact makeDuring_joined (s := note _ _) hm ms
    · rename_i he
      rw [he] at hm
      exact makeDuring_joined hm ms

end

theorem runTimers_joined (hj : s.host.Joined) (deadline fuel : Nat) :
    (s.runTimers deadline fuel).host.Joined := by
  induction fuel generalizing s with
  | zero => exact hj
  | succ fuel ih =>
    unfold runTimers
    split
    · exact hj
    · rename_i t host hn
      exact ih (call_joined (s := { s with host := (host.ring t.alarm).2 })
        ((hj.nextTimer? hn).ring t.alarm) _)

theorem proceed_joined (hj : s.host.Joined) (e : Step) : (s.proceed e).2.host.Joined := by
  cases e with
  | move m => exact make_joined hj m
  | serverUp | serverDown => exact ⟨hj.linked, hj.link⟩
  | serverSend bs =>
    unfold proceed
    dsimp only
    split
    · exact hj
    · rename_i link hl
      exact receive_joined hj hl bs
  | serverClose bs =>
    unfold proceed
    dsimp only
    split
    · exact hj
    · rename_i link hl
      refine handle_joined ?_ _
      split
      · exact hj
      · exact receive_joined hj hl bs
  | advance ms =>
    have hr := runTimers_joined hj (s.host.now + ms) UInt64.size
    exact ⟨hr.linked, hr.link⟩

theorem report_joined (hj : s.host.Joined) (reply : Option Reply) :
    (s.report reply).2.host.Joined := ⟨hj.linked, hj.link⟩

theorem step_joined (hj : s.host.Joined) (e : Step) : (s.step e).2.host.Joined :=
  report_joined (runTimers_joined (proceed_joined hj e) _ _) _

theorem after_joined (hj : s.host.Joined) (es : List Step) : (s.after es).host.Joined := by
  induction es generalizing s with
  | nil => exact hj
  | cons e es ih => exact ih (step_joined hj e)

end Scenario

end Herald
