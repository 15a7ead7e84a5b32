import Herald.Proofs.Cli.Publication
import Herald.Proofs.Client.Serving

namespace Herald

open Cli (Happening Hook News Session)

def Call.news? : Call Hook → Option News
  | .message _ m => some (.message m)
  | .error _ e => if e.isConnection then some (.failed e.message) else none
  | .timeout .. => some .timedOut
  | .connected _ | .acked _ => none

def Cli.News.message? : News → Option Message
  | .message m => some m
  | .failed _ | .timedOut => none

theorem Call.message?_eq (call : Call Hook) : call.news?.bind News.message? = call.message? := by
  cases call with
  | error callback e =>
    rw [news?]
    split <;> rfl
  | message | connected | acked | timeout => rfl

namespace Client

variable {c : Client Hook} {ts us : List (Turn Hook)}

def reports (c : Client Hook) (ts : List (Turn Hook)) : List News :=
  (c.calls ts).filterMap Call.news?

theorem filterMap_reports (c : Client Hook) (ts : List (Turn Hook)) :
    (c.reports ts).filterMap News.message? = c.delivered ts := by
  rw [reports, delivered, List.filterMap_filterMap]
  exact List.filterMap_congr fun call _ ↦ call.message?_eq

theorem reports_of_calls {due : Option (Call Hook)}
    (h : c.calls (ts ++ us) = c.calls ts ++ due.toList) :
    c.reports (ts ++ us) = c.reports ts ++ (due.bind Call.news?).toList := by
  rw [reports, h, List.filterMap_append]
  cases due with
  | none => rfl
  | some call => cases hn : call.news? <;> simp [reports, hn]

theorem timedOut_not_mem (h : ∀ call ∈ c.calls ts, ¬call.IsTimeout) :
    News.timedOut ∉ c.reports ts := by
  intro hm
  obtain ⟨call, hc, hn⟩ := List.mem_filterMap.1 hm
  cases call with
  | timeout callback sid => exact h _ hc trivial
  | error callback e =>
    rw [Call.news?] at hn
    split at hn <;> cases hn
  | message | connected | acked => cases hn

/-- The frames of one connection all come on the connection in use, if errors do not end it. -/
theorem timelyAlong_heard (h : ∃ callback, c.onError = .user callback) {generation : Nat}
    (hg : generation = c.generation) (fs : List Frame) :
    c.Along Client.Timely (Session.heard generation fs) := by
  induction fs generalizing c with
  | nil => trivial
  | cons f fs ih =>
    refine ⟨?_, ih (heeded_turn (t := .event (.frame generation f)) h id) ?_⟩
    · intro n f' he
      cases he
      exact hg
    · exact hg.trans (receive_generation h generation f).symm

end Client

namespace Host

variable {h : Host Hook} {c : Client Hook} {ts : List (Turn Hook)}

/-- The callback that is due when a timer runs out is the one that runs in the turns it brings. -/
theorem Recounts.calls_ring (hr : h.Recounts c ts) (alarm : Alarm Hook) :
    c.calls (ts ++ h.alarmTurns alarm) = c.calls ts ++ (h.ring alarm).1.toList := by
  cases alarm with
  | expire sid token callback =>
    rw [alarmTurns, Client.calls_snoc, ← hr.client]
    rfl
  | wake loop =>
    simp only [Host.ring, wake_eq, alarmTurns]
    cases hw : h.client.wake.1 with
    | none =>
      dsimp only
      rw [Client.calls_snoc, ← hr.client]
      rfl
    | some uri =>
      have hsilent : h.client.wake.2.call = none := by
        unfold Client.wake at hw ⊢
        split
        · rfl
        · rename_i hn
          rw [if_neg hn] at hw
          dsimp only at hw ⊢
          split
          · rename_i hlt
            rw [if_pos hlt] at hw
            cases hw
          · rfl
      have hfirst : c.calls (ts ++ [.event (.wake loop)]) = c.calls ts := by
        rw [Client.calls_snoc, ← hr.client]
        show c.calls ts ++ h.client.wake.2.call.toList = c.calls ts
        rw [hsilent]
        exact List.append_nil _
      have hclient : (c.turns (ts ++ [.event (.wake loop)])).2 =
          (h.handle (.wake loop)).2.2.client := (hr.handle (.wake loop)).client.symm
      rw [← List.singleton_append, ← List.append_assoc, Client.calls_snoc, hfirst, hclient]
      dsimp only
      split
      · rfl
      · rw [(connect_spec _ uri).1]
        rfl

end Host

namespace Cli.Session

theorem call_news (s : Session) (due : Option (Call Hook)) :
    (s.call due).news = s.news ++ (due.bind Call.news?).toList := by
  rcases due with _ | call
  · exact (List.append_nil _).symm
  · cases call with
    | error callback e =>
      by_cases he : e.isConnection
      · simp [call, Call.news?, he]
      · simp [call, Call.news?, he]
    | connected | acked => exact (List.append_nil _).symm
    | message | timeout => rfl

/-- A command whose client has taken these turns, of the reports of which it has taken up the first
and still has the others before it. -/
structure Hears (s : Session) (c : Client Hook) (ts : List (Turn Hook)) (told : List News) :
    Prop where
  recounts : s.host.Recounts c ts
  reports : c.reports ts = told ++ s.news

variable {s : Session} {c : Client Hook} {ts us : List (Turn Hook)} {told : List News}

theorem Hears.call (h : s.Hears c ts told) {host : Host Hook} {due : Option (Call Hook)}
    (hr : host.Recounts c (ts ++ us)) (hc : c.calls (ts ++ us) = c.calls ts ++ due.toList) :
    (call { s with host } due).Hears c (ts ++ us) told where
  recounts := by
    rw [call_host]
    exact hr
  reports := by
    rw [Client.reports_of_calls hc, call_news, h.reports, List.append_assoc]

theorem Hears.tell (h : s.Hears c ts told) (e : Event Hook) :
    (s.tell e).Hears c (ts ++ [.event e]) told := by
  have hc : c.calls (ts ++ [.event e]) = c.calls ts ++ (s.host.handle e).2.1.toList := by
    rw [Client.calls_snoc, ← h.recounts.client]
    rfl
  exact h.call (h.recounts.handle e) hc

theorem Hears.hear (h : s.Hears c ts told) (generation : Nat) (fs : List Frame) :
    (s.hear generation fs).Hears c (ts ++ heard generation fs) told := by
  induction fs generalizing s ts with
  | nil =>
    rw [heard, List.map_nil, List.append_nil]
    exact h
  | cons f fs ih =>
    have ih := ih (h.tell (.frame generation f))
    rwa [List.append_assoc] at ih

theorem Hears.of_host (h : s.Hears c ts told) {host : Host Hook} (hr : host.Recounts c ts) :
    Hears { s with host } c ts told := ⟨hr, h.reports⟩

inductive Resumes (s s' : Session) (o : Happening) : Prop
  | proceeds : s.undergo o = s'.proceed → Resumes s s' o
  | rests : s.undergo o = s' → s'.news = s.news → Resumes s s' o
  | expires : s.undergo o = s'.fail "Timed out waiting for the server" →
    s.stage = .publishing ∨ s.stage = .subscribing → Resumes s s' o

theorem keeps_of_host (s : Session) (host : Host Hook) : s.Keeps { s with host } := ⟨rfl, rfl, rfl⟩

theorem wake_of_none {now : Nat} (hn : s.host.nextTimer? now = none) :
    let s' : Session := { s with host := { s.host with now } }
    s.wake now = s' ∨ s.wake now = s'.fail "Timed out waiting for the server" ∧
      (s.stage = .publishing ∨ s.stage = .subscribing) := by
  intro s'
  unfold wake
  rw [hn]
  dsimp only
  split
  · rename_i hs
    split
    · exact .inr ⟨rfl, .inl hs⟩
    · exact .inl rfl
  · rename_i hs
    split
    · exact .inr ⟨rfl, .inr hs⟩
    · exact .inl rfl
  · exact .inl rfl

/-- A happening may leave the command as it was. -/
theorem Hears.unmoved (h : s.Hears c ts told) {o : Happening} (hu : s.undergo o = s)
    (ht : s.turnsAt o = []) :
    ∃ s', s.Keeps s' ∧ s'.Hears c (ts ++ s.turnsAt o) told ∧ s.Resumes s' o := by
  rw [ht, List.append_nil]
  exact ⟨s, ⟨rfl, rfl, rfl⟩, h, .rests hu rfl⟩

theorem Hears.reads (h : s.Hears c ts told) (hr : ¬s.result?.isSome) {link : Link}
    (hl : s.host.link = some link) (bs : Bytes) :
    ∃ s', s.Keeps s' ∧ s'.Hears c (ts ++ s.turnsAt (.reads bs)) told ∧
      s.Resumes s' (.reads bs) := by
  obtain ⟨-, -, hsearched⟩ := h.recounts.joined.link link hl
  let s₁ : Session := { s with host := s.host.withParser (link.parser.feed bs).2 }
  have h₁ : s₁.Hears c ts told :=
    h.of_host (h.recounts.withParser (hsearched.extend bs).drained.toSearched)
  have hk : s.Keeps (s₁.hear link.generation (link.parser.feed bs).1) :=
    (s.keeps_of_host _).trans (s₁.hear_keeps _ _)
  refine ⟨s₁.hear link.generation (link.parser.feed bs).1, hk, ?_, .proceeds ?_⟩
  · rw [turnsAt, if_neg hr, hl]
    exact h₁.hear link.generation _
  · rw [undergo, if_neg hr, receive, hl]
    simp only [s₁, Host.withParser_of_some hl]
    rfl

/-- A timer rings, or time passes without one. -/
theorem Hears.passes (h : s.Hears c ts told) (hr : ¬s.result?.isSome) (now : Nat) :
    ∃ s', s.Keeps s' ∧ s'.Hears c (ts ++ s.turnsAt (.passes now)) told ∧
      s.Resumes s' (.passes now) := by
  have hu : s.undergo (.passes now) = s.wake now := if_neg hr
  cases hn : s.host.nextTimer? now with
  | some p =>
    obtain ⟨timer, host⟩ := p
    have hrec := h.recounts.nextTimer? hn
    refine ⟨Session.call { s with host := (host.ring timer.alarm).2 } (host.ring timer.alarm).1,
      s.call_keeps_of_host _ _, ?_, .proceeds ?_⟩
    · rw [turnsAt, if_neg hr, hn]
      exact h.call (hrec.ring timer.alarm) (hrec.calls_ring timer.alarm)
    · rw [hu, wake, hn]
  | none =>
    have hrec := h.recounts
    have h₁ : Hears { s with host := { s.host with now } } c ts told :=
      h.of_host ⟨⟨hrec.joined.linked, hrec.joined.link⟩, hrec.client, hrec.wire⟩
    rw [turnsAt, if_neg hr, hn, List.append_nil]
    refine ⟨_, s.keeps_of_host _, h₁, ?_⟩
    rcases wake_of_none hn with hw | ⟨hw, hs⟩
    · exact .rests (hu.trans hw) rfl
    · exact .expires (hu.trans hw) hs

/-- What a happening comes to, before the command takes up the news that it brought. -/
theorem Hears.next (h : s.Hears c ts told) (hr : ¬s.result?.isSome) (o : Happening) :
    ∃ s', s.Keeps s' ∧ s'.Hears c (ts ++ s.turnsAt o) told ∧ s.Resumes s' o := by
  cases o with
  | reads bs =>
    cases hl : s.host.link with
    | none =>
      refine h.unmoved ?_ ?_
      · rw [undergo, if_neg hr, receive, hl]
      · rw [turnsAt, if_neg hr, hl]
    | some link => exact h.reads hr hl bs
  | hangsUp =>
    cases hl : s.host.link with
    | none =>
      refine h.unmoved ?_ ?_
      · rw [undergo, if_neg hr, hangUp, hl]
      · rw [turnsAt, if_neg hr, hl]
    | some link =>
      refine ⟨s.tell (.lost link.generation), s.tell_keeps _, ?_, .proceeds ?_⟩
      · rw [turnsAt, if_neg hr, hl]
        exact h.tell _
      · rw [undergo, if_neg hr, hangUp, hl]
  | breaks =>
    let host : Host Hook := { s.host with client := (s.host.client.turn .broken).client }
    have hc : c.calls (ts ++ [.broken]) = c.calls ts ++ (none : Option (Call Hook)).toList := by
      rw [Client.calls_snoc]
      rfl
    refine ⟨{ s with host }, s.keeps_of_host _, ?_, .rests (if_neg hr) rfl⟩
    rw [turnsAt, if_neg hr]
    show (Session.call { s with host } none).Hears c (ts ++ [.broken]) told
    exact h.call h.recounts.broken hc
  | network n =>
    have hrec := h.recounts
    refine ⟨{ s with host := { s.host with network := n } }, s.keeps_of_host _, ?_,
      .rests (if_neg hr) rfl⟩
    rw [turnsAt, if_neg hr, List.append_nil]
    exact h.of_host ⟨⟨hrec.joined.linked, hrec.joined.link⟩, hrec.client, hrec.wire⟩
  | passes now => exact h.passes hr now

/-- What comes in at a happening comes on the connection in use. -/
theorem Hears.timelyAlong (h : s.Hears c ts told)
    (hc : ∃ callback, (c.turns ts).2.onError = .user callback) (o : Happening) :
    (c.turns ts).2.Along Client.Timely (s.turnsAt o) := by
  have hnone {d : Client Hook} {t : Turn Hook} (ht : ∀ n f, t ≠ .event (.frame n f)) :
      d.Timely t := fun n f he ↦ (ht n f he).elim
  unfold turnsAt
  split
  · trivial
  · cases o with
    | reads bs =>
      dsimp only
      split
      · rename_i link hl
        obtain ⟨-, hg, -⟩ := h.recounts.joined.link link hl
        rw [h.recounts.client] at hg
        exact Client.timelyAlong_heard hc hg _
      · trivial
    | hangsUp =>
      dsimp only
      split
      · exact ⟨hnone nofun, trivial⟩
      · trivial
    | breaks => exact ⟨hnone nofun, trivial⟩
    | network n => trivial
    | passes now =>
      dsimp only
      split
      · rename_i timer host _
        obtain ⟨due, alarm⟩ := timer
        cases alarm with
        | expire sid token callback => exact ⟨hnone nofun, trivial⟩
        | wake loop =>
          refine ⟨hnone nofun, ?_⟩
          split
          · refine ⟨hnone ?_, trivial⟩
            split <;> exact nofun
          · trivial
      · trivial

end Cli.Session

end Herald
