import Herald.Proofs.Client.Greeting
import Herald.Proofs.Host.Applications

namespace Herald

variable {κ σ : Type}

/-- A host that still has a connection, or that closed it for good: the client is past the
generation of that connection. -/
structure Host.Attends (h : Host κ) (link : Link) : Prop where
  joined : h.Joined
  kept : h.link = some link ∨ h.link = none ∧ link.generation < h.client.generation

namespace Host

variable {h : Host κ} {link : Link}

theorem Joined.attends (hj : h.Joined) (hl : h.link = some link) : h.Attends link := ⟨hj, .inl hl⟩

/-- Short of its end nothing takes a connection away but a stop of the client. -/
theorem Attends.handle (ha : h.Attends link) {e : Event κ}
    (he : ∀ generation, e ≠ .lost generation) : (h.handle e).2.2.Attends link := by
  refine ⟨ha.joined.handle e, ?_⟩
  rw [handle_link, handle_client]
  rcases ha.kept with hl | ⟨hl, hlt⟩
  · obtain ⟨hp, hg, -⟩ := ha.joined.link link hl
    have hb := Client.step_bears ha.joined.linked hp e
    cases hb with
    | holds hh => exact .inl (by simp [hl, hh.hangUps])
    | loses hd _ => exact absurd hd (he _)
    | stops hs hu => exact .inr ⟨by simp [hl, hu, hg], by omega⟩
  · have hle := (h.client.turn_moves (.event e)).generation_le
    exact .inr ⟨by rw [hl]; rfl, Nat.lt_of_lt_of_le hlt hle⟩

theorem Attends.newInbox (ha : h.Attends link) : h.newInbox.2.Attends link :=
  ⟨⟨ha.joined.linked, ha.joined.link⟩, ha.kept⟩

theorem Attends.run (ha : h.Attends link) (d : Conduct κ σ) : (d.run h).2.Attends link := by
  induction d generalizing h with
  | rest mind => exact ha
  | look next ih => exact ih h.client h.now ha
  | inbox next ih => exact ih h.newInbox.1 ha.newInbox
  | call e spoken next ih =>
    refine ih (h.handle e).1 (ha.handle ?_)
    rintro generation rfl
    exact spoken

/-- On a connection that was closed frames count for nothing. -/
theorem handle_frame_of_lt {generation : Nat} (hlt : generation < h.client.generation) (f : Frame) :
    h.handle (.frame generation f) = (.done, none, h) := by
  have hs : h.client.step (.frame generation f) = (.done, { client := h.client }) := by
    simp only [Client.step, Client.receive, if_pos (Nat.ne_of_gt hlt)]
  rw [handle, hs]
  rfl

end Host

/-- What an application does, the parser has no part in. -/
theorem Conduct.run_withParser (d : Conduct κ σ) (h : Host κ) (parser : Parser) :
    d.run (h.withParser parser) = ((d.run h).1, (d.run h).2.withParser parser) := by
  induction d generalizing h with
  | rest mind => rfl
  | look next ih => exact ih h.client h.now h
  | inbox next ih => exact ih h.newInbox.1 h.newInbox.2
  | call e spoken next ih =>
    simp only [run, Host.handle_withParser]
    exact ih (h.handle e).1 (h.handle e).2.2

namespace Hosted

variable {app : σ → Call κ → Conduct κ σ} {s : Hosted κ σ}

def withParser (s : Hosted κ σ) (parser : Parser) : Hosted κ σ :=
  { s with host := s.host.withParser parser }

theorem call_withParser (due : Option (Call κ)) (parser : Parser) :
    (s.withParser parser).call app due = (s.call app due).withParser parser := by
  cases due with
  | none => rfl
  | some call =>
    simp only [Hosted.call, act, withParser, Conduct.run_withParser]

theorem handle_withParser (e : Event κ) (parser : Parser) :
    (s.withParser parser).handle app e = (s.handle app e).withParser parser := by
  let t : Hosted κ σ := { s with host := (s.host.handle e).2.2 }
  have hh := s.host.handle_withParser parser e
  have hc : (t.withParser parser).call app (s.host.handle e).2.1 =
      (t.call app (s.host.handle e).2.1).withParser parser := call_withParser _ parser
  simp only [handle, withParser, hh]
  exact hc

theorem hear_withParser (generation : Nat) (fs : List Frame) (parser : Parser) :
    (s.withParser parser).hear app generation fs =
      (s.hear app generation fs).withParser parser := by
  induction fs generalizing s with
  | nil => rfl
  | cons f fs ih =>
    simp only [hear, List.foldl_cons, handle_withParser] at ih ⊢
    exact ih

theorem attends_call {link : Link} (ha : s.host.Attends link) (due : Option (Call κ)) :
    (s.call app due).host.Attends link := by
  cases due with
  | none => exact ha
  | some call => exact ha.run _

theorem attends_handle {link : Link} (ha : s.host.Attends link) {e : Event κ}
    (he : ∀ generation, e ≠ .lost generation) : (s.handle app e).host.Attends link :=
  attends_call (s := { s with host := (s.host.handle e).2.2 }) (ha.handle he) _

theorem attends_hear {link : Link} (ha : s.host.Attends link) (fs : List Frame) :
    (s.hear app link.generation fs).host.Attends link := by
  induction fs generalizing s with
  | nil => exact ha
  | cons f fs ih => exact ih (attends_handle ha fun _ ↦ nofun)

theorem hear_of_lt {generation : Nat} (hlt : generation < s.host.client.generation)
    (fs : List Frame) : s.hear app generation fs = s := by
  induction fs with
  | nil => rfl
  | cons f fs ih =>
    have hh : s.handle app (.frame generation f) = s := by
      rw [handle, Host.handle_frame_of_lt hlt]
      rfl
    rw [hear, List.foldl_cons, hh]
    exact ih

theorem hear_append (generation : Nat) (xs ys : List Frame) :
    s.hear app generation (xs ++ ys) = (s.hear app generation xs).hear app generation ys :=
  List.foldl_append

/-- Two reads come to what one read of all their octets comes to, whatever the callbacks do. -/
theorem read_append (hj : s.host.Joined) (as bs : Bytes) :
    s.read app (as ++ bs) = (s.read app as).read app bs := by
  cases hl : s.host.link with
  | none => simp only [read_of_none hl]
  | some link =>
    obtain ⟨-, -, hs⟩ := hj.link link hl
    let p := (link.parser.feed as).2
    let q := (p.feed bs).2
    let t := (s.withParser p).hear app link.generation (link.parser.feed as).1
    have ht : s.read app as = t := read_of_some hl as
    -- The first read's frames meet the same host either way, but for what waits in its parser.
    have hab : s.read app (as ++ bs) =
        (t.withParser q).hear app link.generation (p.feed bs).1 := by
      have hq : { s with host := s.host.withParser q } = (s.withParser p).withParser q := by
        simp only [withParser, Host.withParser_withParser]
      rw [read_of_some hl, hs.feed_append, hear_append, hq, hear_withParser]
    have ha : t.host.Attends { link with parser := p } := by
      have hp : (s.host.withParser p).link = some { link with parser := p } := by
        rw [Host.withParser_of_some hl]
      have ha := (hj.withParser (hs.feed as)).attends hp
      exact attends_hear (s := s.withParser p) ha _
    rw [hab, ht]
    rcases ha.kept with hk | ⟨hn, hlt⟩
    · exact (read_of_some hk bs).symm
    · rw [read_of_none hn, withParser, Host.withParser_of_none hn]
      exact hear_of_lt hlt _

/-- Whatever happened before, an application cannot tell where one read ended and the next one
began. Its callbacks come due in the same order, the same is written, and client, host and
application end up the same, be it that a callback or the handler of errors stops the client on
the way. So it is with every callback that acts as it sees fit, and so with scripts. -/
theorem read_boundaries_invisible :
    (∀ {κ σ : Type} (app : σ → Call κ → Conduct κ σ) (options : ClientOptions)
      (network : Network) (mind : σ) (ds : List (Doing κ σ)) (as bs : Bytes),
      let s := (new options network mind).after app ds
      s.read app (as ++ bs) = (s.read app as).read app bs) ∧
    ∀ (options : ClientOptions) (network : Network) (es : List Step) (as bs : Bytes),
      let s := (Scenario.new options network).after es
      (s.proceed (.serverSend (as ++ bs))).2 =
        ((s.proceed (.serverSend as)).2.proceed (.serverSend bs)).2 := by
  constructor
  · intro κ σ app options network mind ds as bs s
    have hj : s.host.Joined := after_joined (.new options network) ds
    exact read_append hj as bs
  · intro options network es as bs s
    have hj : s.host.Joined := Scenario.after_joined (.new options network) es
    have hsend (t : Hosted Callback (List (Nat × Notice))) (bs : Bytes) := s.resume_send t bs
    calc (s.proceed (.serverSend (as ++ bs))).2
      _ = s.resume (s.hosted.read Scenario.answer (as ++ bs)) := hsend s.hosted _
      _ = s.resume ((s.hosted.read Scenario.answer as).read Scenario.answer bs) := by
        rw [read_append hj]
      _ = ((s.resume (s.hosted.read Scenario.answer as)).proceed (.serverSend bs)).2 :=
        (hsend _ bs).symm
      _ = ((s.proceed (.serverSend as)).2.proceed (.serverSend bs)).2 := by
        rw [← hsend s.hosted as]
        rfl

example (app : Unit → Call Nat → Conduct Nat Unit) : ((new {} {} ()).after app
    [.occurs (.event (.begin .localhost)), .occurs (.connect .localhost)]).host.link.isSome := rfl

end Hosted

end Herald
