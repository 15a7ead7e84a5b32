import Mathlib
import Herald.Proofs.Cli.Session
import Herald.Proofs.Client.Secrecy

namespace Herald

open Cli (Hook Request Session)

/-- A command that cannot connect names the server the way it was given. -/
theorem Cli.Session.start_unreachable {host : Host Hook} {request : Request} (server : String)
    (hr : ∀ payload timeoutMs, request ≠ .request "" payload timeoutMs)
    (hn : (host.network.routed && host.network.up) = false) :
    (start host request server).result? = some (1, some ("Failed to connect to " ++ server)) := by
  unfold start
  split
  · exact (hr _ _ rfl).elim
  · rfl
  · dsimp only
    rw [tell_network, tell_network, hn]
    rfl

namespace ServerUri

variable {pass pass' : String}

/-- With another password an accepted text is accepted too, and whatever comes of it is the same but
for the password in a handshake; a rejected text is rejected too. The messages that quote a text
tell the passwords apart. -/
theorem password_told_iff (scheme user rest : String)
    (h : ∀ c ∈ pass.toList, Address.ends c = false)
    (h' : ∀ c ∈ pass'.toList, Address.ends c = false) :
    let t := withPassword scheme user pass rest
    let t' := withPassword scheme user pass' rest
    ((∃ u u', parse? t = .ok u ∧ parse? t' = .ok u' ∧ u.scheme = u'.scheme ∧ u.user = u'.user ∧
        u.host = u'.host ∧ u.port = u'.port ∧ u.text = u'.text ∧
        u.socketAddress = u'.socketAddress ∧
        ∀ (κ : Type) (c : Client κ) (es : List (Event κ)),
          let es' := es.map (Event.mapUri fun w ↦ if w = u then u' else w)
          (c.run es).1.map (·.call) = (c.run es').1.map (·.call) ∧
            (c.run es).1.map Reaction.redacted = (c.run es').1.map Reaction.redacted ∧
            (c.run es).2.redacted = (c.run es').2.redacted) ∨
      ∃ e e', parse? t = .error e ∧ parse? t' = .error e' ∧
        (∃ fault, e = .invalidUri (Fault.message fault t) ∧ e' = .invalidUri (fault.message t')) ∧
        (e.message = e'.message ↔ pass = pass')) ∧
    ∀ (host : Host Hook) (request : Request),
      (∀ payload timeoutMs, request ≠ .request "" payload timeoutMs) →
      (host.network.routed && host.network.up) = false →
      ((Session.start host request t).result? = (Session.start host request t').result? ↔
        pass = pass') := by
  intro t t'
  have ht : t = t' ↔ pass = pass' := ⟨withPassword_inj, fun he ↦ congrArg (withPassword _ _ · _) he⟩
  refine ⟨?_, fun host request hr hn ↦ ?_⟩
  · rcases parse?_withPassword scheme user rest h h' with ⟨u, u', hu, hu', he⟩ | ⟨fault, hf, hf'⟩
    · refine .inl ⟨u, u', hu, hu', (congrArg ServerUri.scheme he :),
        (congrArg ServerUri.user he :), (congrArg host he :), (congrArg port he :),
        text_eq_of_redacted he, socketAddress_eq_of_redacted he, fun κ c es ↦ ?_⟩
      refine c.run_mapUri (fun w ↦ ?_) es
      split
      · rename_i hw
        exact hw ▸ he.symm
      · rfl
    · exact .inr ⟨_, _, hf, hf', ⟨fault, rfl, rfl⟩, message_eq_iff.trans ht⟩
  · rw [Session.start_unreachable _ hr hn, Session.start_unreachable _ hr hn, ← ht]
    simp only [Option.some.injEq, Prod.mk.injEq, String.append_right_inj, true_and]

theorem password_told_iff_accepted :
    let t := withPassword "nats" "user" "se:cr@et" "server.test/path"
    let t' := withPassword "nats" "user" "" "server.test/path"
    let host : Host Hook := { client := {}, network := { up := false } }
    parse? t = .ok ⟨"nats", "server.test", 4222, some "user", some "se:cr@et"⟩ ∧
      parse? t' = .ok ⟨"nats", "server.test", 4222, some "user", some ""⟩ ∧
      (∃ u u', parse? t = .ok u ∧ parse? t' = .ok u' ∧ u.text = u'.text) ∧
      (Session.start host (.pub "news" "" none) t).result? ≠
        (Session.start host (.pub "news" "" none) t').result? := by
  intro t t' host
  have ht : parse? t = .ok ⟨"nats", "server.test", 4222, some "user", some "se:cr@et"⟩ := by cbv
  obtain ⟨⟨u, u', hu, hu', -, -, -, -, htext, -⟩ | ⟨e, e', he, -⟩, hs⟩ :=
    password_told_iff "nats" "user" "server.test/path"
      (by simp [Address.ends] : ∀ c ∈ "se:cr@et".toList, Address.ends c = false)
      (by simp : ∀ c ∈ "".toList, Address.ends c = false)
  · refine ⟨ht, by cbv, ⟨u, u', hu, hu', htext⟩, fun h ↦ ?_⟩
    exact absurd ((hs host _ (by simp) rfl).1 h) (by decide)
  · cases ht.symm.trans he

/-- The message for a text that is not accepted quotes it whole. -/
theorem password_quoted :
    ¬∀ scheme user pass pass' rest : String, (∀ c ∈ pass.toList, Address.ends c = false) →
      (∀ c ∈ pass'.toList, Address.ends c = false) →
      (∃ u u', parse? (withPassword scheme user pass rest) = .ok u ∧
        parse? (withPassword scheme user pass' rest) = .ok u') ∨
      ∃ e e', parse? (withPassword scheme user pass rest) = .error e ∧
        parse? (withPassword scheme user pass' rest) = .error e' ∧ e.message = e'.message := by
  intro h
  let t := withPassword "nats" "user" "secret" "host:x"
  let t' := withPassword "nats" "user" "" "host:x"
  have hc : ofChars? t.toList = .error .badHostOrPort := by cbv
  have hc' : ofChars? t'.toList = .error .badHostOrPort := by cbv
  have ht : parse? t = .error (.invalidUri (Fault.message .badHostOrPort t)) := by
    rw [parse?_eq, hc]
  have ht' : parse? t' = .error (.invalidUri (Fault.message .badHostOrPort t')) := by
    rw [parse?_eq, hc']
  rcases h "nats" "user" "secret" "" "host:x" (by simp [Address.ends]) (by simp) with
    ⟨u, u', hu, -⟩ | ⟨e, e', he, he', hm⟩
  · cases ht.symm.trans hu
  · obtain rfl := Except.error.inj (ht.symm.trans he)
    obtain rfl := Except.error.inj (ht'.symm.trans he')
    exact absurd (message_eq_iff.1 hm) (by decide)

end ServerUri

end Herald
