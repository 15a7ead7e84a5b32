import Herald.Proofs.Client.Announcements

namespace Herald

variable {κ : Type}

def Parcel.isFarewell (sid : Nat) : Parcel Command → Bool
  | .command c => c.isFarewell sid
  | .ping => false

def Turn.unsubscribes? : Turn κ → Option Nat
  | .event (.unsubscribe sid _) => some sid
  | _ => none

theorem Registry.gone_unsubscribe {r : Registry κ} {sid : Nat} (h : sid ≤ r.lastSid) :
    (r.unsubscribe sid 0).2.Gone sid := by
  refine ⟨unsubscribe_lastSid r sid 0 ▸ h, ?_⟩
  rw [find?_unsubscribe, if_pos rfl]
  cases r.find? sid <;> rfl

namespace Client

variable {t : Turn κ} {r r' : Registry κ} {sid : Nat}

/-- What a client tells the server to end at once has ended. -/
theorem Acts.farewell_gone {ops : List (Use κ)} (ha : Acts t r ops r') (hr : r.Valid)
    (hk : ∀ sid ∈ t.unsubscribes?, sid ≤ r.lastSid) {command : Command}
    (hc : command ∈ ops.flatMap Outbox.Op.commands) (hf : command.isFarewell sid) :
    r'.Gone sid := by
  induction ha with
  | nil => cases hc
  | @use _ _ op _ ho _ ih =>
    rw [List.flatMap_cons] at hc
    rcases List.mem_append.1 hc with hc | hc
    · rw [command.isFarewell_of_sid? (by simp [ho.commands hc])] at hf
      cases hf
    · exact ih hr hk hc
  | time ho _ ih =>
    refine ih (ho.valid hr) (fun n hn ↦ ?_) hc
    rw [ho.lastSid]
    exact hk n hn
  | subscribe _ _ ih =>
    rcases List.mem_cons.1 hc with rfl | hc
    · cases hf
    · exact ih (hr.insert _ _ _) (fun n hn ↦ Nat.le_succ_of_le (hk n hn)) hc
  | @unsubscribe r _ n max _ hcaps ha ih =>
    rcases List.mem_cons.1 hc with rfl | hc
    · have hle : n ≤ r.lastSid := by
        rcases hcaps with rfl | ⟨s, hs, -⟩
        · exact hk n rfl
        · exact hr.sid_le hs
      obtain ⟨rfl, rfl⟩ : n = sid ∧ max = 0 := by
        simpa [Command.isFarewell, Option.filter_some] using hf
      exact (Registry.gone_unsubscribe hle).continue ha.continues
    · refine ih (hr.unsubscribe n max) (fun m hm ↦ ?_) hc
      rw [Registry.unsubscribe_lastSid]
      exact hk m hm

/-- What the handshake says about a cap is never taken for the end of a subscription. -/
theorem handshake_unsub {c : Client κ} (hr : c.registry.Valid) {uri : ServerUri}
    {max : Option Nat} (hc : .unsub sid max ∈ c.handshake uri) : ∃ n, max = some n ∧ 0 < n := by
  rcases List.mem_cons.1 hc with he | hc
  · cases he
  · obtain ⟨a, ha, hc⟩ := List.mem_flatMap.1 hc
    rcases List.mem_cons.1 hc with he | hc
    · cases he
    · obtain ⟨n, hn, he⟩ := List.mem_map.1 (Option.toList_map .. ▸ hc)
      obtain ⟨-, rfl⟩ := Command.unsub.inj he
      exact ⟨n, rfl, hr.remaining_pos ha (Option.mem_toList.1 hn)⟩

theorem handshake_isFarewell {c : Client κ} (hr : c.registry.Valid) {uri : ServerUri}
    {command : Command} (hc : command ∈ c.handshake uri) : command.isFarewell sid = false := by
  cases command with
  | unsub n max =>
    obtain ⟨m, rfl, hm⟩ := handshake_unsub hr hc
    simp [Command.isFarewell, hm, Option.filter_some]
  | connect | pub | sub | ping | pong => rfl

theorem turn_farewell_gone {c : Client κ} (hr : c.registry.Valid)
    (hk : ∀ sid ∈ t.unsubscribes?, sid ≤ c.registry.lastSid) {command : Command}
    (hc : command ∈ (c.turnUses t).flatMap Outbox.Op.commands) (hf : command.isFarewell sid) :
    (c.turn t).client.registry.Gone sid := by
  cases turn_kind hr t with
  | binds _ uri _ _ _ hu =>
    rw [hu] at hc
    have hc : command ∈ c.handshake uri := by simpa [Outbox.Op.commands] using hc
    rw [handshake_isFarewell hr hc] at hf
    cases hf
  | hears m _ hu hreg =>
    rw [hu] at hc
    rcases deliverUses_cases hr m with hd | ⟨hd, hg⟩ <;> rw [hd] at hc
    · cases hc
    · obtain rfl := List.mem_singleton.1 hc
      obtain rfl : m.sid = sid := by simpa [Command.isFarewell] using hf
      exact hreg ▸ hg
  | acts _ ha => exact ha.farewell_gone hr hk hc hf

structure Parted (log : List (Sent Command)) (c : Client κ) : Prop where
  written : ∀ sent ∈ log, ∀ sid, sent.parcel.isFarewell sid → c.registry.Gone sid
  waiting : ∀ p ∈ c.outbox.pending, ∀ sid, p.isFarewell sid → c.registry.Gone sid

theorem Parted.turn {log : List (Sent Command)} {c : Client κ} (h : Parted log c)
    (hr : c.registry.Valid) (hk : ∀ sid ∈ t.unsubscribes?, sid ≤ c.registry.lastSid) :
    Parted (log ++ (c.turn t).written) (c.turn t).client := by
  have hf := c.turn_follows t
  have hc := turn_continues hr t
  refine ⟨fun sent hs sid hp ↦ ?_, fun p hm sid hp ↦ ?_⟩
  · rcases List.mem_append.1 hs with hs | hs
    · exact (h.written sent hs sid hp).continue hc
    rw [hf.written] at hs
    rcases Outbox.mem_handed_run hs with he | hw | ⟨command, hm, he⟩
    · rw [he] at hp
      cases hp
    · exact (h.waiting _ hw sid hp).continue hc
    · rw [he] at hp
      exact turn_farewell_gone hr hk hm hp
  · rw [hf.outbox] at hm
    rcases Outbox.mem_pending_run hm with rfl | hw | ⟨command, hsend, rfl⟩
    · cases hp
    · exact (h.waiting _ hw sid hp).continue hc
    · exact turn_farewell_gone hr hk (Outbox.mem_commands_of_send hsend) hp

def returned (c : Client κ) : Turn κ → List Nat
  | .event e =>
    match (c.step e).1 with
    | .sid n => [n]
    | _ => []
  | .broken => []

/-- In several turns the application unsubscribes only from what it was given before. -/
def Knows (c : Client κ) (given : List Nat) : List (Turn κ) → Prop
  | [] => True
  | t :: ts => (∀ sid ∈ t.unsubscribes?, sid ∈ given) ∧
    (c.turn t).client.Knows (given ++ c.returned t) ts

instance Knows.decidable : (c : Client κ) → (given : List Nat) → (ts : List (Turn κ)) →
    Decidable (c.Knows given ts)
  | _, _, [] => inferInstanceAs (Decidable True)
  | c, given, t :: ts =>
    have := Knows.decidable (c.turn t).client (given ++ c.returned t) ts
    inferInstanceAs (Decidable ((∀ sid ∈ t.unsubscribes?, sid ∈ given) ∧ _))

theorem subscribe_lastSid (c : Client κ) (subject : String) (queue : Option String)
    (max : Option Nat) (callback : κ) : (c.subscribe subject queue max callback).1 ≤
      (c.subscribe subject queue max callback).2.client.registry.lastSid := by
  unfold subscribe
  by_cases hs : subject = ""
  · rw [if_pos hs]
    exact Nat.zero_le _
  · rw [if_neg hs]
    cases max with
    | none => exact Nat.le_refl _
    | some max =>
      have hu := Registry.unsubscribe_lastSid
        (c.registry.insert subject (queue.filter (· ≠ "")) callback).2 (c.registry.lastSid + 1) max
      exact Nat.le_of_eq hu.symm

theorem step_lastSid {c : Client κ} {e : Event κ} {n : Nat} (h : (c.step e).1 = .sid n) :
    n ≤ (c.step e).2.client.registry.lastSid := by
  cases e with
  | subscribe subject queue max callback =>
    obtain rfl := Answer.sid.inj h
    exact c.subscribe_lastSid subject queue max callback
  | request inbox subject payload queue max callback =>
    have h : (c.request inbox subject payload queue max callback).1 = n := Answer.sid.inj h
    simp only [step]
    unfold request at h ⊢
    by_cases hs : subject = ""
    · rw [if_pos hs] at h ⊢
      exact h ▸ Nat.zero_le _
    · rw [if_neg hs] at h ⊢
      have hp := publish_registry (c.subscribe inbox queue max callback).2.client subject
        (some inbox) payload
      have hle := h ▸ c.subscribe_lastSid inbox queue max callback
      exact hp.symm ▸ hle
  | begin uri =>
    simp only [step] at h
    split at h <;> cases h
  | connected uri =>
    simp only [step] at h
    split at h <;> cases h
  | setErrorHandler | setConnectHandler | publish | publishAcked | flush | unsubscribe
  | setTimeout | stop | connectFailed | frame | lost | wake | attemptFailed | expire => cases h

theorem returned_le {c : Client κ} {n : Nat} (h : n ∈ c.returned t) :
    n ≤ (c.turn t).client.registry.lastSid := by
  cases t with
  | event e =>
    simp only [returned] at h
    split at h
    · rename_i m hs
      obtain rfl := List.mem_singleton.1 h
      exact step_lastSid hs
    · cases h
  | broken => cases h

theorem Parted.turns {log : List (Sent Command)} {c : Client κ} (h : Parted log c)
    (hr : c.registry.Valid) {given : List Nat} (hg : ∀ n ∈ given, n ≤ c.registry.lastSid)
    {ts : List (Turn κ)} (hk : c.Knows given ts) :
    Parted (log ++ (c.turns ts).1.flatMap Reaction.written) (c.turns ts).2 := by
  induction ts generalizing c log given with
  | nil => exact (List.append_nil log).symm ▸ h
  | cons t ts ih =>
    have ht := h.turn hr fun sid hs ↦ hg sid (hk.1 sid hs)
    have hs := ih ht (turn_valid hr t) (List.forall_mem_append.2
      ⟨fun n hn ↦ Nat.le_trans (hg n hn) (turn_continues hr t).lastSid_le,
        fun n hn ↦ returned_le hn⟩) hk.2
    rw [List.append_assoc] at hs
    exact hs

/-- A subscription with a new number is the one that the application begins. -/
theorem Acts.origin {ops : List (Use κ)} (ha : Acts t r ops r') (hr : r.Valid)
    {s : Subscription κ} (hs : r'.find? sid = some s) (hn : r.lastSid < sid) :
    t.subscribes? = some (s.subject, s.queue, s.callback) := by
  induction ha with
  | nil =>
    have hle := hr.sid_le hs
    omega
  | use _ _ ih => exact ih hr hs hn
  | time ho _ ih => exact ih (ho.valid hr) hs (by rwa [ho.lastSid])
  | @subscribe r _ subject queue callback _ hsub ha ih =>
    by_cases he : r.lastSid + 1 = sid
    · obtain ⟨s', hs', hl⟩ := ha.continues.find? sid s (Nat.le_of_eq he.symm) hs
      rw [← he, hr.find?_insert_fresh] at hs'
      rw [← Option.some.inj hs'] at hl
      rw [hsub, hl.subject, hl.queue, hl.callback]
    · have hn : r.lastSid + 1 < sid := by omega
      exact ih (hr.insert _ _ _) hs hn
  | unsubscribe _ _ ih =>
    exact ih (hr.unsubscribe _ _) hs (by rwa [Registry.unsubscribe_lastSid])

theorem turn_origin {c : Client κ} (hr : c.registry.Valid) {s : Subscription κ}
    (hs : (c.turn t).client.registry.find? sid = some s) (hn : c.registry.lastSid < sid) :
    t.subscribes? = some (s.subject, s.queue, s.callback) := by
  have hle := (turn_valid hr t).sid_le hs
  cases turn_kind hr t with
  | binds _ _ _ _ _ _ hreg =>
    rw [hreg] at hle
    omega
  | hears m _ _ hreg =>
    rw [hreg, Registry.dispatch_lastSid] at hle
    omega
  | acts _ ha => exact ha.origin hr hs hn

theorem step_subscribes {c : Client κ} {e : Event κ} {x : String × Option String × κ}
    (h : (.event e : Turn κ).subscribes? = some x) :
    (c.step e).1 = .sid (c.registry.lastSid + 1) := by
  cases e with
  | subscribe subject queue max callback =>
    simp only [Turn.subscribes?] at h
    split at h
    · cases h
    · rename_i hs
      simp only [step, subscribe, if_neg hs]
      rfl
  | request inbox subject payload queue max callback =>
    simp only [Turn.subscribes?] at h
    split at h
    · cases h
    · rename_i hs
      obtain ⟨hs, hi⟩ := not_or.1 hs
      simp only [step, request, subscribe, if_neg hs, if_neg hi]
      rfl
  | setErrorHandler | setConnectHandler | publish | publishAcked | flush | unsubscribe
  | setTimeout | stop | begin | connected | connectFailed | frame | lost | wake | attemptFailed
  | expire => cases h

/-- A subscription keeps the subject, the queue group and the callback that it was begun with. -/
theorem subscription_kept {c : Client κ} (hr : c.registry.Valid) {e : Event κ} {subject : String}
    {queue : Option String} {callback : κ}
    (h : (.event e : Turn κ).subscribes? = some (subject, queue, callback)) (after : List (Turn κ))
    {s : Subscription κ} (hs : s ∈ ((c.step e).2.client.turns after).2.registry.subs)
    (hn : s.sid = c.registry.lastSid + 1) :
    s.subject = subject ∧ s.queue = queue ∧ s.callback = callback := by
  have hd : (c.step e).2.client.registry.Valid := turn_valid hr (.event e)
  have hle := step_lastSid (step_subscribes (c := c) h)
  have hf := (turns_valid hd after).mem_subs.1 hs
  rw [hn] at hf
  obtain ⟨s₀, hs₀, hl⟩ := (turns_continues hd after).find? _ s hle hf
  have ho := turn_origin (t := .event e) hr hs₀ (Nat.lt_succ_self _)
  rw [h] at ho
  obtain ⟨rfl, rfl, rfl⟩ : subject = s₀.subject ∧ queue = s₀.queue ∧ callback = s₀.callback := by
    simpa using ho
  exact ⟨hl.subject, hl.queue, hl.callback⟩

/-- What a client writes on a connection tells the server of its live subscriptions. Each has been
announced once, as it was begun, and is not told to have ended. -/
theorem server_view_mirrors (options : ClientOptions) (ts : List (Turn κ)) :
    let c : Client κ := (Client.turns { options } ts).2
    let log := (Client.turns ({ options } : Client κ) ts).1.flatMap Reaction.written
    (.broken ∉ ts → c.phase = .connected → c.outbox.target.isSome) ∧
      (∀ w, c.outbox.target = some w → ∀ s ∈ c.registry.subs,
        Parcel.subs s.sid (Sent.received log w.number) = [.sub s.subject s.queue s.sid]) ∧
      (∀ e subject queue callback,
        (.event e : Turn κ).subscribes? = some (subject, queue, callback) →
        ∃ sid, (c.step e).1 = .sid sid ∧
          ∀ after, ∀ s ∈ ((c.step e).2.client.turns after).2.registry.subs, s.sid = sid →
            s.subject = subject ∧ s.queue = queue ∧ s.callback = callback) ∧
      (∀ sid, c.registry.Gone sid → ∀ after,
        Parcel.subs sid (((c.turns after).1.flatMap Reaction.written).map (·.parcel)) = []) ∧
      (∀ uri sid max, .unsub sid max ∈ c.handshake uri → ∃ n, max = some n ∧ 0 < n) ∧
      (Client.Knows ({ options } : Client κ) [] ts →
        ∀ s ∈ c.registry.subs, ∀ sent ∈ log, sent.parcel.isFarewell s.sid = false) := by
  intro c log
  have hr : c.registry.Valid := turns_valid .new ts
  have hl : Linked c.outbox c.standing := linked_turns (c := { options }) rfl ts
  have hm : Mirrors log c := (Mirrors.new options).turns .new rfl ts
  refine ⟨target_isSome_turns options, ?_, ?_, ?_, ?_, ?_⟩
  · intro w hw s hs
    exact (hm.announced w hw).once s hs
  · intro e subject queue callback h
    refine ⟨_, step_subscribes h, fun after s hs hn ↦ ?_⟩
    exact subscription_kept hr h after hs hn
  · intro sid hg after
    exact turns_subs_of_gone hm hr hl after hg
  · intro uri sid max hc
    exact handshake_unsub hr hc
  · intro hk s hs sent hsent
    have hnew : Parted [] ({ options } : Client κ) := ⟨nofun, nofun⟩
    have hgiven : ∀ n ∈ ([] : List Nat), n ≤ ({ options } : Client κ).registry.lastSid := by simp
    have hp : Parted log c := hnew.turns .new hgiven hk
    by_contra hf
    have hg := hp.written sent hsent s.sid (by simpa using hf)
    cases (hr.mem_subs.1 hs).symm.trans hg.2

def resubscribed : List (Turn Nat) :=
  [.event (.begin .localhost), .event (.connected .localhost),
    .event (.subscribe "news" none none 7), .event (.lost 1), .event (.unsubscribe 1 5),
    .event (.wake 0), .event (.connected .localhost)]

theorem server_view_mirrors_resubscribed :
    let c : Client Nat := (Client.turns { options := {} } resubscribed).2
    let log := (Client.turns ({ options := {} } : Client Nat) resubscribed).1.flatMap
      Reaction.written
    c.outbox.target = some ⟨2, true⟩ ∧
      Client.Knows ({ options := {} } : Client Nat) [] resubscribed ∧
      c.registry.subs.map (·.sid) = [1] ∧
      ∀ s ∈ c.registry.subs,
        Parcel.subs s.sid (Sent.received log 2) = [.sub s.subject s.queue s.sid] ∧
        ∀ sent ∈ log, sent.parcel.isFarewell s.sid = false := by
  intro c log
  have hw : c.outbox.target = some ⟨2, true⟩ := by decide
  have hk : Client.Knows ({ options := {} } : Client Nat) [] resubscribed := by decide
  obtain ⟨-, hs, -, -, -, hf⟩ := server_view_mirrors {} resubscribed
  exact ⟨hw, hk, by decide, fun s hm ↦ ⟨hs _ hw s hm, hf hk s hm⟩⟩

end Client

end Herald
