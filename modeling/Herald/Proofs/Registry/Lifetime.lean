import Herald.Proofs.Registry.Lookup
import Mathlib.Data.List.Induction

namespace Herald.Registry

variable {κ : Type}

namespace Op

def message? (sid : Nat) : Op κ → Option Message
  | .dispatch m => if m.sid = sid then some m else none
  | _ => none

def cap? (sid : Nat) : Op κ → Option Nat
  | .unsubscribe n max => if n = sid then some max else none
  | _ => none

end Op

def messages (sid : Nat) (ops : List (Op κ)) : List Message := ops.filterMap (Op.message? sid)

def cap (sid : Nat) (ops : List (Op κ)) : Nat := (ops.filterMap (Op.cap? sid)).getLast?.getD 0

def Op.Ends (sid : Nat) (before : List (Op κ)) : Op κ → Prop
  | .dispatch m => m.sid = sid ∧ (messages sid before).length + 1 = cap sid before
  | .unsubscribe n max => n = sid ∧ (max = 0 ∨ max ≤ (messages sid before).length)
  | _ => False

def Lasts (sid : Nat) (ops : List (Op κ)) : Prop :=
  ∀ before op after, ops = before ++ op :: after → ¬op.Ends sid before

theorem lasts_nil (sid : Nat) : Lasts sid ([] : List (Op κ)) := by
  intro before op after h
  cases before <;> cases h

theorem lasts_snoc {sid : Nat} {ops : List (Op κ)} {op : Op κ} :
    Lasts sid (ops ++ [op]) ↔ Lasts sid ops ∧ ¬op.Ends sid ops :=
  forall_split_snoc

theorem messages_snoc (sid : Nat) (ops : List (Op κ)) (op : Op κ) :
    messages sid (ops ++ [op]) = messages sid ops ++ (op.message? sid).toList := by
  simp only [messages, List.filterMap_append]
  rfl

theorem cap_snoc (sid : Nat) (ops : List (Op κ)) (op : Op κ) :
    cap sid (ops ++ [op]) = (op.cap? sid).getD (cap sid ops) := by
  simp only [cap, List.filterMap_append]
  cases h : op.cap? sid <;> simp [h]

theorem Op.Timing.idle {op : Op κ} (h : op.Timing) (sid : Nat) (before : List (Op κ)) :
    op.message? sid = none ∧ op.cap? sid = none ∧ ¬op.Ends sid before := by
  cases op with
  | token | arm | claim | cancelAll => exact ⟨rfl, rfl, id⟩
  | insert | unsubscribe | dispatch => exact h.elim

structure After (ops : List (Op κ)) (start s : Subscription κ) : Prop where
  sid : s.sid = start.sid
  subject : s.subject = start.subject
  queue : s.queue = start.queue
  callback : s.callback = start.callback
  received : s.received = (messages start.sid ops).length
  max : s.max = cap start.sid ops

variable {r : Registry κ}

theorem After.dispatch_ends {ops : List (Op κ)} {start s : Subscription κ} (h : After ops start s)
    {m : Message} (hm : m.sid = start.sid) :
    s.received + 1 = s.max ↔ (Op.dispatch m : Op κ).Ends start.sid ops := by
  rw [h.received, h.max]
  exact (and_iff_right hm).symm

theorem After.unsubscribe_ends {ops : List (Op κ)} {start s : Subscription κ}
    (h : After ops start s) (max : Nat) : max = 0 ∨ max ≤ s.received ↔
      (Op.unsubscribe start.sid max : Op κ).Ends start.sid ops := by
  rw [h.received]
  exact (and_iff_right rfl).symm

/-- An operation that ends a subscription takes it out of the registry, and no other does. -/
theorem After.apply {ops : List (Op κ)} {start s : Subscription κ} (h : After ops start s)
    (hr : r.Valid) (hs : r.find? start.sid = some s) (op : Op κ) :
    (op.Ends start.sid ops ∧ (r.apply op).2.find? start.sid = none) ∨
      ¬op.Ends start.sid ops ∧ ∃ s', (r.apply op).2.find? start.sid = some s' ∧
        After (ops ++ [op]) start s' := by
  have hsame {s' : Subscription κ} (hm : op.message? start.sid = none)
      (hc : op.cap? start.sid = none) (he : s' = { s with timeout := s'.timeout }) :
      After (ops ++ [op]) start s' := by
    rw [he]
    refine ⟨h.sid, h.subject, h.queue, h.callback, ?_, ?_⟩
    · rw [messages_snoc, hm]
      simpa using h.received
    · rw [cap_snoc, hc]
      exact h.max
  by_cases ht : op.Timing
  · obtain ⟨hm, hc, he⟩ := ht.idle start.sid ops
    obtain ⟨f, hf⟩ := ht.find? r start.sid
    rw [hs] at hf
    exact .inr ⟨he, _, hf, hsame hm hc rfl⟩
  cases op with
  | insert subject queue callback =>
    have hle := hr.sid_le hs
    refine .inr ⟨id, s, ?_, hsame rfl rfl rfl⟩
    exact (Valid.find?_insert_of_le hle subject queue callback).trans hs
  | unsubscribe n max =>
    have hf := find?_unsubscribe r n max start.sid
    by_cases hn : n = start.sid
    · subst hn
      rw [if_pos rfl, hs, Option.bind_some] at hf
      by_cases he : (Op.unsubscribe start.sid max : Op κ).Ends start.sid ops
      · exact .inl ⟨he, hf.trans (if_pos ((h.unsubscribe_ends max).2 he))⟩
      · refine .inr ⟨he, _, hf.trans (if_neg (mt (h.unsubscribe_ends max).1 he)), ?_⟩
        refine ⟨h.sid, h.subject, h.queue, h.callback, ?_, ?_⟩
        · rw [messages_snoc]
          simpa [Op.message?] using h.received
        · rw [cap_snoc]
          simp [Op.cap?]
    · rw [if_neg hn] at hf
      refine .inr ⟨fun he ↦ hn he.1, s, hf.trans hs, hsame rfl (if_neg hn) rfl⟩
  | dispatch m =>
    have hf := hr.find?_dispatch m start.sid
    by_cases hm : m.sid = start.sid
    · rw [if_pos hm, hs, Option.bind_some] at hf
      by_cases he : (Op.dispatch m : Op κ).Ends start.sid ops
      · exact .inl ⟨he, hf.trans (if_pos ((h.dispatch_ends hm).2 he))⟩
      · refine .inr ⟨he, _, hf.trans (if_neg (mt (h.dispatch_ends hm).1 he)), ?_⟩
        refine ⟨h.sid, h.subject, h.queue, h.callback, ?_, ?_⟩
        · rw [messages_snoc]
          simp [Op.message?, hm, h.received]
        · rw [cap_snoc]
          exact h.max
    · rw [if_neg hm] at hf
      refine .inr ⟨fun he ↦ hm he.1, s, hf.trans hs, hsame (if_neg hm) rfl rfl⟩
  | token | arm | claim | cancelAll => exact (ht trivial).elim

/-- How a subscription fares in operations after it is begun: it is live as long as none of them
has ended it, and then it is as the operations alone tell. -/
inductive Fares (r : Registry κ) (ops : List (Op κ)) (start : Subscription κ) : Prop
  | live (s : Subscription κ) : Lasts start.sid ops → r.find? start.sid = some s →
    After ops start s → Fares r ops start
  | ended : ¬Lasts start.sid ops → r.Gone start.sid → Fares r ops start

theorem Fares.apply {ops : List (Op κ)} {start : Subscription κ} (h : Fares r ops start)
    (hr : r.Valid) (op : Op κ) : Fares (r.apply op).2 (ops ++ [op]) start := by
  have hc := hr.continues_apply op
  cases h with
  | live s hl hs ha =>
    rcases ha.apply hr hs op with ⟨he, hn⟩ | ⟨he, s', hs', ha'⟩
    · have hle := Nat.le_trans (hr.sid_le hs) hc.lastSid_le
      exact .ended (fun hl' ↦ (lasts_snoc.1 hl').2 he) ⟨hle, hn⟩
    · exact .live s' (lasts_snoc.2 ⟨hl, he⟩) hs' ha'
  | ended hl hg => exact .ended (fun hl' ↦ hl (lasts_snoc.1 hl').1) (hg.continue hc)

theorem Valid.fares (h : r.Valid) (subject : String) (queue : Option String) (callback : κ)
    (ops : List (Op κ)) : Fares ((r.insert subject queue callback).2.run ops).2 ops
      { sid := r.lastSid + 1, subject, queue, callback } := by
  induction ops using List.reverseRecOn with
  | nil =>
    refine .live _ (lasts_nil _) (h.find?_insert_fresh subject queue callback) ?_
    exact ⟨rfl, rfl, rfl, rfl, rfl, rfl⟩
  | append_singleton ops op ih =>
    rw [run_snoc]
    exact ih.apply ((h.insert subject queue callback).run ops) op

def Answer.delivered? (sid : Nat) : Answer κ → Option Message
  | .dispatched (.deliver _ m _) => if m.sid = sid then some m else none
  | _ => none

def delivered (sid : Nat) (answers : List (Answer κ)) : List Message :=
  answers.filterMap (Answer.delivered? sid)

theorem delivered_snoc (sid : Nat) (answers : List (Answer κ)) (answer : Answer κ) :
    delivered sid (answers ++ [answer]) =
      delivered sid answers ++ (answer.delivered? sid).toList := by
  simp only [delivered, List.filterMap_append]
  rfl

/-- A message goes to its subscription, if that is live. -/
theorem Valid.delivered? (h : r.Valid) (op : Op κ) (sid : Nat) :
    (r.apply op).1.delivered? sid =
      if (r.find? sid).isSome then op.message? sid else none := by
  cases op with
  | dispatch m =>
    simp only [Registry.apply]
    by_cases hm : m.sid = sid
    · subst hm
      cases hs : r.find? m.sid with
      | none =>
        rw [Valid.dispatch_of_none hs]
        rfl
      | some s =>
        rw [h.dispatch_eq hs]
        simp [Answer.delivered?, Op.message?]
    · cases hs : r.find? m.sid with
      | none =>
        rw [Valid.dispatch_of_none hs]
        simp [Answer.delivered?, Op.message?, hm]
      | some s =>
        rw [h.dispatch_eq hs]
        simp [Answer.delivered?, Op.message?, hm]
  | insert | unsubscribe | token | arm | claim | cancelAll =>
    simp [Registry.apply, Answer.delivered?, Op.message?]

theorem Fares.live_iff {ops : List (Op κ)} {start : Subscription κ} (h : Fares r ops start) :
    (r.find? start.sid).isSome ↔ Lasts start.sid ops := by
  cases h with
  | live s hl hs => simp [hs, hl]
  | ended hl hg => simp [hg.2, hl]

section

variable (h : r.Valid) (subject : String) (queue : Option String) (callback : κ)

include h

theorem Valid.delivered_snoc (ops : List (Op κ)) (op : Op κ) :
    (Lasts (r.lastSid + 1) ops →
      delivered (r.lastSid + 1) ((r.insert subject queue callback).2.run (ops ++ [op])).1 =
        delivered (r.lastSid + 1) ((r.insert subject queue callback).2.run ops).1 ++
          (op.message? (r.lastSid + 1)).toList) ∧
    (¬Lasts (r.lastSid + 1) ops →
      delivered (r.lastSid + 1) ((r.insert subject queue callback).2.run (ops ++ [op])).1 =
        delivered (r.lastSid + 1) ((r.insert subject queue callback).2.run ops).1) := by
  have hv := (h.insert subject queue callback).run ops
  have hl := (h.fares subject queue callback ops).live_iff
  simp only at hl
  rw [run_snoc, Registry.delivered_snoc, hv.delivered?]
  refine ⟨fun hn ↦ ?_, fun hn ↦ ?_⟩
  · rw [if_pos (hl.2 hn)]
  · rw [if_neg (mt hl.1 hn)]
    exact List.append_nil _

end

end Herald.Registry
