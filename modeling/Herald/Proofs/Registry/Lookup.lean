import Herald.Registry
import Mathlib.Data.List.Nodup

namespace Herald

variable {κ : Type}

structure Subscription.Alike (s s' : Subscription κ) : Prop where
  subject : s'.subject = s.subject
  queue : s'.queue = s.queue
  callback : s'.callback = s.callback

theorem Subscription.Alike.refl (s : Subscription κ) : s.Alike s := ⟨rfl, rfl, rfl⟩

theorem Subscription.Alike.trans {s s' s'' : Subscription κ} (h : s.Alike s')
    (h' : s'.Alike s'') : s.Alike s'' :=
  ⟨h'.subject.trans h.subject, h'.queue.trans h.queue, h'.callback.trans h.callback⟩

namespace Registry

def run (r : Registry κ) : List (Op κ) → List (Answer κ) × Registry κ
  | [] => ([], r)
  | op :: ops =>
    let (answer, r) := r.apply op
    let (more, r) := r.run ops
    (answer :: more, r)

theorem run_append (r : Registry κ) (xs ys : List (Op κ)) :
    r.run (xs ++ ys) = ((r.run xs).1 ++ ((r.run xs).2.run ys).1, ((r.run xs).2.run ys).2) := by
  induction xs generalizing r with
  | nil => rfl
  | cons op xs ih => simp [run, ih]

theorem run_snoc (r : Registry κ) (ops : List (Op κ)) (op : Op κ) :
    r.run (ops ++ [op]) =
      ((r.run ops).1 ++ [((r.run ops).2.apply op).1], ((r.run ops).2.apply op).2) := by
  rw [run_append]
  rfl

/-- What holds of every element and all before it, when one more comes. -/
theorem forall_split_snoc {α : Type} {P : List α → α → Prop} {xs : List α} {x : α} :
    (∀ before y after, xs ++ [x] = before ++ y :: after → P before y) ↔
      (∀ before y after, xs = before ++ y :: after → P before y) ∧ P xs x := by
  constructor
  · intro h
    refine ⟨?_, h xs x [] rfl⟩
    rintro before y after rfl
    exact h before y (after ++ [x]) (by simp)
  · rintro ⟨h, hx⟩ before y after he
    rcases List.eq_nil_or_concat after with rfl | ⟨after, last, rfl⟩
    · obtain ⟨rfl, hl⟩ := List.append_inj' he rfl
      exact List.singleton_inj.1 hl ▸ hx
    · refine h before y after ?_
      rw [List.concat_eq_append, ← List.cons_append, ← List.append_assoc] at he
      exact (List.append_inj' he rfl).1

/-- What holds after every beginning, when one more comes. -/
theorem forall_prefix_snoc {α : Type} {P : List α → Prop} {xs : List α} {x : α} :
    (∀ before after, xs ++ [x] = before ++ after → P before) ↔
      (∀ before after, xs = before ++ after → P before) ∧ P (xs ++ [x]) := by
  constructor
  · intro h
    refine ⟨?_, h (xs ++ [x]) [] (List.append_nil _).symm⟩
    rintro before after rfl
    exact h before (after ++ [x]) (List.append_assoc ..)
  · rintro ⟨h, hx⟩ before after he
    rcases List.eq_nil_or_concat after with rfl | ⟨after, last, rfl⟩
    · rw [List.append_nil] at he
      exact he ▸ hx
    · refine h before after ?_
      rw [List.concat_eq_append, ← List.append_assoc] at he
      exact (List.append_inj' he rfl).1

def Op.Timing : Op κ → Prop
  | .token _ | .arm .. | .claim .. | .cancelAll => True
  | _ => False

structure Valid (r : Registry κ) : Prop where
  ordered : (r.subs.map (·.sid)).Pairwise (· < ·)
  bounds : ∀ s ∈ r.subs, 1 ≤ s.sid ∧ s.sid ≤ r.lastSid
  allowed : ∀ s ∈ r.subs, s.max = 0 ∨ s.received < s.max

variable {r : Registry κ}

theorem find?_eq_some {sid : Nat} {s : Subscription κ} (h : r.find? sid = some s) :
    s ∈ r.subs ∧ s.sid = sid :=
  ⟨List.mem_of_find?_eq_some h, by simpa using List.find?_some h⟩

theorem find?_erase (r : Registry κ) (a b : Nat) :
    (r.erase a).find? b = if a = b then none else r.find? b := by
  unfold find? erase
  rw [List.find?_filter]
  split
  · rename_i h
    subst h
    exact List.find?_eq_none.2 (by simp)
  · rename_i h
    congr 1
    funext s
    by_cases hs : s.sid = b
    · simp [hs, Ne.symm h]
    · simp [hs]

theorem find?_update (r : Registry κ) (a b : Nat) {f : Subscription κ → Subscription κ}
    (hf : ∀ s, (f s).sid = s.sid) :
    (r.update a f).find? b = if a = b then (r.find? b).map f else r.find? b := by
  have hp : (fun s : Subscription κ ↦ s.sid == b) ∘ (fun s ↦ if s.sid = a then f s else s) =
      fun s ↦ s.sid == b := by
    funext s
    by_cases hs : s.sid = a
    · simp [hs, hf]
    · simp [hs]
  unfold find? update
  rw [List.find?_map, hp]
  cases h : r.subs.find? (·.sid == b) with
  | none => simp
  | some s =>
    have hs : s.sid = b := (find?_eq_some h).2
    by_cases ha : a = b
    · simp [ha, hs]
    · simp [ha, hs, Ne.symm ha]

theorem find?_insert (r : Registry κ) (subject : String) (queue : Option String) (callback : κ)
    (b : Nat) : (r.insert subject queue callback).2.find? b =
      (r.find? b).or (if r.lastSid + 1 = b then
        some { sid := r.lastSid + 1, subject, queue, callback } else none) := by
  unfold find? insert
  rw [List.find?_append]
  by_cases hb : r.lastSid + 1 = b <;> simp [hb]

theorem find?_unsubscribe (r : Registry κ) (a max b : Nat) : (r.unsubscribe a max).2.find? b =
    if a = b then (r.find? b).bind fun s ↦
      if max = 0 ∨ max ≤ s.received then none else some { s with max }
    else r.find? b := by
  by_cases hb : a = b
  · subst hb
    unfold unsubscribe
    cases h : r.find? a with
    | none => simp [h]
    | some s =>
      simp only [if_pos, Option.bind_some]
      split
      · simp [find?_erase]
      · simp [find?_update, h]
  · rw [if_neg hb]
    unfold unsubscribe
    split
    · rfl
    · split
      · simp [find?_erase, hb]
      · simp [find?_update, hb]

theorem find?_unsubscribe_eq_some {a max b : Nat} {s' : Subscription κ}
    (h : (r.unsubscribe a max).2.find? b = some s') :
    ∃ s, r.find? b = some s ∧ s' = if a = b then { s with max } else s := by
  rw [find?_unsubscribe] at h
  by_cases hb : a = b
  · rw [if_pos hb] at h
    obtain ⟨s, hs, h⟩ := Option.bind_eq_some_iff.1 h
    split at h
    · cases h
    · exact ⟨s, hs, by rw [if_pos hb, Option.some.inj h]⟩
  · rw [if_neg hb] at h
    exact ⟨s', h, (if_neg hb).symm⟩

theorem unsubscribe_lastSid (r : Registry κ) (a max : Nat) :
    (r.unsubscribe a max).2.lastSid = r.lastSid := by
  unfold unsubscribe
  split
  · rfl
  · split <;> rfl

theorem dispatch_lastSid (r : Registry κ) (m : Message) :
    (r.dispatch m).2.lastSid = r.lastSid := by
  unfold dispatch
  split
  · rfl
  · dsimp only
    split
    · rfl
    · split <;> rfl

namespace Valid

theorem new : Valid ({} : Registry κ) where
  ordered := List.Pairwise.nil
  bounds := nofun
  allowed := nofun

theorem find?_eq_some_iff (h : r.Valid) {sid : Nat} {s : Subscription κ} :
    r.find? sid = some s ↔ s ∈ r.subs ∧ s.sid = sid := by
  refine ⟨find?_eq_some, ?_⟩
  rintro ⟨hs, rfl⟩
  have hn : (r.subs.map (·.sid)).Nodup := h.ordered.imp Nat.ne_of_lt
  cases hf : r.find? s.sid with
  | none => exact absurd (List.find?_eq_none.1 hf s hs) (by simp)
  | some t =>
    obtain ⟨ht, he⟩ := find?_eq_some hf
    rw [List.inj_on_of_nodup_map hn ht hs he]

theorem mem_subs (h : r.Valid) {s : Subscription κ} : s ∈ r.subs ↔ r.find? s.sid = some s := by
  rw [h.find?_eq_some_iff]
  simp

theorem sid_le (h : r.Valid) {sid : Nat} {s : Subscription κ} (hs : r.find? sid = some s) :
    sid ≤ r.lastSid := by
  obtain ⟨hm, he⟩ := find?_eq_some hs
  exact he ▸ (h.bounds s hm).2

theorem find?_fresh (h : r.Valid) {sid : Nat} (hs : r.lastSid < sid) : r.find? sid = none := by
  cases hf : r.find? sid with
  | none => rfl
  | some s =>
    have hle := h.sid_le hf
    omega

theorem find?_insert_fresh (h : r.Valid) (subject : String) (queue : Option String)
    (callback : κ) : (r.insert subject queue callback).2.find? (r.lastSid + 1) =
      some { sid := r.lastSid + 1, subject, queue, callback } := by
  rw [find?_insert, h.find?_fresh (Nat.lt_succ_self _), if_pos rfl]
  rfl

theorem find?_insert_of_le {sid : Nat} (hs : sid ≤ r.lastSid) (subject : String)
    (queue : Option String) (callback : κ) :
    (r.insert subject queue callback).2.find? sid = r.find? sid := by
  rw [find?_insert, if_neg (by omega), Option.or_none]

theorem insert (h : r.Valid) (subject : String) (queue : Option String) (callback : κ) :
    (r.insert subject queue callback).2.Valid where
  ordered := by
    simp only [Registry.insert, List.map_append, List.map_cons, List.map_nil, List.pairwise_append]
    refine ⟨h.ordered, List.pairwise_singleton _ _, ?_⟩
    intro a ha b hb
    obtain ⟨s, hs, rfl⟩ := List.mem_map.1 ha
    have hl := (h.bounds s hs).2
    have hb := List.mem_singleton.1 hb
    omega
  bounds s hs := by
    rcases List.mem_append.1 hs with hs | hs
    · have hb := h.bounds s hs
      simp only [Registry.insert]
      omega
    · rw [List.mem_singleton.1 hs]
      exact ⟨Nat.succ_pos _, Nat.le_refl _⟩
  allowed s hs := by
    rcases List.mem_append.1 hs with hs | hs
    · exact h.allowed s hs
    · exact .inl (by rw [List.mem_singleton.1 hs])

theorem erase (h : r.Valid) (a : Nat) : (r.erase a).Valid where
  ordered := h.ordered.sublist (List.filter_sublist.map _)
  bounds s hs := h.bounds s (List.mem_filter.1 hs).1
  allowed s hs := h.allowed s (List.mem_filter.1 hs).1

theorem map (h : r.Valid) {f : Subscription κ → Subscription κ} (hf : ∀ s, (f s).sid = s.sid)
    (ha : ∀ s ∈ r.subs, (f s).max = 0 ∨ (f s).received < (f s).max) :
    Valid { r with subs := r.subs.map f } where
  ordered := by
    have he : (r.subs.map f).map (·.sid) = r.subs.map (·.sid) := by
      simp [List.map_map, Function.comp_def, hf]
    exact he ▸ h.ordered
  bounds s hs := by
    obtain ⟨t, ht, rfl⟩ := List.mem_map.1 hs
    exact hf t ▸ h.bounds t ht
  allowed s hs := by
    obtain ⟨t, ht, rfl⟩ := List.mem_map.1 hs
    exact ha t ht

theorem update (h : r.Valid) (a : Nat) {f : Subscription κ → Subscription κ}
    (hf : ∀ s, (f s).sid = s.sid)
    (ha : ∀ s, r.find? a = some s → (f s).max = 0 ∨ (f s).received < (f s).max) :
    (r.update a f).Valid := by
  refine h.map (fun s ↦ ?_) fun s hs ↦ ?_
  · split
    · exact hf s
    · rfl
  · split
    · rename_i he
      exact ha s (h.find?_eq_some_iff.2 ⟨hs, he⟩)
    · exact h.allowed s hs

theorem unsubscribe (h : r.Valid) (a max : Nat) : (r.unsubscribe a max).2.Valid := by
  unfold Registry.unsubscribe
  split
  · exact h
  · rename_i s hs
    split
    · exact h.erase a
    · rename_i hm
      refine h.update a (fun _ ↦ rfl) fun t ht ↦ ?_
      rw [hs] at ht
      cases ht
      simp only
      omega

/-- A live subscription hears of its message, which is the last one if it fills the cap. -/
theorem dispatch_eq (h : r.Valid) {m : Message} {s : Subscription κ}
    (hs : r.find? m.sid = some s) : r.dispatch m =
      (.deliver s.callback m (decide (s.received + 1 = s.max)),
        if s.received + 1 = s.max then r.erase m.sid
        else r.update m.sid fun s' ↦ { s' with
          received := s.received + 1
          timeout := s'.timeout.filter (s.received + 1 < ·.expected) }) := by
  have ha := h.allowed s (find?_eq_some hs).1
  simp only [dispatch, hs]
  rw [if_neg (by omega)]
  by_cases he : s.received + 1 = s.max
  · rw [if_pos (by omega), if_pos he, decide_eq_true he]
  · rw [if_neg (by omega), if_neg he, decide_eq_false he]

theorem dispatch_of_none {m : Message} (hs : r.find? m.sid = none) :
    r.dispatch m = (.unknown, r) := by
  simp only [dispatch, hs]

theorem find?_dispatch (h : r.Valid) (m : Message) (b : Nat) : (r.dispatch m).2.find? b =
    if m.sid = b then (r.find? b).bind fun s ↦
      if s.received + 1 = s.max then none
      else some { s with
        received := s.received + 1
        timeout := s.timeout.filter (s.received + 1 < ·.expected) }
    else r.find? b := by
  cases hs : r.find? m.sid with
  | none =>
    rw [dispatch_of_none hs]
    split
    · rename_i hb
      subst hb
      simp [hs]
    · rfl
  | some s =>
    rw [h.dispatch_eq hs]
    by_cases hb : m.sid = b
    · subst hb
      by_cases he : s.received + 1 = s.max
      · simp [he, hs, find?_erase]
      · simp [he, hs, find?_update]
    · by_cases he : s.received + 1 = s.max
      · simp [he, find?_erase, hb]
      · simp [he, find?_update, hb]

theorem find?_dispatch_eq_some (h : r.Valid) {m : Message} {b : Nat} {s' : Subscription κ}
    (hs' : (r.dispatch m).2.find? b = some s') :
    ∃ s, r.find? b = some s ∧ s.Alike s' ∧ s'.max = s.max ∧
      s'.received = if m.sid = b then s.received + 1 else s.received := by
  rw [h.find?_dispatch] at hs'
  by_cases hb : m.sid = b
  · rw [if_pos hb] at hs'
    obtain ⟨s, hs, hs'⟩ := Option.bind_eq_some_iff.1 hs'
    split at hs'
    · cases hs'
    · obtain rfl := Option.some.inj hs'
      exact ⟨s, hs, ⟨rfl, rfl, rfl⟩, rfl, (if_pos hb).symm⟩
  · rw [if_neg hb] at hs'
    exact ⟨s', hs', .refl s', rfl, (if_neg hb).symm⟩

theorem dispatch (h : r.Valid) (m : Message) : (r.dispatch m).2.Valid := by
  cases hs : r.find? m.sid with
  | none => exact dispatch_of_none hs ▸ h
  | some s =>
    rw [h.dispatch_eq hs]
    have ha := h.allowed s (find?_eq_some hs).1
    by_cases he : s.received + 1 = s.max
    · simp only [if_pos he]
      exact h.erase _
    · simp only [if_neg he]
      refine h.update _ (fun _ ↦ rfl) fun t ht ↦ ?_
      rw [hs] at ht
      cases ht
      simp only
      omega

end Valid

/-- A timer operation changes nothing but the timeouts. -/
theorem Op.Timing.apply {op : Op κ} (h : op.Timing) (r : Registry κ) :
    ∃ f : Subscription κ → Option Timeout, ∃ lastToken, (r.apply op).2 =
      { r with subs := r.subs.map fun s ↦ { s with timeout := f s }, lastToken } := by
  have hid : r.subs.map (fun s ↦ { s with timeout := s.timeout }) = r.subs := List.map_id _
  have hup (sid : Nat) (t : Option Timeout) : r.update sid (fun s ↦ { s with timeout := t }) =
      { r with subs := r.subs.map fun s ↦
        { s with timeout := if s.sid = sid then t else s.timeout } } := by
    simp only [update]
    congr 2
    funext s
    split <;> rfl
  cases op with
  | token sid =>
    refine ⟨(·.timeout), (r.nextToken sid).2.lastToken, ?_⟩
    simp only [Registry.apply, nextToken, hid]
    split <;> rfl
  | arm sid timeout => exact ⟨_, r.lastToken, hup sid (some timeout)⟩
  | claim sid token =>
    simp only [Registry.apply, Registry.claim]
    split
    · exact ⟨(·.timeout), r.lastToken, by rw [hid]⟩
    · split
      · exact ⟨_, r.lastToken, hup sid none⟩
      · exact ⟨(·.timeout), r.lastToken, by rw [hid]⟩
  | cancelAll => exact ⟨fun _ ↦ none, r.lastToken, rfl⟩
  | insert | unsubscribe | dispatch => exact h.elim

theorem Op.Timing.lastSid {op : Op κ} (h : op.Timing) (r : Registry κ) :
    (r.apply op).2.lastSid = r.lastSid := by
  obtain ⟨f, lastToken, he⟩ := h.apply r
  rw [he]

theorem Op.Timing.find? {op : Op κ} (h : op.Timing) (r : Registry κ) (b : Nat) :
    ∃ f : Subscription κ → Option Timeout, (r.apply op).2.find? b =
      (r.find? b).map fun s ↦ { s with timeout := f s } := by
  obtain ⟨f, lastToken, he⟩ := h.apply r
  refine ⟨f, ?_⟩
  rw [he]
  simp only [Registry.find?, List.find?_map]
  rfl

theorem Op.Timing.valid {op : Op κ} (h : op.Timing) (hr : r.Valid) : (r.apply op).2.Valid := by
  obtain ⟨f, lastToken, he⟩ := h.apply r
  rw [he]
  have hm := hr.map (f := fun s ↦ { s with timeout := f s }) (fun _ ↦ rfl) hr.allowed
  exact ⟨hm.ordered, hm.bounds, hm.allowed⟩

theorem Valid.apply (h : r.Valid) (op : Op κ) : (r.apply op).2.Valid := by
  cases op with
  | insert subject queue callback => exact h.insert subject queue callback
  | unsubscribe sid max => exact h.unsubscribe sid max
  | dispatch m => exact h.dispatch m
  | token | arm | claim | cancelAll => exact Op.Timing.valid trivial h

theorem Valid.run (h : r.Valid) (ops : List (Op κ)) : (r.run ops).2.Valid := by
  induction ops generalizing r with
  | nil => exact h
  | cons op ops ih => exact ih (h.apply op)

theorem Valid.remaining_pos (h : r.Valid) {a : Announcement} (ha : a ∈ r.announcements) {n : Nat}
    (hn : a.remaining = some n) : 0 < n := by
  obtain ⟨s, hs, rfl⟩ := List.mem_map.1 ha
  have hl := h.allowed s hs
  simp only [Subscription.announcement] at hn
  split at hn
  · obtain rfl := Option.some.inj hn
    omega
  · cases hn

/-- Of the numbers that a registry has given out, a later one has live only what was live then. -/
structure Continues (r r' : Registry κ) : Prop where
  lastSid_le : r.lastSid ≤ r'.lastSid
  find? : ∀ sid s', sid ≤ r.lastSid → r'.find? sid = some s' →
    ∃ s, r.find? sid = some s ∧ s.Alike s'

namespace Continues

theorem refl (r : Registry κ) : r.Continues r :=
  ⟨Nat.le_refl _, fun _ s _ hs ↦ ⟨s, hs, .refl s⟩⟩

theorem trans {r' r'' : Registry κ} (h : r.Continues r') (h' : r'.Continues r'') :
    r.Continues r'' := by
  refine ⟨Nat.le_trans h.lastSid_le h'.lastSid_le, ?_⟩
  intro sid s'' hle hs''
  obtain ⟨s', hs', ha'⟩ := h'.find? sid s'' (Nat.le_trans hle h.lastSid_le) hs''
  obtain ⟨s, hs, ha⟩ := h.find? sid s' hle hs'
  exact ⟨s, hs, ha.trans ha'⟩

theorem time {op : Op κ} (ht : op.Timing) (r : Registry κ) : r.Continues (r.apply op).2 := by
  refine ⟨Nat.le_of_eq (ht.lastSid r).symm, ?_⟩
  intro sid s' _ hs'
  obtain ⟨f, hf⟩ := ht.find? r sid
  rw [hf] at hs'
  obtain ⟨s, hs, rfl⟩ := Option.map_eq_some_iff.1 hs'
  exact ⟨s, hs, rfl, rfl, rfl⟩

theorem insert (r : Registry κ) (subject : String) (queue : Option String) (callback : κ) :
    r.Continues (r.insert subject queue callback).2 := by
  refine ⟨Nat.le_succ _, ?_⟩
  intro sid s' hle hs'
  rw [Valid.find?_insert_of_le hle] at hs'
  exact ⟨s', hs', .refl s'⟩

theorem unsubscribe (r : Registry κ) (n max : Nat) : r.Continues (r.unsubscribe n max).2 := by
  refine ⟨Nat.le_of_eq (unsubscribe_lastSid r n max).symm, ?_⟩
  intro sid s' _ hs'
  obtain ⟨s, hs, rfl⟩ := find?_unsubscribe_eq_some hs'
  refine ⟨s, hs, ?_⟩
  split
  · exact ⟨rfl, rfl, rfl⟩
  · exact .refl s

theorem dispatch (h : r.Valid) (m : Message) : r.Continues (r.dispatch m).2 := by
  refine ⟨Nat.le_of_eq (dispatch_lastSid r m).symm, ?_⟩
  intro sid s' _ hs'
  obtain ⟨s, hs, ha, -, -⟩ := h.find?_dispatch_eq_some hs'
  exact ⟨s, hs, ha⟩

end Continues

theorem Valid.continues_apply (h : r.Valid) (op : Op κ) : r.Continues (r.apply op).2 := by
  by_cases ht : op.Timing
  · exact .time ht r
  cases op with
  | insert subject queue callback => exact .insert r subject queue callback
  | unsubscribe sid max => exact .unsubscribe r sid max
  | dispatch m => exact .dispatch h m
  | token | arm | claim | cancelAll => exact (ht trivial).elim

def Gone (r : Registry κ) (sid : Nat) : Prop := sid ≤ r.lastSid ∧ r.find? sid = none

theorem Gone.continue {r' : Registry κ} {sid : Nat} (h : r.Gone sid) (hc : r.Continues r') :
    r'.Gone sid := by
  refine ⟨Nat.le_trans h.1 hc.lastSid_le, ?_⟩
  cases hs : r'.find? sid with
  | none => rfl
  | some s' =>
    obtain ⟨s, hs, -⟩ := hc.find? sid s' h.1 hs
    cases h.2.symm.trans hs

end Registry

end Herald
