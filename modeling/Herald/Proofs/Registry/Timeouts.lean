import Herald.Proofs.Registry.Lookup
import Mathlib.Data.List.Induction

namespace Herald.Registry

variable {κ : Type}

def timeout? (r : Registry κ) (sid : Nat) : Option Timeout := (r.find? sid).bind (·.timeout)

def reached (ops : List (Op κ)) : Registry κ := (({} : Registry κ).run ops).2

/-- An operation leaves a subscription its timeout, which waits for `expected` messages: it sets
and takes none on that subscription, and brings no message that is waited for. -/
def Op.Keeps (r : Registry κ) (sid expected : Nat) : Op κ → Prop
  | .arm n _ => n ≠ sid
  | .cancelAll => False
  | .claim n t => n = sid → (r.claim n t).1 = none
  | .dispatch m => m.sid = sid → ∀ s, r.find? sid = some s → s.received + 1 < expected
  | .insert .. | .unsubscribe .. | .token _ => True

/-- A timeout that is set after some operations is still in force after more of them: its
subscription is live all the time, and no operation does away with it. -/
structure Spared (before : List (Op κ)) (sid : Nat) (t : Timeout) (after : List (Op κ)) :
    Prop where
  live : ∀ xs ys, after = xs ++ ys → ((reached (before ++ .arm sid t :: xs)).find? sid).isSome
  keeps : ∀ xs op ys, after = xs ++ op :: ys →
    op.Keeps (reached (before ++ .arm sid t :: xs)) sid t.expected

def Stands (ops : List (Op κ)) (sid : Nat) (t : Timeout) : Prop :=
  ∃ before after, ops = before ++ .arm sid t :: after ∧ Spared before sid t after

/-- A timeout is set with a token that was given out for its subscription and that no timeout of
that subscription has had. -/
def Op.Issued (before : List (Op κ)) : Op κ → Prop
  | .arm sid t => (∃ xs ys, before = xs ++ .token sid :: ys ∧
      ((reached xs).nextToken sid).1 = some t.token) ∧
    ∀ t', .arm sid t' ∈ before → t'.token ≠ t.token
  | _ => True

def Issued (ops : List (Op κ)) : Prop :=
  ∀ before op after, ops = before ++ op :: after → op.Issued before

theorem reached_snoc (ops : List (Op κ)) (op : Op κ) :
    reached (ops ++ [op]) = ((reached ops).apply op).2 := by
  rw [reached, run_snoc]
  rfl

theorem reached_append (xs ys : List (Op κ)) :
    reached (xs ++ ys) = ((reached xs).run ys).2 := by
  rw [reached, run_append]
  rfl

theorem valid_reached (ops : List (Op κ)) : (reached ops).Valid := Valid.new.run ops

variable {r : Registry κ} {sid token : Nat}

theorem claim_eq_some_iff {auto : Bool} : (r.claim sid token).1 = some auto ↔
    ∃ expected, r.timeout? sid = some ⟨expected, auto, token⟩ := by
  unfold claim timeout?
  cases (r.find? sid).bind (·.timeout) with
  | none => simp
  | some t =>
    obtain ⟨expected, auto', token'⟩ := t
    by_cases ht : token' = token
    · simp [ht]
    · simp [ht]

theorem claim_eq_none_iff : (r.claim sid token).1 = none ↔
    ∀ t, r.timeout? sid = some t → t.token ≠ token := by
  constructor
  · rintro h ⟨expected, auto, token'⟩ ht rfl
    have hc := claim_eq_some_iff.2 ⟨expected, ht⟩
    rw [h] at hc
    cases hc
  · intro h
    cases hc : (r.claim sid token).1 with
    | none => rfl
    | some auto =>
      obtain ⟨expected, ht⟩ := claim_eq_some_iff.1 hc
      exact absurd rfl (h _ ht)

theorem find?_claim (r : Registry κ) (n token b : Nat) : (r.claim n token).2.find? b =
    if n = b ∧ (r.claim n token).1.isSome then
      (r.find? b).map fun s ↦ { s with timeout := none }
    else r.find? b := by
  unfold claim
  split
  · simp
  · split
    · by_cases hb : n = b
      · simp [find?_update, hb]
      · simp [find?_update, hb]
    · simp

theorem Valid.timeout?_apply (h : r.Valid) (op : Op κ) (sid : Nat) (t : Timeout) :
    (r.apply op).2.timeout? sid = some t ↔ ((r.apply op).2.find? sid).isSome ∧
      (op = .arm sid t ∨ r.timeout? sid = some t ∧ op.Keeps r sid t.expected) := by
  unfold timeout?
  cases op with
  | insert subject queue callback =>
    simp only [Registry.apply, find?_insert, Op.Keeps]
    by_cases hs : r.lastSid + 1 = sid
    · have hf : r.find? sid = none := h.find?_fresh (by omega)
      simp [hs, hf]
    · cases r.find? sid <;> simp [hs]
  | unsubscribe n max =>
    simp only [Registry.apply, find?_unsubscribe, Op.Keeps]
    by_cases hn : n = sid
    · cases r.find? sid with
      | none => simp
      | some s =>
        by_cases hm : max = 0 ∨ max ≤ s.received <;> simp [hn, hm]
    · cases r.find? sid <;> simp [hn]
  | dispatch m =>
    simp only [Registry.apply, h.find?_dispatch, Op.Keeps]
    by_cases hm : m.sid = sid
    · cases r.find? sid with
      | none => simp
      | some s =>
        by_cases he : s.received + 1 = s.max <;> simp [hm, he, Option.filter_eq_some_iff]
    · cases r.find? sid <;> simp [hm]
  | token n =>
    have hf : (r.apply (.token n)).2.find? sid = r.find? sid := by
      simp only [Registry.apply, nextToken]
      split <;> rfl
    rw [hf]
    cases r.find? sid <;> simp [Op.Keeps]
  | arm n t' =>
    have hf : (r.apply (.arm n t')).2.find? sid = if n = sid then
        (r.find? sid).map fun s ↦ { s with timeout := some t' } else r.find? sid :=
      find?_update r n sid fun _ ↦ rfl
    rw [hf]
    by_cases hn : n = sid
    · cases r.find? sid <;> simp [Op.Keeps, hn]
    · cases r.find? sid <;> simp [Op.Keeps, hn]
  | claim n token =>
    simp only [Registry.apply, find?_claim, Op.Keeps]
    by_cases hn : n = sid
    · cases hc : (r.claim n token).1 <;> cases r.find? sid <;> simp [hn]
    · cases r.find? sid <;> simp [hn]
  | cancelAll =>
    have hf : (r.apply .cancelAll).2.find? sid =
        (r.find? sid).map fun s ↦ { s with timeout := none } := List.find?_map ..
    rw [hf]
    cases r.find? sid <;> simp [Op.Keeps]

theorem spared_nil {before : List (Op κ)} {t : Timeout} :
    Spared before sid t [] ↔ ((reached (before ++ [.arm sid t])).find? sid).isSome := by
  constructor
  · intro h
    exact h.live [] [] rfl
  · intro h
    refine ⟨?_, ?_⟩
    · intro xs ys he
      obtain ⟨rfl, -⟩ := List.nil_eq_append_iff.1 he
      exact h
    · intro xs op ys he
      cases (List.nil_eq_append_iff.1 he).2

theorem spared_snoc {before after : List (Op κ)} {op : Op κ} {t : Timeout} :
    Spared before sid t (after ++ [op]) ↔ Spared before sid t after ∧
      ((reached (before ++ .arm sid t :: (after ++ [op]))).find? sid).isSome ∧
      op.Keeps (reached (before ++ .arm sid t :: after)) sid t.expected := by
  constructor
  · rintro ⟨hlive, hkeeps⟩
    obtain ⟨hlive, hs⟩ := forall_prefix_snoc.1 hlive
    obtain ⟨hkeeps, ho⟩ := forall_split_snoc.1 hkeeps
    exact ⟨⟨hlive, hkeeps⟩, hs, ho⟩
  · rintro ⟨h, hs, ho⟩
    exact ⟨forall_prefix_snoc.2 ⟨h.live, hs⟩, forall_split_snoc.2 ⟨h.keeps, ho⟩⟩

theorem Spared.of_append {before xs ys : List (Op κ)} {t : Timeout}
    (h : Spared before sid t (xs ++ ys)) : Spared before sid t xs := by
  refine ⟨?_, ?_⟩
  · rintro as bs rfl
    exact h.live as (bs ++ ys) (List.append_assoc ..)
  · rintro as op bs rfl
    exact h.keeps as op (bs ++ ys) (by simp)

theorem stands_snoc {ops : List (Op κ)} {op : Op κ} {t : Timeout} :
    Stands (ops ++ [op]) sid t ↔ ((reached (ops ++ [op])).find? sid).isSome ∧
      (op = .arm sid t ∨ Stands ops sid t ∧ op.Keeps (reached ops) sid t.expected) := by
  constructor
  · rintro ⟨before, after, he, hs⟩
    rw [he]
    refine ⟨hs.live after [] (List.append_nil _).symm, ?_⟩
    rcases List.eq_nil_or_concat after with rfl | ⟨after, last, rfl⟩
    · exact .inl (List.singleton_inj.1 (List.append_inj' he rfl).2)
    · rw [List.concat_eq_append] at he hs
      rw [← List.cons_append, ← List.append_assoc] at he
      obtain ⟨rfl, hl⟩ := List.append_inj' he rfl
      obtain rfl := List.singleton_inj.1 hl
      obtain ⟨hs, -, ho⟩ := spared_snoc.1 hs
      exact .inr ⟨⟨before, after, rfl, hs⟩, ho⟩
  · rintro ⟨hl, rfl | ⟨⟨before, after, rfl, hs⟩, ho⟩⟩
    · exact ⟨ops, [], rfl, spared_nil.2 hl⟩
    · rw [List.append_assoc, List.cons_append] at hl ⊢
      exact ⟨before, after ++ [op], rfl, spared_snoc.2 ⟨hs, hl, ho⟩⟩

/-- A subscription has the timeout that stands. -/
theorem timeout?_reached (ops : List (Op κ)) (sid : Nat) (t : Timeout) :
    (reached ops).timeout? sid = some t ↔ Stands ops sid t := by
  induction ops using List.reverseRecOn with
  | nil =>
    constructor
    · nofun
    · rintro ⟨before, after, he, -⟩
      cases (List.nil_eq_append_iff.1 he).2
  | append_singleton ops op ih =>
    rw [stands_snoc, reached_snoc, (valid_reached ops).timeout?_apply, ih]

theorem nextToken_eq_some (h : (r.nextToken sid).1 = some token) :
    token = r.lastToken + 1 ∧ (r.nextToken sid).2.lastToken = token := by
  unfold nextToken at h ⊢
  split at h
  · rename_i hs
    rw [if_pos hs]
    obtain rfl := Option.some.inj h
    exact ⟨rfl, rfl⟩
  · cases h

theorem lastToken_le_apply (r : Registry κ) (op : Op κ) :
    r.lastToken ≤ (r.apply op).2.lastToken := by
  cases op with
  | insert | arm | cancelAll => exact Nat.le_refl _
  | unsubscribe n max =>
    simp only [Registry.apply, unsubscribe]
    split
    · exact Nat.le_refl _
    · split <;> exact Nat.le_refl _
  | dispatch m =>
    simp only [Registry.apply, dispatch]
    split
    · exact Nat.le_refl _
    · split
      · exact Nat.le_refl _
      · split <;> exact Nat.le_refl _
  | token n =>
    simp only [Registry.apply, nextToken]
    split
    · exact Nat.le_succ _
    · exact Nat.le_refl _
  | claim n token =>
    simp only [Registry.apply, claim]
    split
    · exact Nat.le_refl _
    · split <;> exact Nat.le_refl _

theorem lastToken_le_run (r : Registry κ) (ops : List (Op κ)) :
    r.lastToken ≤ (r.run ops).2.lastToken := by
  induction ops generalizing r with
  | nil => exact Nat.le_refl _
  | cons op ops ih => exact Nat.le_trans (r.lastToken_le_apply op) (ih _)

/-- A token that was given out is not given out again. -/
theorem token_lt {xs ys : List (Op κ)} {n token' : Nat}
    (h : ((reached xs).nextToken sid).1 = some token)
    (h' : ((reached (xs ++ .token sid :: ys)).nextToken n).1 = some token') : token < token' := by
  have hr : reached (xs ++ .token sid :: ys) = (((reached xs).nextToken sid).2.run ys).2 := by
    rw [reached_append]
    rfl
  have hle := lastToken_le_run ((reached xs).nextToken sid).2 ys
  rw [(nextToken_eq_some h).2, ← hr] at hle
  rw [(nextToken_eq_some h').1]
  exact Nat.lt_succ_of_le hle

theorem token_eq {xs xs' ys ys' : List (Op κ)} {n : Nat}
    (he : xs ++ .token sid :: ys = xs' ++ .token n :: ys')
    (h : ((reached xs).nextToken sid).1 = some token)
    (h' : ((reached xs').nextToken n).1 = some token) : sid = n := by
  rcases List.append_eq_append_iff.1 he with ⟨zs, rfl, hz⟩ | ⟨zs, rfl, hz⟩
  · rcases List.cons_eq_append_iff.1 hz with ⟨-, hz⟩ | ⟨zs, rfl, -⟩
    · cases hz
      rfl
    · exact absurd (token_lt h h') (Nat.lt_irrefl _)
  · rcases List.cons_eq_append_iff.1 hz with ⟨-, hz⟩ | ⟨zs, rfl, -⟩
    · cases hz
      rfl
    · exact absurd (token_lt h' h) (Nat.lt_irrefl _)

theorem Issued.not_mem {before after : List (Op κ)} {n : Nat} {t t' : Timeout}
    (h : Issued (before ++ .arm sid t :: after)) (hm : .arm n t' ∈ before) :
    t'.token ≠ t.token := by
  intro ht
  obtain ⟨xs, ys, rfl⟩ := List.append_of_mem hm
  obtain ⟨⟨as, bs, hab, hg⟩, hu⟩ := h _ (.arm sid t) after rfl
  obtain ⟨⟨as', bs', rfl, hg'⟩, -⟩ := h xs (.arm n t') (ys ++ .arm sid t :: after) (by simp)
  rw [List.append_assoc, List.cons_append] at hab
  obtain rfl : n = sid := token_eq hab (ht ▸ hg') hg
  exact hu t' hm ht

/-- A token tells when its timeout was set. -/
theorem Issued.unique {ops before before' after after' : List (Op κ)} {n : Nat}
    {t t' : Timeout} (h : Issued ops) (he : ops = before ++ .arm sid t :: after)
    (he' : ops = before' ++ .arm n t' :: after') (ht : t.token = t'.token) :
    before = before' ∧ after = after' ∧ sid = n ∧ t = t' := by
  rcases List.append_eq_append_iff.1 (he.symm.trans he') with ⟨zs, hb, hz⟩ | ⟨zs, hb, hz⟩
  · rcases List.cons_eq_append_iff.1 hz with ⟨rfl, hz⟩ | ⟨zs, rfl, -⟩
    · cases hz
      exact ⟨by simpa using hb.symm, rfl, rfl, rfl⟩
    · have hm : .arm sid t ∈ before' := by simp [hb]
      exact absurd ht ((he' ▸ h).not_mem hm)
  · rcases List.cons_eq_append_iff.1 hz with ⟨rfl, hz⟩ | ⟨zs, rfl, -⟩
    · cases hz
      exact ⟨by simpa using hb, rfl, rfl, rfl⟩
    · have hm : .arm n t' ∈ before := by simp [hb]
      exact absurd ht.symm ((he ▸ h).not_mem hm)

/-- A timeout that stands is the one that was set with its token, and is in force since. -/
theorem Issued.spared {before after : List (Op κ)} {n : Nat} {t t' : Timeout}
    (h : Issued (before ++ .arm sid t :: after))
    (hs : Stands (before ++ .arm sid t :: after) n t') (ht : t'.token = t.token) :
    n = sid ∧ t' = t ∧ Spared before sid t after := by
  obtain ⟨before', after', he, hs⟩ := hs
  obtain ⟨rfl, rfl, rfl, rfl⟩ := h.unique rfl he ht.symm
  exact ⟨rfl, rfl, hs⟩

/-- A timeout is taken once. -/
theorem Issued.claim_eq_none {xs ys : List (Op κ)}
    (h : Issued (xs ++ .claim sid token :: ys)) (hs : ((reached xs).claim sid token).1.isSome)
    (n : Nat) : ((reached (xs ++ .claim sid token :: ys)).claim n token).1 = none := by
  obtain ⟨auto, hc⟩ := Option.isSome_iff_exists.1 hs
  obtain ⟨expected, ht⟩ := claim_eq_some_iff.1 hc
  obtain ⟨before, after, rfl, -⟩ := (timeout?_reached _ _ _).1 ht
  rw [List.append_assoc, List.cons_append] at h ⊢
  refine claim_eq_none_iff.2 fun t ht hn ↦ ?_
  obtain ⟨-, rfl, hs⟩ := h.spared ((timeout?_reached _ _ _).1 ht) hn
  have hk : ((reached _).claim sid token).1 = none := hs.keeps after _ ys rfl rfl
  rw [hk] at hc
  cases hc

theorem issued_nil : Issued ([] : List (Op κ)) := by
  intro before op after he
  cases (List.nil_eq_append_iff.1 he).2

theorem issued_snoc {ops : List (Op κ)} {op : Op κ} :
    Issued (ops ++ [op]) ↔ Issued ops ∧ op.Issued ops :=
  forall_split_snoc

theorem Issued.append_of_not_arm {ops more : List (Op κ)} (h : Issued ops)
    (hn : ∀ sid t, .arm sid t ∉ more) : Issued (ops ++ more) := by
  induction more using List.reverseRecOn with
  | nil => simpa using h
  | append_singleton more op ih =>
    rw [← List.append_assoc]
    refine issued_snoc.2 ⟨ih fun sid t hm ↦ hn sid t (by simp [hm]), ?_⟩
    cases op with
    | arm sid t => exact absurd (by simp) (hn sid t)
    | insert | unsubscribe | dispatch | token | claim | cancelAll => trivial

theorem Issued.token_le {ops : List (Op κ)} {t : Timeout} (h : Issued ops)
    (hm : .arm sid t ∈ ops) : t.token ≤ (reached ops).lastToken := by
  obtain ⟨before, after, rfl⟩ := List.append_of_mem hm
  obtain ⟨⟨xs, ys, rfl, hg⟩, -⟩ := h before (.arm sid t) after rfl
  rw [List.append_assoc, List.cons_append, reached_append]
  have hle := lastToken_le_run ((reached xs).nextToken sid).2 (ys ++ .arm sid t :: after)
  rw [(nextToken_eq_some hg).2] at hle
  exact hle

/-- A new token is used at once. -/
theorem Issued.arm {ops : List (Op κ)} {t : Timeout} (h : Issued ops)
    (ht : ((reached ops).nextToken sid).1 = some t.token) :
    Issued (ops ++ [.token sid, .arm sid t]) := by
  have ho : ops ++ [.token sid, .arm sid t] = (ops ++ [.token sid]) ++ [.arm sid t] := by simp
  rw [ho]
  refine issued_snoc.2 ⟨h.append_of_not_arm (by simp), ⟨ops, [], rfl, ht⟩, fun t' hm he ↦ ?_⟩
  have hle := h.token_le (by simpa using hm)
  rw [he, (nextToken_eq_some ht).1] at hle
  exact absurd hle (Nat.not_succ_le_self _)

end Herald.Registry
