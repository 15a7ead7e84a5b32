namespace Herald

variable {σ α : Type}

/-- Each of several steps is as it should be when it is taken. -/
def Along (next : σ → α → σ) (P : σ → α → Prop) (s : σ) : List α → Prop
  | [] => True
  | a :: as => P s a ∧ Along next P (next s a) as

namespace Along

variable {next : σ → α → σ} {P Q : σ → α → Prop} {s : σ} {as : List α}

instance decidable (next : σ → α → σ) (P : σ → α → Prop) [∀ s a, Decidable (P s a)] :
    (s : σ) → (as : List α) → Decidable (Along next P s as)
  | _, [] => inferInstanceAs (Decidable True)
  | s, a :: as =>
    have := decidable next P (next s a) as
    inferInstanceAs (Decidable (P s a ∧ Along next P (next s a) as))

theorem append {xs ys : List α} :
    Along next P s (xs ++ ys) ↔ Along next P s xs ∧ Along next P (xs.foldl next s) ys := by
  induction xs generalizing s with
  | nil => exact ⟨fun h ↦ ⟨trivial, h⟩, fun h ↦ h.2⟩
  | cons a xs ih => exact (and_congr_right fun _ ↦ ih).trans and_assoc.symm

theorem and (hp : Along next P s as) (hq : Along next Q s as) :
    Along next (fun s a ↦ P s a ∧ Q s a) s as := by
  induction as generalizing s with
  | nil => trivial
  | cons a as ih => exact ⟨⟨hp.1, hq.1⟩, ih hp.2 hq.2⟩

theorem of_forall {P : α → Prop} (hp : ∀ a ∈ as, P a) (s : σ) :
    Along next (fun _ a ↦ P a) s as := by
  induction as generalizing s with
  | nil => trivial
  | cons a as ih =>
    obtain ⟨ha, has⟩ := List.forall_mem_cons.1 hp
    exact ⟨ha, ih has (next s a)⟩

theorem imp (hpq : ∀ s a, P s a → Q s a) (hp : Along next P s as) : Along next Q s as := by
  induction as generalizing s with
  | nil => trivial
  | cons a as ih => exact ⟨hpq s a hp.1, ih hp.2⟩

/-- Steps may be followed on what another state tells of theirs. -/
theorem hom {τ : Type} {next' : τ → α → τ} {P : τ → α → Prop} (f : σ → τ)
    (hf : ∀ s a, f (next s a) = next' (f s) a) :
    Along next (fun s a ↦ P (f s) a) s as ↔ Along next' P (f s) as := by
  induction as generalizing s with
  | nil => exact Iff.rfl
  | cons a as ih => exact and_congr_right fun _ ↦ ih.trans (by rw [hf])

/-- What every step preserves holds before each of several and after all. -/
theorem invariant {I : σ → Prop} (preserves : ∀ s a, I s → P s a → I (next s a)) (hi : I s)
    (hp : Along next P s as) :
    Along next (fun s a ↦ I s ∧ P s a) s as ∧ I (as.foldl next s) := by
  induction as generalizing s with
  | nil => exact ⟨trivial, hi⟩
  | cons a as ih =>
    obtain ⟨hq, hi'⟩ := ih (preserves s a hi hp.1) hp.2
    exact ⟨⟨⟨hi, hp.1⟩, hq⟩, hi'⟩

end Along

end Herald
