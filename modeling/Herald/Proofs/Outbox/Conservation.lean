import Herald.Proofs.Outbox.Run
import Mathlib.Data.List.Basic

namespace Herald.Outbox

variable {α κ : Type}

def Flushed (o : Outbox α κ) : Prop := o.target.isSome → o.pending = []

theorem target_eq_some_iff {o : Outbox α κ} {w : Writer} :
    o.target = some w ↔ o.writer = some w ∧ w.isOpen := by
  simp [target, Option.filter_eq_some_iff]

theorem send_of_target {o : Outbox α κ} {w : Writer} (h : o.target = some w) (p : Parcel α) :
    o.send p = ([⟨w.number, p⟩], o) := by
  simp only [send, h]

theorem send_of_no_target {o : Outbox α κ} (h : o.target = none) (p : Parcel α) :
    o.send p = ([], { o with pending := o.pending ++ [p] }) := by
  simp only [send, h]

theorem Flushed.send {o : Outbox α κ} (h : o.Flushed) (p : Parcel α) :
    o.pending ++ [p] = (o.send p).1.map (·.parcel) ++ (o.send p).2.pending ∧
      (o.send p).2.Flushed := by
  cases ht : o.target with
  | none =>
    rw [send_of_no_target ht]
    refine ⟨rfl, fun hs ↦ ?_⟩
    simp only [target] at ht hs
    simp [ht] at hs
  | some w =>
    rw [send_of_target ht, h (by simp [ht])]
    exact ⟨rfl, fun _ ↦ h (by simp [ht])⟩

namespace Op

def command? : Op α κ → Option α
  | .send c => some c
  | _ => none

def attachment? : Op α κ → Option (Writer × List α)
  | .attach w preamble => some (w, preamble)
  | _ => none

theorem filterMap_command?_cons (op : Op α κ) (ops : List (Op α κ)) :
    (op :: ops).filterMap command? = op.command?.toList ++ ops.filterMap command? := by
  cases op <;> rfl

theorem filterMap_attachment?_cons (op : Op α κ) (ops : List (Op α κ)) :
    (op :: ops).filterMap attachment? = op.attachment?.toList ++ ops.filterMap attachment? := by
  cases op <;> rfl

/-- A use that forgets no parcel and hands over no command in which `P` holds but for those that
it is to send. -/
def Keeps (P : α → Bool) : Op α κ → Prop
  | .sendIfLive c => P c = false
  | .attach w preamble => w.isOpen ∧ ∀ c ∈ preamble, P c = false
  | .close => False
  | _ => True

end Op

theorem sendIfLive_parcels {P : α → Bool} {c : α} (o : Outbox α κ) (hc : P c = false) :
    (Parcel.commands ((o.sendIfLive (.command c)).map (·.parcel))).filter P = [] := by
  unfold sendIfLive
  cases o.target <;> simp [Parcel.commands, Parcel.command?, hc]

theorem Flushed.apply {o : Outbox α κ} (h : o.Flushed) (op : Op α κ) :
    (o.apply op).2.2.Flushed := by
  cases op with
  | send c => exact (h.send (.command c)).2
  | sendIfLive c => exact h
  | roundTrip callback =>
    have h' : Flushed { o with pongs := o.pongs ++ [callback] } := h
    exact (h'.send .ping).2
  | complete =>
    simp only [Outbox.apply, complete]
    cases o.pongs <;> exact h
  | breakWriter =>
    intro ht
    simp [Outbox.apply, breakWriter, target, Option.any_map] at ht
  | attach w preamble | close => exact fun _ ↦ rfl
  | detach => simp [Outbox.apply, detach, Flushed, target]

theorem Flushed.run {o : Outbox α κ} (h : o.Flushed) (ops : List (Op α κ)) :
    (o.run ops).2.Flushed := by
  induction ops generalizing o with
  | nil => exact h
  | cons op ops ih => exact ih (h.apply op)

open Parcel in
theorem Flushed.conserves {P : α → Bool} {o : Outbox α κ} (h : o.Flushed) {op : Op α κ}
    (hop : op.Keeps P) :
    (commands o.pending ++ op.command?.toList).filter P =
      (commands ((o.apply op).2.1.map (·.parcel)) ++
        commands (o.apply op).2.2.pending).filter P := by
  cases op with
  | send c =>
    have he := congrArg commands (h.send (.command c)).1
    rw [commands_append, commands_append, commands_command] at he
    exact congrArg _ he
  | sendIfLive c =>
    simp only [Op.command?, Outbox.apply, List.filter_append, sendIfLive_parcels o hop]
    simp
  | roundTrip callback =>
    have h' : Flushed { o with pongs := o.pongs ++ [callback] } := h
    have he := congrArg commands (h'.send .ping).1
    rw [commands_append, commands_append, commands_ping] at he
    exact congrArg _ he
  | complete =>
    simp only [Outbox.apply, Op.command?, complete]
    cases o.pongs <;> simp
  | attach w preamble =>
    obtain ⟨hw, hp⟩ := hop
    have hp : preamble.filter P = [] := List.filter_eq_nil_iff.2 fun c hc ↦ by simp [hp c hc]
    simp [Op.command?, Outbox.apply, attach, hw, hp, Function.comp_def]
  | detach => simp [Op.command?, Outbox.apply, detach]
  | breakWriter => simp [Op.command?, Outbox.apply, breakWriter]
  | close => exact hop.elim

theorem Flushed.conserves_run {P : α → Bool} {o : Outbox α κ} (h : o.Flushed)
    {ops : List (Op α κ)} (hops : ∀ op ∈ ops, op.Keeps P) :
    (Parcel.commands o.pending ++ ops.filterMap Op.command?).filter P =
      (Parcel.commands ((o.run ops).1.map (·.parcel)) ++
        Parcel.commands (o.run ops).2.pending).filter P := by
  induction ops generalizing o with
  | nil => simp [run_nil]
  | cons op ops ih =>
    have he := h.conserves (hops op List.mem_cons_self)
    have he' := ih (h.apply op) fun op hop ↦ hops op (List.mem_cons_of_mem _ hop)
    simp only [List.filter_append] at he he' ⊢
    rw [run_cons, List.map_append, Parcel.commands_append, List.filter_append, List.append_assoc,
      ← he', ← List.append_assoc, ← he, Op.filterMap_command?_cons, List.filter_append,
      List.append_assoc]

def carried (attachments : List (Writer × List α)) (log : List (Sent α)) : List α :=
  attachments.flatMap fun a ↦ Parcel.commands ((Sent.received log a.1.number).drop a.2.length)

theorem carried_of_forall_ne {as : List (Writer × List α)} {n : Nat}
    (h : ∀ a ∈ as, a.1.number ≠ n) (log : List (Sent α)) (ps : List (Parcel α)) :
    carried as (log ++ ps.map (⟨n, ·⟩)) = carried as log := by
  unfold carried
  refine List.flatMap_congr fun a ha ↦ ?_
  rw [Sent.received_append, Sent.received_map, if_neg (h a ha).symm, List.append_nil]

/-- How the commands of several uses come to the writers put to use and to the queue. The last
writer is the one in use, if any is, and has been handed its whole preamble. -/
structure Carries (attachments : List (Writer × List α)) (log : List (Sent α)) (o : Outbox α κ)
    (commands : List α) : Prop where
  conserved : carried attachments log ++ Parcel.commands o.pending = commands
  flushed : o.Flushed
  known : ∀ s ∈ log, s.writer ∈ attachments.map (·.1.number)
  fresh : (attachments.map (·.1.number)).Nodup
  last : ∀ w, o.writer = some w → ∃ before v preamble, attachments = before ++ [(v, preamble)] ∧
    v.number = w.number ∧ preamble.length ≤ (Sent.received log w.number).length

theorem Carries.send {as : List (Writer × List α)} {log : List (Sent α)} {o : Outbox α κ}
    {cs : List α} (h : Carries as log o cs) (p : Parcel α) :
    Carries as (log ++ (o.send p).1) (o.send p).2 (cs ++ Parcel.commands [p]) := by
  cases ht : o.target with
  | none =>
    have hf := (h.flushed.send p).2
    rw [send_of_no_target ht] at hf ⊢
    rw [List.append_nil]
    refine ⟨?_, hf, h.known, h.fresh, h.last⟩
    rw [Parcel.commands_append, ← List.append_assoc, h.conserved]
  | some w =>
    -- The open writer is the last one put to use, so what the others were handed stays as it is.
    have hp := h.flushed (by simp [ht])
    have hw := (target_eq_some_iff.1 ht).1
    obtain ⟨before, v, preamble, rfl, hv, hl⟩ := h.last w hw
    have hn := h.fresh
    rw [List.map_append, List.nodup_append] at hn
    have hb : ∀ a ∈ before, a.1.number ≠ w.number := fun a ha ↦
      hv ▸ hn.2.2 _ (List.mem_map_of_mem ha) _ (by simp)
    have hr : Sent.received [⟨w.number, p⟩] w.number = [p] := by
      simpa using Sent.received_map [p] w.number w.number
    rw [send_of_target ht]
    refine ⟨?_, h.flushed, ?_, h.fresh, fun u hu ↦ ?_⟩
    · have hc := h.conserved
      have hbc := carried_of_forall_ne hb log [p]
      simp only [List.map_cons, List.map_nil] at hbc
      simp only [carried, List.flatMap_append, List.flatMap_singleton, hv, hp] at hc hbc ⊢
      rw [hbc, Sent.received_append, hr, List.drop_append_of_le_length hl, Parcel.commands_append,
        ← hc]
      simp
    · intro s hs
      rcases List.mem_append.1 hs with hs | hs
      · exact h.known s hs
      · rw [List.mem_singleton.1 hs]
        simp [hv]
    · obtain rfl : w = u := Option.some.inj (hw.symm.trans hu)
      refine ⟨before, v, preamble, rfl, hv, ?_⟩
      rw [Sent.received_append, List.length_append]
      exact Nat.le_add_right_of_le hl

def Op.Lossless : Op α κ → Prop
  | .sendIfLive _ | .close => False
  | .attach w _ => w.isOpen
  | _ => True

theorem Carries.attach {as : List (Writer × List α)} {log : List (Sent α)} {o : Outbox α κ}
    {cs : List α} (h : Carries as log o cs) {w : Writer} (hw : w.isOpen) (preamble : List α)
    (hn : w.number ∉ as.map (·.1.number)) :
    Carries (as ++ [(w, preamble)]) (log ++ (o.attach w preamble).1)
      (o.attach w preamble).2 cs := by
  have ha : ∀ a ∈ as, a.1.number ≠ w.number := fun a ha he ↦
    hn (List.mem_map.2 ⟨a, ha, he⟩)
  have hlog : Sent.received log w.number = [] :=
    Sent.received_eq_nil fun s hs he ↦ hn (he ▸ h.known s hs)
  have hr : Sent.received (log ++ (o.attach w preamble).1) w.number =
      preamble.map .command ++ o.pending := by
    rw [Sent.received_append, hlog, Outbox.attach, if_pos hw, Sent.received_map, if_pos rfl]
    rfl
  refine ⟨?_, fun _ ↦ rfl, ?_, ?_, ?_⟩
  · have hc := carried_of_forall_ne ha log (preamble.map .command ++ o.pending)
    simp only [carried] at hc
    simp only [carried, List.flatMap_append, List.flatMap_singleton, hr]
    rw [List.drop_append_of_le_length (by simp), List.drop_of_length_le (by simp), ← h.conserved]
    simp only [Outbox.attach, if_pos hw]
    rw [hc]
    simp [carried]
  · intro s hs
    simp only [Outbox.attach, if_pos hw, List.mem_append, List.mem_map] at hs
    rw [List.map_append, List.mem_append]
    rcases hs with hs | ⟨p, -, rfl⟩
    · exact .inl (h.known s hs)
    · exact .inr (by simp)
  · rw [List.map_append, List.nodup_append]
    refine ⟨h.fresh, by simp, ?_⟩
    rintro n hn' m hm rfl
    simp only [List.map_cons, List.map_nil, List.mem_singleton] at hm
    exact hn (hm ▸ hn')
  · rintro u hu
    obtain rfl : w = u := Option.some.inj hu
    exact ⟨as, w, preamble, rfl, rfl, by rw [hr]; simp⟩

theorem Carries.apply {as : List (Writer × List α)} {log : List (Sent α)} {o : Outbox α κ}
    {cs : List α} (h : Carries as log o cs) {op : Op α κ} (hop : op.Lossless)
    (hn : ((as ++ op.attachment?.toList).map (·.1.number)).Nodup) :
    Carries (as ++ op.attachment?.toList) (log ++ (o.apply op).2.1) (o.apply op).2.2
      (cs ++ op.command?.toList) := by
  cases op with
  | send c => simpa [Op.attachment?, Op.command?, Outbox.apply] using h.send (.command c)
  | sendIfLive c => exact hop.elim
  | roundTrip callback =>
    have h' : Carries as log { o with pongs := o.pongs ++ [callback] } cs :=
      ⟨h.1, h.2, h.3, h.4, h.5⟩
    obtain ⟨h₁, h₂, h₃, h₄, h₅⟩ := h'.send .ping
    simp only [Op.attachment?, Op.command?, Option.toList_none, List.append_nil,
      Parcel.commands_ping] at h₁ ⊢
    exact ⟨h₁, h₂, h₃, h₄, h₅⟩
  | complete =>
    simp only [Outbox.apply, Op.command?, Op.attachment?, complete, Option.toList_none,
      List.append_nil]
    cases o.pongs <;> exact ⟨h.1, h.2, h.3, h.4, h.5⟩
  | attach w preamble =>
    refine (List.append_nil cs).symm ▸ h.attach hop preamble fun hm ↦ ?_
    rw [List.map_append, List.nodup_append] at hn
    exact hn.2.2 _ hm _ (by simp [Op.attachment?]) rfl
  | detach =>
    simp only [Outbox.apply, Op.command?, Op.attachment?, detach, Option.toList_none,
      List.append_nil]
    refine ⟨?_, h.flushed.apply .detach, h.known, h.fresh, fun w hw ↦ by cases hw⟩
    rw [Parcel.commands_append, Parcel.commands_replicate_ping]
    exact h.conserved
  | breakWriter =>
    simp only [Outbox.apply, Op.command?, Op.attachment?, breakWriter, Option.toList_none,
      List.append_nil]
    refine ⟨h.conserved, h.flushed.apply .breakWriter, h.known, h.fresh, fun w hw ↦ ?_⟩
    obtain ⟨u, hu, rfl⟩ := Option.map_eq_some_iff.1 hw
    exact h.last u hu
  | close => exact hop.elim

theorem Carries.run {as : List (Writer × List α)} {log : List (Sent α)} {o : Outbox α κ}
    {cs : List α} (h : Carries as log o cs) {ops : List (Op α κ)} (hops : ∀ op ∈ ops, op.Lossless)
    (hn : ((as ++ ops.filterMap Op.attachment?).map (·.1.number)).Nodup) :
    Carries (as ++ ops.filterMap Op.attachment?) (log ++ (o.run ops).1) (o.run ops).2
      (cs ++ ops.filterMap Op.command?) := by
  induction ops generalizing as log o cs with
  | nil => simpa [run_nil] using h
  | cons op ops ih =>
    rw [Op.filterMap_attachment?_cons, ← List.append_assoc] at hn ⊢
    rw [Op.filterMap_command?_cons, ← List.append_assoc, run_cons, ← List.append_assoc]
    refine ih (h.apply (hops op List.mem_cons_self) ?_)
      (fun op' h' ↦ hops op' (List.mem_cons_of_mem _ h')) hn
    rw [List.map_append, List.nodup_append] at hn
    exact hn.1

theorem Carries.new : Carries [] [] ({} : Outbox α κ) [] where
  conserved := rfl
  flushed _ := rfl
  known s hs := by cases hs
  fresh := List.nodup_nil
  last w hw := by cases hw

/-- Uses of a new outbox that forget no parcel, no writer being put to use twice. -/
structure Lossless (ops : List (Op α κ)) : Prop where
  forall_mem : ∀ op ∈ ops, op.Lossless
  fresh : ((ops.filterMap Op.attachment?).map (·.1.number)).Nodup

theorem Lossless.carries {ops : List (Op α κ)} (h : Lossless ops) :
    Carries (ops.filterMap Op.attachment?) (run {} ops).1 (run {} ops).2
      (ops.filterMap Op.command?) := by
  simpa using Carries.new.run h.forall_mem (by simpa using h.fresh)

/-- A writer is handed its preamble first, and next all that was waiting when it was put to use. -/
theorem Lossless.received_of_attach {before after : List (Op α κ)} {w : Writer}
    {preamble : List α} (h : Lossless (before ++ .attach w preamble :: after)) :
    preamble.map .command ++ (run {} before).2.pending <+:
      Sent.received (run {} (before ++ .attach w preamble :: after)).1 w.number := by
  have hn := h.fresh
  rw [List.filterMap_append, List.map_append, List.nodup_append] at hn
  have hb : Lossless before :=
    ⟨fun op hop ↦ h.forall_mem op (List.mem_append_left _ hop), hn.1⟩
  have hw : w.isOpen := h.forall_mem (.attach w preamble) (by simp)
  have hr : Sent.received (run {} before).1 w.number = [] :=
    Sent.received_eq_nil fun s hs he ↦
      hn.2.2 _ (hb.carries.known s hs) _ (by simp [Op.attachment?]) he
  rw [run_append, run_cons, Sent.received_append, hr, Sent.received_append, List.nil_append]
  refine List.IsPrefix.trans ?_ (List.prefix_append _ _)
  simp only [Outbox.apply, Outbox.attach, if_pos hw, Sent.received_map, if_pos]
  exact List.prefix_rfl

end Herald.Outbox
