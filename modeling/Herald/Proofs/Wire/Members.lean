import Herald.Proofs.Wire.Json
import Mathlib.Data.List.Nodup

namespace Herald.Json

def collect (ms : List (String × Json)) (done : Members) : Members :=
  ms.foldl (fun done m ↦ done.insert m.1 m.2) done

namespace Members

variable {ms ns : Members} {m : String × Json} {key : String} {value : Json}

theorem get?_append (ms ns : Members) (key : String) :
    get? (ms ++ ns) key = (ms.get? key).or (ns.get? key) := by
  simp only [get?, List.find?_append, Option.map_or]

theorem get?_eq_none (h : ∀ m ∈ ms, m.1 ≠ key) : ms.get? key = none := by
  rw [get?, Option.map_eq_none_iff, List.find?_eq_none]
  intro m hm he
  exact h m hm (eq_of_beq he)

theorem mem_of_get? (h : ms.get? key = some value) : (key, value) ∈ ms := by
  obtain ⟨⟨k, v⟩, hm, rfl⟩ := Option.map_eq_some_iff.1 h
  have hk : (k == key) = true := List.find?_some (p := fun m : String × Json ↦ m.1 == key) hm
  obtain rfl := eq_of_beq hk
  exact List.mem_of_find?_eq_some hm

theorem get?_eq_some_iff (h : (ms.map Prod.fst).Nodup) :
    ms.get? key = some value ↔ (key, value) ∈ ms := by
  refine ⟨mem_of_get?, fun hm ↦ ?_⟩
  induction ms with
  | nil => cases hm
  | cons m ms ih =>
    obtain ⟨k, v⟩ := m
    obtain ⟨hk, hms⟩ := List.nodup_cons.1 h
    rw [get?_cons]
    rcases List.mem_cons.1 hm with he | hm
    · cases he
      exact if_pos rfl
    · have hne : k ≠ key := fun he ↦ hk (List.mem_map.2 ⟨(key, value), hm, he.symm⟩)
      rw [if_neg hne]
      exact ih hms hm

/-- Where no key stands twice, the order does not count. -/
theorem get?_perm (h : (ms.map Prod.fst).Nodup) (hp : ns.Perm ms) (key : String) :
    ns.get? key = ms.get? key := by
  have hn : (ns.map Prod.fst).Nodup := (hp.map Prod.fst).nodup_iff.2 h
  ext value
  rw [get?_eq_some_iff hn, get?_eq_some_iff h, hp.mem_iff]

theorem get?_filter (p : String → Bool) (h : p key) (ms : Members) :
    get? (ms.filter (p ·.1)) key = ms.get? key := by
  induction ms with
  | nil => rfl
  | cons m ms ih =>
    obtain ⟨k, v⟩ := m
    rw [List.filter_cons, get?_cons]
    split
    · rw [get?_cons, ih]
    · rename_i hk
      have hne : k ≠ key := fun he ↦ hk (he ▸ h)
      rw [if_neg hne, ih]

/-- Of members that are put in one after the other, the last one with a key counts. -/
theorem get?_collect (ms : List (String × Json)) (done : Members) (key : String) :
    (collect ms done).get? key = (get? ms.reverse key).or (done.get? key) := by
  induction ms generalizing done with
  | nil => rfl
  | cons m ms ih =>
    obtain ⟨k, v⟩ := m
    have h : (collect ((k, v) :: ms) done).get? key =
        (get? ms.reverse key).or ((done.insert k v).get? key) := ih (done.insert k v)
    rw [h, get?_insert, List.reverse_cons, get?_append, Option.or_assoc, get?_cons, get?_nil]
    split <;> rfl

theorem mem_insert (h : m ∈ insert key value ms) : m = (key, value) ∨ m ∈ ms := by
  induction ms with
  | nil => exact .inl (List.mem_singleton.1 h)
  | cons n ms ih =>
    obtain ⟨k, v⟩ := n
    rw [insert] at h
    split at h
    · exact (List.mem_cons.1 h).imp_right (List.mem_cons_of_mem _)
    split at h
    · exact List.mem_cons.1 h
    · rcases List.mem_cons.1 h with rfl | h
      · exact .inr List.mem_cons_self
      · exact (ih h).imp_right (List.mem_cons_of_mem _)

theorem mem_collect {done : Members} (h : m ∈ collect ms done) : m ∈ ms ∨ m ∈ done := by
  induction ms generalizing done with
  | nil => exact .inr h
  | cons n ms ih =>
    rcases ih h with hm | hm
    · exact .inl (List.mem_cons_of_mem _ hm)
    · rcases mem_insert hm with rfl | hm
      · exact .inl List.mem_cons_self
      · exact .inr hm

def Sorted (ms : Members) : Prop := ms.Pairwise (·.1 < ·.1)

theorem Sorted.nodup (h : ms.Sorted) : (ms.map Prod.fst).Nodup := by
  rw [List.Nodup, List.pairwise_map]
  exact h.imp fun {m n} hlt (he : m.1 = n.1) ↦ String.lt_irrefl m.1 (he ▸ hlt)

theorem Sorted.insert (h : ms.Sorted) (key : String) (value : Json) :
    (ms.insert key value).Sorted := by
  induction ms with
  | nil => exact List.pairwise_singleton _ _
  | cons m ms ih =>
    obtain ⟨k, v⟩ := m
    obtain ⟨hk, hms⟩ := List.pairwise_cons.1 h
    rw [Members.insert]
    split
    · rename_i he
      subst he
      exact List.pairwise_cons.2 ⟨hk, hms⟩
    split
    · rename_i hlt
      refine List.pairwise_cons.2 ⟨List.forall_mem_cons.2 ⟨hlt, fun m hm ↦ ?_⟩, h⟩
      exact String.lt_trans hlt (hk m hm)
    · rename_i hne hlt
      have hgt : k < key := by grind
      refine List.pairwise_cons.2 ⟨fun m hm ↦ ?_, ih hms⟩
      rcases mem_insert hm with rfl | hm
      · exact hgt
      · exact hk m hm

theorem sorted_collect {done : Members} (h : done.Sorted) (ms : List (String × Json)) :
    (collect ms done).Sorted := by
  induction ms generalizing done with
  | nil => exact h
  | cons m ms ih => exact ih (h.insert m.1 m.2)

/-- The members of an object are told by the values of its keys. -/
theorem Sorted.ext (hm : ms.Sorted) (hn : ns.Sorted) (h : ∀ key, ms.get? key = ns.get? key) :
    ms = ns := by
  have hp : ms.Perm ns := by
    rw [List.perm_ext_iff_of_nodup hm.nodup.of_map hn.nodup.of_map]
    intro ⟨key, value⟩
    rw [← get?_eq_some_iff hm.nodup, ← get?_eq_some_iff hn.nodup, h]
  exact hp.eq_of_pairwise (fun _ _ _ _ hlt hgt ↦ (String.lt_asymm hlt hgt).elim) hm hn

end Members

end Herald.Json
