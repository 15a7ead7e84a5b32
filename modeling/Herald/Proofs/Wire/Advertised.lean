import Herald.Proofs.Wire.Members
import Herald.ServerInfo

namespace Herald

namespace Json

variable {α : Type} {ms : List (String × Json)} {key : String} {value : Json}
  {found : Option Json} {read : Json → Option α} {write : α → Json} {o : Option α}

theorem text?_eq_some_iff {t : String} : text? value = some t ↔ value = .str t := by
  cases value <;> simp [text?]

theorem bool?_eq_some_iff {b : Bool} : bool? value = some b ↔ value = .bool b := by
  cases value <;> simp [bool?]

theorem nat?_eq_some_iff {bound n : Nat} :
    nat? bound value = some n ↔ value = .ofNat n ∧ n < bound := by
  unfold nat?
  split
  · rename_i i
    split
    · rename_i hi
      rw [Option.some.injEq, ofNat, num.injEq, Number.int.injEq]
      omega
    · rename_i hi
      rw [ofNat, num.injEq, Number.int.injEq]
      exact iff_of_false nofun fun ⟨he, hlt⟩ ↦ hi (by omega)
  · rename_i hv
    exact iff_of_false nofun fun ⟨he, _⟩ ↦ hv n he

theorem get?_reverse (ms : List (String × Json)) (key : String) :
    Members.get? ms.reverse key = (ms.filter (·.1 == key)).getLast?.map (·.2) := by
  rw [Members.get?, ← List.head?_filter, List.filter_reverse, List.head?_reverse]

theorem member?_eq_some_iff : member? key ms = some found ↔
    (ms.filter (·.1 == key)).length ≤ 1 ∧ Members.get? ms.reverse key = found := by
  rw [get?_reverse]
  unfold member?
  split
  · rename_i he
    simp [he]
  · rename_i m he
    simp [he]
  · rename_i hn hs
    refine iff_of_false nofun fun ⟨hl, _⟩ ↦ ?_
    match he : ms.filter (·.1 == key) with
    | [] => exact hn he
    | [m] => exact hs m he
    | _ :: _ :: _ =>
      rw [he] at hl
      simp at hl

theorem mem_iff_get?_reverse (h : (ms.filter (·.1 == key)).length ≤ 1) :
    (key, value) ∈ ms ↔ Members.get? ms.reverse key = some value := by
  constructor
  · intro hm
    have hf : (key, value) ∈ ms.filter (·.1 == key) :=
      List.mem_filter.2 ⟨hm, beq_self_eq_true key⟩
    rw [get?_reverse]
    match he : ms.filter (·.1 == key) with
    | [] =>
      rw [he] at hf
      cases hf
    | [m] =>
      rw [he, List.mem_singleton] at hf
      rw [he, ← hf]
      rfl
    | _ :: _ :: _ =>
      rw [he] at h
      simp at h
  · exact fun hg ↦ List.mem_reverse.1 (Members.mem_of_get? hg)

def told : Option Json → Option Json
  | some null => none
  | found => found

theorem optional?_of_ne_null (h : value ≠ null) :
    optional? read (some value) = (read value).map some := by
  unfold optional?
  split
  · contradiction
  · rename_i he
    exact (h (Option.some.inj he)).elim
  · rename_i he
    rw [Option.some.inj he]

/-- What is read is written as it was found, and so it is read again. -/
theorem told_of_optional? (hi : ∀ j v, read j = some v → j = write v)
    (h : optional? read found = some o) :
    o.map write = told found ∧ optional? read (o.map write) = some o := by
  cases found with
  | none =>
    cases h
    exact ⟨rfl, rfl⟩
  | some value =>
    by_cases hn : value = null
    · subst hn
      cases h
      exact ⟨rfl, rfl⟩
    · have h' := h
      rw [optional?_of_ne_null hn] at h'
      obtain ⟨v, hv, rfl⟩ := Option.map_eq_some_iff.1 h'
      have hw : (some v).map write = some value := congrArg some (hi value v hv).symm
      rw [hw]
      refine ⟨?_, h⟩
      unfold told
      split
      · rename_i he
        exact (hn (Option.some.inj he)).elim
      · rfl

theorem exists_optional?_iff :
    (∃ o, ∃ found, member? key ms = some found ∧ optional? read found = some o) ↔
      (ms.filter (·.1 == key)).length ≤ 1 ∧
        ∀ value, (key, value) ∈ ms → value = null ∨ ∃ v, read value = some v := by
  constructor
  · rintro ⟨o, found, hm, ho⟩
    obtain ⟨hl, rfl⟩ := member?_eq_some_iff.1 hm
    refine ⟨hl, fun value hv ↦ or_iff_not_imp_left.2 fun hn ↦ ?_⟩
    rw [(mem_iff_get?_reverse hl).1 hv, optional?_of_ne_null hn] at ho
    obtain ⟨v, hv, -⟩ := Option.map_eq_some_iff.1 ho
    exact ⟨v, hv⟩
  · rintro ⟨hl, hr⟩
    cases hg : Members.get? ms.reverse key with
    | none => exact ⟨none, none, member?_eq_some_iff.2 ⟨hl, hg⟩, rfl⟩
    | some value =>
      have hm := member?_eq_some_iff.2 ⟨hl, hg⟩
      by_cases hn : value = null
      · exact ⟨none, some value, hm, by rw [hn]; rfl⟩
      · obtain ⟨v, hv⟩ := (hr value ((mem_iff_get?_reverse hl).2 hg)).resolve_left hn
        exact ⟨some v, some value, hm, by rw [optional?_of_ne_null hn, hv]; rfl⟩

theorem exists_bool?_iff :
    (∃ b, ∃ found, member? key ms = some found ∧ found.elim (some false) bool? = some b) ↔
      (ms.filter (·.1 == key)).length ≤ 1 ∧
        ∀ value, (key, value) ∈ ms → ∃ b, value = .bool b := by
  constructor
  · rintro ⟨b, found, hm, hb⟩
    obtain ⟨hl, rfl⟩ := member?_eq_some_iff.1 hm
    refine ⟨hl, fun value hv ↦ ⟨b, ?_⟩⟩
    rw [(mem_iff_get?_reverse hl).1 hv] at hb
    exact bool?_eq_some_iff.1 hb
  · rintro ⟨hl, hr⟩
    have hm := member?_eq_some_iff.2 ⟨hl, rfl⟩
    cases hg : Members.get? ms.reverse key with
    | none => exact ⟨false, none, hg ▸ hm, rfl⟩
    | some value =>
      obtain ⟨b, rfl⟩ := hr value ((mem_iff_get?_reverse hl).2 hg)
      exact ⟨b, some (.bool b), hg ▸ hm, rfl⟩

end Json

namespace ServerInfo

open Json (Members collect told)

variable {ms ns : List (String × Json)} {i : ServerInfo} {key : String} {value : Json}

def written? (s : String) : Option (List (String × Json)) :=
  match Json.Form.parse? s with
  | some (.obj ms) => membersOf? ms
  | _ => none

theorem parse?_eq (s : String) : parse? s = (written? s).bind ofMembers? := by
  unfold parse? written?
  cases Json.Form.parse? s with
  | none => rfl
  | some form => cases form <;> rfl

theorem ofMembers?_eq_collect (fs : List (List Json.Piece × Json.Form)) (done : Members) :
    Json.ofMembers? (Json.maxDepth - 1) fs done = (membersOf? fs).map (collect · done) := by
  induction fs generalizing done with
  | nil =>
    rw [Json.ofMembers?]
    rfl
  | cons f fs ih =>
    obtain ⟨ps, x⟩ := f
    rw [Json.ofMembers?, membersOf?]
    cases Json.string? ps with
    | none => rfl
    | some k =>
      cases Json.ofForm? (Json.maxDepth - 1) x with
      | none => rfl
      | some v =>
        dsimp only
        rw [ih]
        cases membersOf? fs <;> rfl

/-- An object has the members that are written, the last of those with one key. -/
theorem parse?_eq_obj_iff {s : String} {m : Members} :
    Json.parse? s = some (.obj m) ↔ ∃ ms, written? s = some ms ∧ collect ms [] = m := by
  have hd : Json.maxDepth = Json.maxDepth - 1 + 1 := rfl
  rw [Json.parse?, written?]
  cases Json.Form.parse? s with
  | none => simp
  | some form =>
    rw [Option.bind_some, hd]
    cases form with
    | obj fs => simp [Json.ofForm?, ofMembers?_eq_collect]
    | null | bool _ | num _ | str _ | arr _ => simp [Json.ofForm?]

def Untyped (key : String) : Bool := !typedKeys.contains key

structure Reads (ms : List (String × Json)) (i : ServerInfo) : Prop where
  serverId : ∃ found, Json.member? "server_id" ms = some found ∧
    Json.optional? Json.text? found = some i.serverId
  version : ∃ found, Json.member? "version" ms = some found ∧
    Json.optional? Json.text? found = some i.version
  host : ∃ found, Json.member? "host" ms = some found ∧
    Json.optional? Json.text? found = some i.host
  port : ∃ found, Json.member? "port" ms = some found ∧
    Json.optional? (Json.nat? UInt16.size) found = some i.port
  maxPayload : ∃ found, Json.member? "max_payload" ms = some found ∧
    Json.optional? (Json.nat? UInt64.size) found = some i.maxPayload
  authRequired : ∃ found, Json.member? "auth_required" ms = some found ∧
    found.elim (some false) Json.bool? = some i.authRequired
  extra : i.extra = collect (ms.filter (Untyped ·.1)) []

theorem ofMembers?_eq_some_iff : ofMembers? ms = some i ↔ Reads ms i := by
  simp only [ofMembers?, Option.bind_eq_bind, Option.bind_eq_some_iff]
  constructor
  · rintro ⟨f₁, h₁, _, r₁, f₂, h₂, _, r₂, f₃, h₃, _, r₃, f₄, h₄, _, r₄, f₅, h₅, _, r₅, f₆, h₆, h⟩
    cases f₆ with
    | none =>
      cases h
      exact ⟨⟨f₁, h₁, r₁⟩, ⟨f₂, h₂, r₂⟩, ⟨f₃, h₃, r₃⟩, ⟨f₄, h₄, r₄⟩, ⟨f₅, h₅, r₅⟩, ⟨_, h₆, rfl⟩,
        rfl⟩
    | some j =>
      obtain ⟨_, r₆, he⟩ := Option.bind_eq_some_iff.1 h
      cases he
      exact ⟨⟨f₁, h₁, r₁⟩, ⟨f₂, h₂, r₂⟩, ⟨f₃, h₃, r₃⟩, ⟨f₄, h₄, r₄⟩, ⟨f₅, h₅, r₅⟩, ⟨_, h₆, r₆⟩, rfl⟩
  · rintro ⟨⟨f₁, h₁, r₁⟩, ⟨f₂, h₂, r₂⟩, ⟨f₃, h₃, r₃⟩, ⟨f₄, h₄, r₄⟩, ⟨f₅, h₅, r₅⟩, ⟨f₆, h₆, r₆⟩, he⟩
    refine ⟨f₁, h₁, _, r₁, f₂, h₂, _, r₂, f₃, h₃, _, r₃, f₄, h₄, _, r₄, f₅, h₅, _, r₅, f₆, h₆, ?_⟩
    obtain ⟨_, _, _, _, _, _, _⟩ := i
    cases he
    cases f₆ with
    | none =>
      cases r₆
      rfl
    | some j =>
      exact Option.bind_eq_some_iff.2 ⟨_, r₆, rfl⟩

theorem get?_untyped (ms : List (String × Json)) (key : String) :
    (collect (ms.filter (Untyped ·.1)) []).get? key =
      if Untyped key then Members.get? ms.reverse key else none := by
  rw [Members.get?_collect, Members.get?_nil, Option.or_none, ← List.filter_reverse]
  split
  · rename_i hu
    exact Members.get?_filter Untyped hu ms.reverse
  · rename_i hu
    exact Members.get?_eq_none fun m hm he ↦ hu (he ▸ (List.mem_filter.1 hm).2)

def fields (i : ServerInfo) : List (String × Option Json) :=
  [("server_id", i.serverId.map .str), ("version", i.version.map .str), ("host", i.host.map .str),
    ("port", i.port.map Json.ofNat), ("max_payload", i.maxPayload.map Json.ofNat),
    ("auth_required", some (.bool i.authRequired))]

def present (fs : List (String × Option Json)) : Members := fs.filterMap fun f ↦ f.2.map (f.1, ·)

theorem members_eq (i : ServerInfo) : i.members = present i.fields ++ i.extra := by
  obtain ⟨_ | _, _ | _, _ | _, _ | _, _ | _, _, _⟩ := i <;> rfl

theorem key_of_present {fs : List (String × Option Json)} {m : String × Json}
    (h : m ∈ present fs) : m.1 ∈ fs.map Prod.fst := by
  obtain ⟨f, hf, ho⟩ := List.mem_filterMap.1 h
  obtain ⟨v, -, rfl⟩ := Option.map_eq_some_iff.1 ho
  exact List.mem_map_of_mem hf

theorem nodup_present {fs : List (String × Option Json)} (h : (fs.map Prod.fst).Nodup) :
    ((present fs).map Prod.fst).Nodup := by
  induction fs with
  | nil => exact List.nodup_nil
  | cons f fs ih =>
    obtain ⟨key, o⟩ := f
    obtain ⟨hk, hfs⟩ := List.nodup_cons.1 h
    cases o with
    | none => exact ih hfs
    | some v =>
      refine List.nodup_cons.2 ⟨fun hm ↦ hk ?_, ih hfs⟩
      obtain ⟨m, hm, he⟩ := List.mem_map.1 hm
      exact he ▸ key_of_present hm

theorem get?_present {fs : List (String × Option Json)} (h : (fs.map Prod.fst).Nodup)
    {o : Option Json} (hm : (key, o) ∈ fs) : (present fs).get? key = o := by
  ext value
  rw [Members.get?_eq_some_iff (nodup_present h), present, List.mem_filterMap]
  constructor
  · rintro ⟨⟨k, o'⟩, hf, ho⟩
    obtain ⟨v, rfl, he⟩ := Option.map_eq_some_iff.1 ho
    cases he
    exact (Prod.mk.inj (List.inj_on_of_nodup_map h hf hm rfl)).2.symm
  · rintro rfl
    exact ⟨(key, some value), hm, rfl⟩

theorem nodup_fields (i : ServerInfo) : (i.fields.map Prod.fst).Nodup := by
  have h : typedKeys.Nodup := by decide
  exact h

/-- What a key is bound to. A typed key that is bound to null is not bound, and `auth_required` is
false if the server does not say. -/
def advertised (m : Members) (key : String) : Option Json :=
  if key = "auth_required" then some ((m.get? key).getD (.bool false))
  else if key ∈ typedKeys then told (m.get? key) else m.get? key

theorem get?_collect_nil (ms : List (String × Json)) (key : String) :
    (collect ms []).get? key = Members.get? ms.reverse key := by
  rw [Members.get?_collect, Members.get?_nil, Option.or_none]

namespace Reads

theorem extra_untyped (h : Reads ms i) : ∀ m ∈ i.extra, m.1 ∉ typedKeys := by
  intro m hm hk
  rw [h.extra] at hm
  have hu := (Members.mem_collect hm).resolve_right List.not_mem_nil
  have hu : Untyped m.1 := (List.mem_filter.1 hu).2
  simp [Untyped, hk] at hu

theorem get?_extra (h : Reads ms i) (hk : key ∈ typedKeys) : i.extra.get? key = none :=
  Members.get?_eq_none fun m hm he ↦ h.extra_untyped m hm (he ▸ hk)

theorem get?_typed (h : Reads ms i) {o : Option Json} (hm : (key, o) ∈ i.fields) :
    i.get? key = o := by
  have hk : key ∈ i.fields.map Prod.fst := List.mem_map_of_mem hm
  rw [ServerInfo.get?, members_eq, Members.get?_append, get?_present (nodup_fields i) hm,
    h.get?_extra hk, Option.or_none]

theorem get?_untyped (h : Reads ms i) (hk : key ∉ typedKeys) :
    i.get? key = Members.get? ms.reverse key := by
  have hp : (present i.fields).get? key = none :=
    Members.get?_eq_none fun m hm he ↦ hk (he ▸ key_of_present hm)
  have hu : Untyped key := by simp [Untyped, hk]
  rw [ServerInfo.get?, members_eq, Members.get?_append, hp, Option.none_or, h.extra,
    ServerInfo.get?_untyped, if_pos hu]

theorem eq_of_text? (j : Json) (t : String) (h : j.text? = some t) : j = .str t :=
  Json.text?_eq_some_iff.1 h

theorem eq_of_nat? {bound : Nat} (j : Json) (n : Nat) (h : j.nat? bound = some n) : j = .ofNat n :=
  (Json.nat?_eq_some_iff.1 h).1

theorem advertised_of_optional {α : Type} {read : Json → Option α} {write : α → Json}
    {o : Option α} (hi : ∀ j v, read j = some v → j = write v)
    (h : ∃ found, Json.member? key ms = some found ∧ Json.optional? read found = some o)
    (hk : key ∈ typedKeys) (ha : key ≠ "auth_required") :
    o.map write = advertised (collect ms []) key := by
  obtain ⟨found, hm, ho⟩ := h
  obtain ⟨-, rfl⟩ := Json.member?_eq_some_iff.1 hm
  rw [advertised, if_neg ha, if_pos hk, get?_collect_nil]
  exact (Json.told_of_optional? hi ho).1

theorem advertised_auth (h : Reads ms i) :
    some (.bool i.authRequired) = advertised (collect ms []) "auth_required" := by
  obtain ⟨found, hm, ho⟩ := h.authRequired
  obtain ⟨-, rfl⟩ := Json.member?_eq_some_iff.1 hm
  rw [advertised, if_pos rfl, get?_collect_nil]
  cases hg : Members.get? ms.reverse "auth_required" with
  | none =>
    rw [hg] at ho
    exact congrArg (some ∘ Json.bool) (Option.some.inj ho).symm
  | some value =>
    rw [hg] at ho
    rw [Json.bool?_eq_some_iff.1 ho]
    rfl

theorem fields_advertised (h : Reads ms i) :
    ∀ f ∈ i.fields, f.2 = advertised (collect ms []) f.1 := by
  simp only [fields, List.forall_mem_cons]
  exact ⟨advertised_of_optional eq_of_text? h.serverId (by decide) (by decide),
    advertised_of_optional eq_of_text? h.version (by decide) (by decide),
    advertised_of_optional eq_of_text? h.host (by decide) (by decide),
    advertised_of_optional eq_of_nat? h.port (by decide) (by decide),
    advertised_of_optional eq_of_nat? h.maxPayload (by decide) (by decide),
    h.advertised_auth, List.forall_mem_nil _⟩

/-- Every key is looked up as the object binds it. -/
theorem get?_eq (h : Reads ms i) (key : String) : i.get? key = advertised (collect ms []) key := by
  by_cases hk : key ∈ typedKeys
  · obtain ⟨⟨k, o⟩, hm, rfl⟩ := List.mem_map.1 (show key ∈ i.fields.map Prod.fst from hk)
    rw [h.get?_typed hm]
    exact h.fields_advertised _ hm
  · have ha : key ≠ "auth_required" := by
      rintro rfl
      exact hk (by decide)
    rw [h.get?_untyped hk, advertised, if_neg ha, if_neg hk, get?_collect_nil]

theorem sorted_extra (h : Reads ms i) : i.extra.Sorted :=
  h.extra ▸ Members.sorted_collect List.Pairwise.nil _

theorem nodup_members (h : Reads ms i) : (i.members.map Prod.fst).Nodup := by
  rw [members_eq, List.map_append, List.nodup_append]
  refine ⟨nodup_present (nodup_fields i), h.sorted_extra.nodup, ?_⟩
  intro key hk other ho he
  obtain ⟨m, hm, rfl⟩ := List.mem_map.1 hk
  obtain ⟨n, hn, rfl⟩ := List.mem_map.1 ho
  exact h.extra_untyped n hn (he ▸ key_of_present hm)

/-- What was told is read back from all of it, in whatever order. -/
theorem again (h : Reads ms i) (hp : ns.Perm i.members) : Reads ns i := by
  have hg (key : String) : Members.get? ns.reverse key = i.get? key :=
    Members.get?_perm h.nodup_members ((List.reverse_perm ns).trans hp) key
  have hl (key : String) : (ns.filter (·.1 == key)).length ≤ 1 := by
    have hn : (ns.map Prod.fst).Nodup := (hp.map Prod.fst).nodup_iff.2 h.nodup_members
    have hc := List.nodup_iff_count_le_one.1 hn key
    rwa [List.count_eq_countP, List.countP_map, List.countP_eq_length_filter] at hc
  have hm {key : String} {o : Option Json} (hf : (key, o) ∈ i.fields) :
      Json.member? key ns = some o :=
    Json.member?_eq_some_iff.2 ⟨hl key, (hg key).trans (h.get?_typed hf)⟩
  have hr {α : Type} {read : Json → Option α} {write : α → Json} {o : Option α} {key : String}
      (hi : ∀ j v, read j = some v → j = write v)
      (ho : ∃ found, Json.member? key ms = some found ∧ Json.optional? read found = some o) :
      Json.optional? read (o.map write) = some o := by
    obtain ⟨found, -, hf⟩ := ho
    exact (Json.told_of_optional? hi hf).2
  refine ⟨⟨_, hm (by simp [fields]), hr eq_of_text? h.serverId⟩,
    ⟨_, hm (by simp [fields]), hr eq_of_text? h.version⟩,
    ⟨_, hm (by simp [fields]), hr eq_of_text? h.host⟩,
    ⟨_, hm (by simp [fields]), hr eq_of_nat? h.port⟩,
    ⟨_, hm (by simp [fields]), hr eq_of_nat? h.maxPayload⟩,
    ⟨some (.bool i.authRequired), hm (by simp [fields]), rfl⟩, ?_⟩
  refine h.sorted_extra.ext (Members.sorted_collect List.Pairwise.nil _) fun key ↦ ?_
  rw [ServerInfo.get?_untyped, hg]
  split
  · rename_i hu
    have hk : key ∉ typedKeys := by simpa [Untyped] using hu
    rw [h.get?_untyped hk, h.extra, ServerInfo.get?_untyped, if_pos hu]
  · rename_i hu
    have hk : key ∈ typedKeys := by simpa [Untyped] using hu
    exact h.get?_extra hk

end Reads

/-- No typed key stands twice, and each typed value is one that its key may have. -/
structure Admissible (ms : List (String × Json)) : Prop where
  once : ∀ key ∈ typedKeys, (ms.filter (·.1 == key)).length ≤ 1
  text : ∀ key ∈ ["server_id", "version", "host"], ∀ value, (key, value) ∈ ms →
    value = .null ∨ ∃ t, value = .str t
  port : ∀ value, ("port", value) ∈ ms → value = .null ∨ ∃ n < UInt16.size, value = .ofNat n
  maxPayload : ∀ value, ("max_payload", value) ∈ ms →
    value = .null ∨ ∃ n < UInt64.size, value = .ofNat n
  authRequired : ∀ value, ("auth_required", value) ∈ ms → ∃ b, value = .bool b

theorem exists_text_iff :
    (∃ o, ∃ found, Json.member? key ms = some found ∧ Json.optional? Json.text? found = some o) ↔
      (ms.filter (·.1 == key)).length ≤ 1 ∧
        ∀ value, (key, value) ∈ ms → value = .null ∨ ∃ t, value = .str t := by
  simp only [Json.exists_optional?_iff, Json.text?_eq_some_iff]

theorem exists_nat_iff {bound : Nat} :
    (∃ o, ∃ found, Json.member? key ms = some found ∧
        Json.optional? (Json.nat? bound) found = some o) ↔
      (ms.filter (·.1 == key)).length ≤ 1 ∧
        ∀ value, (key, value) ∈ ms → value = .null ∨ ∃ n < bound, value = .ofNat n := by
  simp only [Json.exists_optional?_iff, Json.nat?_eq_some_iff, and_comm]

theorem exists_reads_iff : (∃ i, Reads ms i) ↔ Admissible ms := by
  constructor
  · rintro ⟨i, h⟩
    obtain ⟨h₁, r₁⟩ := exists_text_iff.1 ⟨_, h.serverId⟩
    obtain ⟨h₂, r₂⟩ := exists_text_iff.1 ⟨_, h.version⟩
    obtain ⟨h₃, r₃⟩ := exists_text_iff.1 ⟨_, h.host⟩
    obtain ⟨h₄, r₄⟩ := exists_nat_iff.1 ⟨_, h.port⟩
    obtain ⟨h₅, r₅⟩ := exists_nat_iff.1 ⟨_, h.maxPayload⟩
    obtain ⟨h₆, r₆⟩ := Json.exists_bool?_iff.1 ⟨_, h.authRequired⟩
    refine ⟨?_, ?_, r₄, r₅, r₆⟩
    · simp only [typedKeys, List.forall_mem_cons]
      exact ⟨h₁, h₂, h₃, h₄, h₅, h₆, List.forall_mem_nil _⟩
    · simp only [List.forall_mem_cons]
      exact ⟨r₁, r₂, r₃, List.forall_mem_nil _⟩
  · intro h
    obtain ⟨serverId, h₁⟩ := exists_text_iff.2
      ⟨h.once "server_id" (by decide), h.text "server_id" (by decide)⟩
    obtain ⟨version, h₂⟩ := exists_text_iff.2
      ⟨h.once "version" (by decide), h.text "version" (by decide)⟩
    obtain ⟨host, h₃⟩ := exists_text_iff.2
      ⟨h.once "host" (by decide), h.text "host" (by decide)⟩
    obtain ⟨port, h₄⟩ := exists_nat_iff.2 ⟨h.once _ (by decide), h.port⟩
    obtain ⟨maxPayload, h₅⟩ := exists_nat_iff.2 ⟨h.once _ (by decide), h.maxPayload⟩
    obtain ⟨auth, h₆⟩ := Json.exists_bool?_iff.2 ⟨h.once _ (by decide), h.authRequired⟩
    exact ⟨⟨serverId, version, host, port, maxPayload, auth, _⟩, h₁, h₂, h₃, h₄, h₅, h₆, rfl⟩

/-- An object is accepted if its members are admissible, and then every key is looked up as the
object binds it, by the last of the members with the key. No typed key is among the other ones, and
what was told is read back from all of it, in whatever order. -/
theorem lookup_agrees {s : String} {m : Members} (h : Json.parse? s = some (.obj m)) :
    ∃ ms, written? s = some ms ∧ (∀ key, m.get? key = Members.get? ms.reverse key) ∧
      ((parse? s).isSome ↔ Admissible ms) ∧
      ∀ i, parse? s = some i → (∀ key, i.get? key = advertised m key) ∧
        (∀ e ∈ i.extra, e.1 ∉ typedKeys) ∧ ∀ ns, ns.Perm i.members → ofMembers? ns = some i := by
  obtain ⟨ms, hw, rfl⟩ := parse?_eq_obj_iff.1 h
  have hp : parse? s = ofMembers? ms := by rw [parse?_eq, hw, Option.bind_some]
  refine ⟨ms, hw, get?_collect_nil ms, ?_, fun i hi ↦ ?_⟩
  · rw [hp, Option.isSome_iff_exists, ← exists_reads_iff]
    simp only [ofMembers?_eq_some_iff]
  · have hr : Reads ms i := ofMembers?_eq_some_iff.1 (hp ▸ hi)
    exact ⟨hr.get?_eq, hr.extra_untyped, fun ns hn ↦ ofMembers?_eq_some_iff.2 (hr.again hn)⟩

theorem membersOf?_memberForm {ms : List (String × Json)} (h : ∀ m ∈ ms, m.2.Scalar) :
    membersOf? (ms.map Json.memberForm) = some ms := by
  induction ms with
  | nil => rfl
  | cons m ms ih =>
    obtain ⟨hm, hms⟩ := List.forall_mem_cons.1 h
    have hk : Json.string? (Json.memberForm m).1 = some m.1 := Json.string?_map_piece m.1
    have hv : Json.ofForm? (Json.maxDepth - 1) (Json.memberForm m).2 = some m.2 :=
      Json.ofForm?_form hm _
    rw [List.map_cons, membersOf?, hk, hv, ih hms]

theorem written?_text (h : ∀ m ∈ ms, m.2.Scalar) : written? (Json.obj ms).text = some ms := by
  rw [written?, Json.form_text h]
  exact membersOf?_memberForm h

theorem lookup_agrees_repeated :
    let s := "\x7b\"x\":true,\"version\":\"2.1\",\"x\":\"last\",\"y\":false\x7d"
    ∃ i, parse? s = some i ∧ i.get? "x" = some (.str "last") ∧
      i.get? "version" = some (.str "2.1") ∧ i.get? "host" = none ∧
      i.get? "auth_required" = some (.bool false) ∧ i.get? "z" = none := by
  intro s
  let ms : List (String × Json) :=
    [("x", .bool true), ("version", .str "2.1"), ("x", .str "last"), ("y", .bool false)]
  have hsc : ∀ m ∈ ms, m.2.Scalar := by simp [ms, Json.Scalar]
  have ht : (Json.obj ms).text = s := by rfl
  have hs : Json.parse? s = some (.obj (collect ms [])) := by rw [← ht]; exact Json.parse?_text hsc
  obtain ⟨ms', hw, -, hacc, h⟩ := lookup_agrees hs
  obtain rfl : ms = ms' := Option.some.inj ((written?_text hsc).symm.trans (ht ▸ hw))
  have had : Admissible ms := {
    once := by decide
    text := by simp [ms]
    port := by simp [ms]
    maxPayload := by simp [ms]
    authRequired := by simp [ms] }
  obtain ⟨i, hi⟩ := Option.isSome_iff_exists.1 (hacc.2 had)
  have hg := (h i hi).1
  refine ⟨i, hi, (hg "x").trans ?_, (hg "version").trans ?_, (hg "host").trans ?_,
    (hg "auth_required").trans ?_, (hg "z").trans ?_⟩ <;> rfl

end ServerInfo

end Herald
