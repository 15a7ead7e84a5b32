import Herald.Utf8

namespace Herald

namespace Utf8

theorem decodeFrom_start_cons (b : UInt8) (bs : Bytes) :
    decodeFrom .start (b :: bs) = (first b).1 ++ decodeFrom (first b).2 bs := rfl

theorem decodeFrom_inside {n low high : Nat} (hl : low ≤ n) (hh : n ≤ high) (hb : n < 256)
    (code owed : Nat) (bs : Bytes) :
    decodeFrom (.inside code owed low high) (UInt8.ofNat n :: bs) =
      if owed = 1 then some (Char.ofNat (code * 64 + (n - 0x80))) :: decodeFrom .start bs
      else decodeFrom (.inside (code * 64 + (n - 0x80)) (owed - 1) 0x80 0xBF) bs := by
  have hn := UInt8.toNat_ofNat_of_lt' (show n < 256 by omega)
  rw [decodeFrom, step, hn, if_pos ⟨hl, hh⟩]
  split <;> rfl

theorem first_one {n : Nat} (h : n < 0x80) :
    first (UInt8.ofNat n) = ([some (Char.ofNat n)], .start) := by
  have hn := UInt8.toNat_ofNat_of_lt' (show n < 256 by omega)
  simp only [first, hn, if_pos h]

theorem first_two {n : Nat} (hl : 0xC2 ≤ n) (hh : n ≤ 0xDF) :
    first (UInt8.ofNat n) = ([], .inside (n - 0xC0) 1 0x80 0xBF) := by
  have hn := UInt8.toNat_ofNat_of_lt' (show n < 256 by omega)
  simp (disch := omega) only [first, hn, if_pos, if_neg]

/-- The first of three octets. The next one must leave no code that two octets could give, nor half
of a surrogate pair. -/
theorem first_three {n : Nat} (hl : 0xE0 ≤ n) (hh : n ≤ 0xEF) :
    first (UInt8.ofNat n) = ([], .inside (n - 0xE0) 2 (if n = 0xE0 then 0xA0 else 0x80)
      (if n = 0xED then 0x9F else 0xBF)) := by
  have hn := UInt8.toNat_ofNat_of_lt' (show n < 256 by omega)
  by_cases he : n = 0xE0
  · subst he
    rfl
  by_cases hd : n = 0xED
  · subst hd
    rfl
  simp (disch := omega) only [first, hn, if_pos, if_neg]

/-- The first of four octets. The next one must leave no code that three octets could give, nor one
beyond the last plane. -/
theorem first_four {n : Nat} (hl : 0xF0 ≤ n) (hh : n ≤ 0xF4) :
    first (UInt8.ofNat n) = ([], .inside (n - 0xF0) 3 (if n = 0xF0 then 0x90 else 0x80)
      (if n = 0xF4 then 0x8F else 0xBF)) := by
  have hn := UInt8.toNat_ofNat_of_lt' (show n < 256 by omega)
  by_cases he : n = 0xF0
  · subst he
    rfl
  by_cases hd : n = 0xF4
  · subst hd
    rfl
  simp (disch := omega) only [first, hn, if_pos, if_neg]

/-- The octets of a character are read as just this character, whatever follows. -/
theorem decodeFrom_encodeChar (c : Char) (bs : Bytes) :
    decodeFrom .start (String.utf8EncodeChar c ++ bs) = some c :: decodeFrom .start bs := by
  have hv : c.val.toNat < 0xD800 ∨ 0xDFFF < c.val.toNat ∧ c.val.toNat < 0x110000 := c.valid
  have hc : Char.ofNat c.val.toNat = c := Char.ofNat_toNat c
  generalize hn : c.val.toNat = v at hv hc
  simp only [String.utf8EncodeChar, hn]
  -- by the number of octets, which the first one tells
  split
  · rw [List.cons_append, decodeFrom_start_cons, first_one (by omega), hc]
    rfl
  split
  · have he : (v / 64 % 32 + 192 - 0xC0) * 64 + (v % 64 + 128 - 0x80) = v := by omega
    rw [List.cons_append, decodeFrom_start_cons, first_two (by omega) (by omega), List.cons_append,
      List.nil_append, decodeFrom_inside (by omega) (by omega) (by omega), if_pos rfl, he, hc]
    rfl
  split
  · have he : ((v / 4096 % 16 + 224 - 0xE0) * 64 + (v / 64 % 64 + 128 - 0x80)) * 64 +
        (v % 64 + 128 - 0x80) = v := by omega
    rw [List.cons_append, decodeFrom_start_cons, first_three (by omega) (by omega),
      List.cons_append, List.nil_append,
      decodeFrom_inside (by split <;> omega) (by split <;> omega) (by omega), if_neg (by decide),
      List.cons_append, decodeFrom_inside (by omega) (by omega) (by omega), if_pos rfl, he, hc]
    rfl
  · have he : (((v / 262144 % 8 + 240 - 0xF0) * 64 + (v / 4096 % 64 + 128 - 0x80)) * 64 +
        (v / 64 % 64 + 128 - 0x80)) * 64 + (v % 64 + 128 - 0x80) = v := by omega
    rw [List.cons_append, decodeFrom_start_cons, first_four (by omega) (by omega),
      List.cons_append, List.nil_append,
      decodeFrom_inside (by split <;> omega) (by split <;> omega) (by omega), if_neg (by decide),
      List.cons_append, decodeFrom_inside (by omega) (by omega) (by omega), if_neg (by decide),
      List.cons_append, decodeFrom_inside (by omega) (by omega) (by omega), if_pos rfl, he, hc]
    rfl

theorem decode_encode (cs : List Char) :
    decode (cs.flatMap String.utf8EncodeChar) = cs.map some := by
  induction cs with
  | nil => rfl
  | cons c cs ih =>
    rw [List.flatMap_cons, decode, decodeFrom_encodeChar, List.map_cons]
    exact congrArg (some c :: ·) ih

end Utf8

namespace Bytes

theorem ofString_eq (s : String) : ofString s = s.toList.flatMap String.utf8EncodeChar := by
  have h : s.toUTF8 = (s.toList.flatMap String.utf8EncodeChar).toByteArray := by
    rw [String.toUTF8_eq_toByteArray, ← List.utf8Encode, ← String.toByteArray_ofList,
      String.ofList_toList]
  rw [ofString, h, List.toList_data_toByteArray]

/-- No octet of a longer character is below 128. -/
theorem mem_encodeChar {c : Char} {b : UInt8} (h : b ∈ String.utf8EncodeChar c)
    (hb : b.toNat < 0x80) : c.toNat = b.toNat := by
  have hv : c.val.toNat < 0xD800 ∨ 0xDFFF < c.val.toNat ∧ c.val.toNat < 0x110000 := c.valid
  have hn (n : Nat) : (UInt8.ofNat n).toNat = n % 256 := UInt8.toNat_ofNat'
  simp only [String.utf8EncodeChar] at h
  split at h
  · obtain rfl := List.mem_singleton.1 h
    rw [hn, Nat.mod_eq_of_lt (by omega)]
    rfl
  · exfalso
    split at h
    · simp only [List.mem_cons, List.not_mem_nil, or_false] at h
      rcases h with rfl | rfl <;> rw [hn] at hb <;> omega
    split at h
    · simp only [List.mem_cons, List.not_mem_nil, or_false] at h
      rcases h with rfl | rfl | rfl <;> rw [hn] at hb <;> omega
    · simp only [List.mem_cons, List.not_mem_nil, or_false] at h
      rcases h with rfl | rfl | rfl | rfl <;> rw [hn] at hb <;> omega

theorem mem_ofString {s : String} {b : UInt8} (h : b ∈ ofString s) (hb : b.toNat < 0x80) :
    ∃ c ∈ s.toList, c.toNat = b.toNat := by
  rw [ofString_eq] at h
  obtain ⟨c, hc, hm⟩ := List.mem_flatMap.1 h
  exact ⟨c, hc, mem_encodeChar hm hb⟩

theorem printable_ofString {s : String} (h : ∀ c ∈ s.toList, 32 ≤ c.toNat) :
    ∀ b ∈ ofString s, 32 ≤ b.toNat := by
  intro b hb
  by_cases hl : b.toNat < 0x80
  · obtain ⟨c, hc, he⟩ := mem_ofString hb hl
    have hc := h c hc
    omega
  · omega

end Bytes

namespace Utf8

theorem mapM_id_eq_some_iff {xs : List (Option Char)} {cs : List Char} :
    xs.mapM id = some cs ↔ xs = cs.map some := by
  induction xs generalizing cs with
  | nil => cases cs <;> simp
  | cons x xs ih =>
    cases x with
    | none => cases cs <;> simp
    | some c =>
      cases cs with
      | nil => simp [Option.bind_eq_some_iff]
      | cons d cs =>
        simp only [List.mapM_cons, id_eq, Option.bind_eq_bind, Option.bind_some,
          Option.bind_eq_some_iff, Option.pure_def, Option.some.injEq, List.cons.injEq, ih,
          List.map_cons]
        exact ⟨fun ⟨_, hx, hc, he⟩ ↦ ⟨hc, he ▸ hx⟩, fun ⟨hc, hx⟩ ↦ ⟨cs, hx, hc, rfl⟩⟩

@[simp] theorem decode?_ofString (s : String) : decode? (Bytes.ofString s) = some s := by
  rw [decode?, Bytes.ofString_eq, decode_encode, mapM_id_eq_some_iff.2 rfl, Option.map_some,
    String.ofList_toList]

theorem encodeChar_ofNat {v : Nat} (h : v.isValidChar) :
    String.utf8EncodeChar (Char.ofNat v) =
      if v ≤ 0x7F then [UInt8.ofNat v]
      else if v ≤ 0x7FF then [UInt8.ofNat (v / 64 % 32 + 192), UInt8.ofNat (v % 64 + 128)]
      else if v ≤ 0xFFFF then
        [UInt8.ofNat (v / 4096 % 16 + 224), UInt8.ofNat (v / 64 % 64 + 128),
          UInt8.ofNat (v % 64 + 128)]
      else
        [UInt8.ofNat (v / 262144 % 8 + 240), UInt8.ofNat (v / 4096 % 64 + 128),
          UInt8.ofNat (v / 64 % 64 + 128), UInt8.ofNat (v % 64 + 128)] := by
  have hv : (Char.ofNat v).val.toNat = v := by
    rw [Char.ofNat, dif_pos h]
    rfl
  simp only [String.utf8EncodeChar, hv]

theorem encodeChar_two {n m : Nat} (hn : 0xC2 ≤ n ∧ n ≤ 0xDF) (hm : 0x80 ≤ m ∧ m ≤ 0xBF) :
    String.utf8EncodeChar (Char.ofNat ((n - 0xC0) * 64 + (m - 0x80))) =
      [UInt8.ofNat n, UInt8.ofNat m] := by
  rw [encodeChar_ofNat (by simp only [Nat.isValidChar]; omega), if_neg (by omega),
    if_pos (by omega)]
  have h₁ : ((n - 0xC0) * 64 + (m - 0x80)) / 64 % 32 + 192 = n := by omega
  have h₂ : ((n - 0xC0) * 64 + (m - 0x80)) % 64 + 128 = m := by omega
  rw [h₁, h₂]

theorem encodeChar_three {n m k : Nat} (hn : 0xE0 ≤ n ∧ n ≤ 0xEF)
    (hm : (if n = 0xE0 then 0xA0 else 0x80) ≤ m ∧ m ≤ if n = 0xED then 0x9F else 0xBF)
    (hk : 0x80 ≤ k ∧ k ≤ 0xBF) :
    String.utf8EncodeChar (Char.ofNat (((n - 0xE0) * 64 + (m - 0x80)) * 64 + (k - 0x80))) =
      [UInt8.ofNat n, UInt8.ofNat m, UInt8.ofNat k] := by
  have hm' : 0x80 ≤ m ∧ m ≤ 0xBF := by
    constructor
    · split at hm <;> omega
    · have := hm.2
      split at this <;> omega
  generalize hv : ((n - 0xE0) * 64 + (m - 0x80)) * 64 + (k - 0x80) = v
  have hlow : 0x800 ≤ v := by
    have := hm.1
    split at this <;> omega
  have hvalid : v.isValidChar := by
    have := hm.2
    simp only [Nat.isValidChar]
    split at this <;> omega
  rw [encodeChar_ofNat hvalid, if_neg (by omega), if_neg (by omega), if_pos (by omega)]
  have h₁ : v / 4096 % 16 + 224 = n := by omega
  have h₂ : v / 64 % 64 + 128 = m := by omega
  have h₃ : v % 64 + 128 = k := by omega
  rw [h₁, h₂, h₃]

theorem encodeChar_four {n m k j : Nat} (hn : 0xF0 ≤ n ∧ n ≤ 0xF4)
    (hm : (if n = 0xF0 then 0x90 else 0x80) ≤ m ∧ m ≤ if n = 0xF4 then 0x8F else 0xBF)
    (hk : 0x80 ≤ k ∧ k ≤ 0xBF) (hj : 0x80 ≤ j ∧ j ≤ 0xBF) :
    String.utf8EncodeChar (Char.ofNat
        ((((n - 0xF0) * 64 + (m - 0x80)) * 64 + (k - 0x80)) * 64 + (j - 0x80))) =
      [UInt8.ofNat n, UInt8.ofNat m, UInt8.ofNat k, UInt8.ofNat j] := by
  have hm' : 0x80 ≤ m ∧ m ≤ 0xBF := by
    constructor
    · split at hm <;> omega
    · have := hm.2
      split at this <;> omega
  generalize hv : (((n - 0xF0) * 64 + (m - 0x80)) * 64 + (k - 0x80)) * 64 + (j - 0x80) = v
  have hlow : 0x10000 ≤ v := by
    have := hm.1
    split at this <;> omega
  have hvalid : v.isValidChar := by
    have := hm.2
    simp only [Nat.isValidChar]
    split at this <;> omega
  rw [encodeChar_ofNat hvalid, if_neg (by omega), if_neg (by omega), if_neg (by omega)]
  have h₁ : v / 262144 % 8 + 240 = n := by omega
  have h₂ : v / 4096 % 64 + 128 = m := by omega
  have h₃ : v / 64 % 64 + 128 = k := by omega
  have h₄ : v % 64 + 128 = j := by omega
  rw [h₁, h₂, h₃, h₄]

theorem first_other {n : Nat} (hl : 0x80 ≤ n ∧ n < 0xC2 ∨ 0xF4 < n) (hh : n < 256) :
    first (UInt8.ofNat n) = ([none], .start) := by
  have hn := UInt8.toNat_ofNat_of_lt' hh
  rcases hl with hl | hl
  · simp (disch := omega) only [first, hn, if_pos, if_neg]
  · simp (disch := omega) only [first, hn, if_neg]

/-- A character that has begun goes on with an octet in its range. -/
theorem exists_of_decodeFrom_inside {code owed low high : Nat} {bs : Bytes} {cs : List Char}
    (h : decodeFrom (.inside code owed low high) bs = cs.map some) :
    ∃ n rest, bs = UInt8.ofNat n :: rest ∧ (low ≤ n ∧ n ≤ high) ∧
      (if owed = 1 then some (Char.ofNat (code * 64 + (n - 0x80))) :: decodeFrom .start rest
        else decodeFrom (.inside (code * 64 + (n - 0x80)) (owed - 1) 0x80 0xBF) rest) =
          cs.map some := by
  cases bs with
  | nil => cases cs <;> simp [decodeFrom] at h
  | cons b rest =>
    have hb : UInt8.ofNat b.toNat = b := UInt8.ofNat_toNat
    by_cases hr : low ≤ b.toNat ∧ b.toNat ≤ high
    · refine ⟨b.toNat, rest, by rw [hb], hr, ?_⟩
      rwa [← hb, decodeFrom_inside hr.1 hr.2 b.toNat_lt] at h
    · rw [decodeFrom, step, if_neg hr] at h
      cases cs <;> simp at h

/-- Octets that are read as characters alone begin with the octets of the first one. -/
theorem exists_of_decodeFrom_start {b : UInt8} {bs : Bytes} {cs : List Char}
    (h : decodeFrom .start (b :: bs) = cs.map some) :
    ∃ c rest, b :: bs = String.utf8EncodeChar c ++ rest ∧
      some c :: decodeFrom .start rest = cs.map some := by
  obtain ⟨n, hn, rfl⟩ : ∃ n, n < 256 ∧ b = UInt8.ofNat n :=
    ⟨b.toNat, b.toNat_lt, UInt8.ofNat_toNat.symm⟩
  rw [decodeFrom_start_cons] at h
  -- by the number of octets, which the first one tells
  by_cases h₁ : n < 0x80
  · rw [first_one h₁] at h
    refine ⟨Char.ofNat n, bs, ?_, h⟩
    rw [encodeChar_ofNat (by simp only [Nat.isValidChar]; omega), if_pos (by omega)]
    rfl
  by_cases h₂ : 0xC2 ≤ n ∧ n ≤ 0xDF
  · rw [first_two h₂.1 h₂.2] at h
    obtain ⟨m, rest, rfl, hm, h⟩ := exists_of_decodeFrom_inside h
    rw [if_pos rfl] at h
    exact ⟨_, rest, by rw [encodeChar_two h₂ hm]; rfl, h⟩
  by_cases h₃ : 0xE0 ≤ n ∧ n ≤ 0xEF
  · rw [first_three h₃.1 h₃.2] at h
    obtain ⟨m, rest, rfl, hm, h⟩ := exists_of_decodeFrom_inside h
    rw [if_neg (by decide)] at h
    obtain ⟨k, rest, rfl, hk, h⟩ := exists_of_decodeFrom_inside h
    rw [if_pos rfl] at h
    exact ⟨_, rest, by rw [encodeChar_three h₃ hm hk]; rfl, h⟩
  by_cases h₄ : 0xF0 ≤ n ∧ n ≤ 0xF4
  · rw [first_four h₄.1 h₄.2] at h
    obtain ⟨m, rest, rfl, hm, h⟩ := exists_of_decodeFrom_inside h
    rw [if_neg (by decide)] at h
    obtain ⟨k, rest, rfl, hk, h⟩ := exists_of_decodeFrom_inside h
    rw [if_neg (by decide)] at h
    obtain ⟨j, rest, rfl, hj, h⟩ := exists_of_decodeFrom_inside h
    rw [if_pos rfl] at h
    exact ⟨_, rest, by rw [encodeChar_four h₄ hm hk hj]; rfl, h⟩
  · rw [first_other (by omega) hn] at h
    cases cs <;> cases h

theorem encode_of_decodeFrom {bs : Bytes} {cs : List Char}
    (h : decodeFrom .start bs = cs.map some) : bs = cs.flatMap String.utf8EncodeChar := by
  induction cs generalizing bs with
  | nil =>
    cases bs with
    | nil => rfl
    | cons b bs =>
      obtain ⟨c, rest, -, h⟩ := exists_of_decodeFrom_start h
      cases h
  | cons c cs ih =>
    cases bs with
    | nil => cases h
    | cons b bs =>
      obtain ⟨c', rest, hb, h⟩ := exists_of_decodeFrom_start h
      obtain ⟨hc, h⟩ := List.cons.inj h
      rw [hb, Option.some.inj hc, List.flatMap_cons, ih h]

/-- Octets are read as a text just if they are the octets of that text. -/
theorem decode?_eq_some_iff {bs : Bytes} {s : String} :
    decode? bs = some s ↔ bs = Bytes.ofString s := by
  constructor
  · intro h
    obtain ⟨cs, hc, rfl⟩ := Option.map_eq_some_iff.1 h
    rw [Bytes.ofString_eq, String.toList_ofList]
    exact encode_of_decodeFrom (mapM_id_eq_some_iff.1 hc)
  · rintro rfl
    exact decode?_ofString s

end Utf8

end Herald
