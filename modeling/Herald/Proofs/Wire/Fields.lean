import Herald.Text.Basic

namespace Herald.Text

def IsWord (s : String) : Prop := s ≠ "" ∧ ∀ c ∈ s.toList, isAsciiSpace c = false

-- over the characters of the text alone, not over all there are
instance (s : String) : Decidable (IsWord s) :=
  have : Decidable (∀ c ∈ s.toList, isAsciiSpace c = false) := List.decidableBAll _ _
  instDecidableAnd

theorem firstField_append {word : List Char} (h : ∀ c ∈ word, isAsciiSpace c = false)
    (cs : List Char) :
    firstField (word ++ cs) = (word ++ (firstField cs).1, (firstField cs).2) := by
  induction word with
  | nil => rfl
  | cons c word ih =>
    obtain ⟨hc, hw⟩ := List.forall_mem_cons.1 h
    simp only [List.cons_append, firstField, ih hw, hc]
    rfl

theorem fields_append {word : List Char} (hn : word ≠ []) (h : ∀ c ∈ word, isAsciiSpace c = false)
    {cs : List Char} (hcs : (firstField cs).1 = []) :
    fields (word ++ cs) = word :: (firstField cs).2 := by
  have hw : word.isEmpty = false := by rw [List.isEmpty_eq_false_iff]; exact hn
  simp only [fields, firstField_append h, hcs, List.append_nil, hw]
  rfl

theorem fields_cons {word : String} (h : IsWord word) (cs : List Char) :
    fields (word.toList ++ ' ' :: cs) = word.toList :: fields cs := by
  have hn : word.toList ≠ [] := fun he ↦ h.1 (String.toList_injective he)
  exact fields_append hn h.2 rfl

/-- Words with a space between them are just the fields of the line. -/
theorem fields_intercalate {words : List String} (h : ∀ w ∈ words, IsWord w) :
    fields (" ".intercalate words).toList = words.map String.toList := by
  induction words with
  | nil => rfl
  | cons word words ih =>
    obtain ⟨hw, hws⟩ := List.forall_mem_cons.1 h
    cases words with
    | nil =>
      have hn : word.toList ≠ [] := fun he ↦ hw.1 (String.toList_injective he)
      have hf : fields (word.toList ++ []) = [word.toList] := fields_append hn hw.2 rfl
      rwa [List.append_nil] at hf
    | cons next words =>
      have ih := ih hws
      rw [String.intercalate_cons_cons, String.toList_append, String.toList_append,
        List.append_assoc]
      exact (fields_cons hw _).trans (congrArg (word.toList :: ·) ih)

theorem not_mem_intercalate {words : List String} (h : ∀ w ∈ words, IsWord w) {c : Char}
    (hc : isAsciiSpace c) (hs : c ≠ ' ') : c ∉ (" ".intercalate words).toList := by
  induction words with
  | nil => exact List.not_mem_nil
  | cons word words ih =>
    obtain ⟨hw, hws⟩ := List.forall_mem_cons.1 h
    have hword : c ∉ word.toList := fun hm ↦ by
      rw [hw.2 c hm] at hc
      cases hc
    cases words with
    | nil =>
      rw [String.intercalate_singleton]
      exact hword
    | cons next words =>
      have ih := ih hws
      rw [String.intercalate_cons_cons, String.toList_append, String.toList_append,
        List.mem_append, List.mem_append, not_or, not_or]
      exact ⟨⟨hword, fun hm ↦ hs (List.mem_singleton.1 hm)⟩, ih⟩

def nat? (s : String) : Option Nat :=
  if s.toList.isEmpty || !s.toList.all Char.isDigit then none
  else some (Nat.ofDigitChars 10 s.toList 0)

theorem isDigit_toString {n : Nat} {c : Char} (h : c ∈ (toString n).toList) : c.isDigit := by
  rw [Nat.toString_eq_repr, Nat.toList_repr] at h
  exact Nat.isDigit_of_mem_toDigits (by decide) (by decide) h

@[simp] theorem nat?_toString (n : Nat) : nat? (toString n) = some n := by
  have hd : (toString n).toList.all Char.isDigit := List.all_eq_true.2 fun _ ↦ isDigit_toString
  have hn : (toString n).toList.isEmpty = false := by
    rw [List.isEmpty_eq_false_iff, Nat.toString_eq_repr, Nat.toList_repr]
    exact Nat.toDigits_ne_nil
  rw [nat?, hd, hn, Nat.toString_eq_repr, Nat.toList_repr, Nat.ofDigitChars_ten_toDigits]
  rfl

theorem isWord_toString (n : Nat) : IsWord (toString n) := by
  constructor
  · intro h
    have hn := nat?_toString n
    rw [h] at hn
    cases hn
  · intro c hc
    have hd := isDigit_toString hc
    refine Bool.eq_false_iff.2 fun hs ↦ ?_
    simp only [isAsciiSpace, Bool.or_eq_true, beq_iff_eq] at hs
    rcases hs with (((rfl | rfl) | rfl) | rfl) | rfl <;> exact absurd hd (by decide)

theorem fields_eq (cs : List Char) : fields cs =
    if (firstField cs).1 = [] then (firstField cs).2
    else (firstField cs).1 :: (firstField cs).2 := by
  simp only [← List.isEmpty_iff]
  rfl

theorem firstField_cons (c : Char) (cs : List Char) : firstField (c :: cs) =
    if isAsciiSpace c then ([], fields cs) else (c :: (firstField cs).1, (firstField cs).2) := rfl

inductive Separated : List Char → List (List Char) → Prop
  | blank {cs : List Char} : (∀ c ∈ cs, isAsciiSpace c) → Separated cs []
  | word {blank word cs : List Char} {words : List (List Char)} :
    (∀ c ∈ blank, isAsciiSpace c) → word ≠ [] → (∀ c ∈ word, isAsciiSpace c = false) →
    (∀ c ∈ cs.head?, isAsciiSpace c) → Separated cs words →
    Separated (blank ++ (word ++ cs)) (word :: words)

theorem Separated.cons {c : Char} (hc : isAsciiSpace c) {cs : List Char}
    {words : List (List Char)} (h : Separated cs words) : Separated (c :: cs) words := by
  cases h with
  | blank hb => exact .blank (List.forall_mem_cons.2 ⟨hc, hb⟩)
  | word hb hn hw hh hs => exact .word (List.forall_mem_cons.2 ⟨hc, hb⟩) hn hw hh hs

theorem fields_blank_append {blank : List Char} (h : ∀ c ∈ blank, isAsciiSpace c)
    (cs : List Char) : fields (blank ++ cs) = fields cs := by
  induction blank with
  | nil => rfl
  | cons c blank ih =>
    obtain ⟨hc, hb⟩ := List.forall_mem_cons.1 h
    rw [List.cons_append, fields_eq, firstField_cons, if_pos hc, if_pos rfl, ih hb]

theorem firstField_of_head? {cs : List Char} (h : ∀ c ∈ cs.head?, isAsciiSpace c) :
    firstField cs = ([], fields cs) := by
  cases cs with
  | nil => rfl
  | cons c cs =>
    have hc := h c rfl
    rw [fields_eq, firstField_cons, if_pos hc, if_pos rfl]

theorem Separated.of_field {field rest : List Char} {words : List (List Char)}
    (hw : ∀ c ∈ field, isAsciiSpace c = false) (hh : ∀ c ∈ rest.head?, isAsciiSpace c)
    (hs : Separated rest words) :
    Separated (field ++ rest) (if field = [] then words else field :: words) := by
  split
  · rename_i hf
    rwa [hf, List.nil_append]
  · rename_i hf
    exact List.nil_append (field ++ rest) ▸ .word nofun hf hw hh hs

/-- The first field is followed by white space or by nothing, and the other fields come after. -/
theorem exists_rest_firstField (cs : List Char) : ∃ rest, (firstField cs).1 ++ rest = cs ∧
    (∀ c ∈ (firstField cs).1, isAsciiSpace c = false) ∧ (∀ c ∈ rest.head?, isAsciiSpace c) ∧
    Separated rest (firstField cs).2 := by
  induction cs with
  | nil => exact ⟨[], rfl, nofun, nofun, .blank nofun⟩
  | cons c cs ih =>
    obtain ⟨rest, he, hw, hh, hs⟩ := ih
    rw [firstField_cons]
    split
    · rename_i hc
      have hf := Separated.of_field hw hh hs
      rw [he, ← fields_eq] at hf
      exact ⟨c :: cs, rfl, nofun, fun d hd ↦ Option.mem_some.1 hd ▸ hc, hf.cons hc⟩
    · rename_i hc
      exact ⟨rest, congrArg (c :: ·) he, List.forall_mem_cons.2 ⟨by simpa using hc, hw⟩, hh, hs⟩

/-- The fields of a text are the words that it is made of. -/
theorem fields_eq_iff {cs : List Char} {words : List (List Char)} :
    fields cs = words ↔ Separated cs words := by
  constructor
  · rintro rfl
    obtain ⟨rest, he, hw, hh, hs⟩ := exists_rest_firstField cs
    have hf := Separated.of_field hw hh hs
    rwa [he, ← fields_eq] at hf
  · intro h
    induction h with
    | blank hb =>
      have h := fields_blank_append hb []
      rwa [List.append_nil] at h
    | word hb hn hw hh _ ih =>
      have hf := firstField_of_head? hh
      rw [fields_blank_append hb, fields_append hn hw (by rw [hf]), hf, ih]

structure Numeral (cs : List Char) (n : Nat) : Prop where
  ne_nil : cs ≠ []
  digits : ∀ c ∈ cs, c.isDigit
  value : Nat.ofDigitChars 10 cs 0 = n

theorem le_ofDigitChars (cs : List Char) (n : Nat) : n ≤ Nat.ofDigitChars 10 cs n := by
  rw [Nat.ofDigitChars_eq_ofDigitChars_zero]
  have hp : 1 ≤ 10 ^ cs.length := Nat.pow_pos (by decide)
  have hm := Nat.mul_le_mul_right n hp
  omega

theorem valueFrom?_eq_some_iff {bound n m : Nat} {cs : List Char} (h : n < bound ∨ cs ≠ []) :
    valueFrom? bound n cs = some m ↔ Nat.ofDigitChars 10 cs n = m ∧ m < bound := by
  induction cs generalizing n with
  | nil =>
    have hn := h.resolve_right (· rfl)
    rw [valueFrom?, Option.some.injEq]
    exact ⟨fun he ↦ ⟨he, he ▸ hn⟩, And.left⟩
  | cons c cs ih =>
    rw [valueFrom?, Nat.ofDigitChars_cons, show '0'.toNat = 48 from rfl]
    split
    · rename_i hm
      exact ih (.inl hm)
    · rename_i hm
      have hle := le_ofDigitChars cs (10 * n + (c.toNat - 48))
      exact iff_of_false nofun fun he ↦ by omega

theorem digits_iff {cs : List Char} : (cs.isEmpty || !cs.all Char.isDigit) = false ↔
    cs ≠ [] ∧ ∀ c ∈ cs, c.isDigit := by
  simp only [Bool.or_eq_false_iff, List.isEmpty_eq_false_iff, Bool.not_eq_false',
    List.all_eq_true, ne_eq]

/-- A number is read from the digits that write it, if it is within bounds. -/
theorem digits?_eq_some_iff {bound : Nat} {cs : List Char} {n : Nat} :
    digits? bound cs = some n ↔ Numeral cs n ∧ n < bound := by
  rw [digits?]
  split
  · rename_i hc
    refine iff_of_false nofun fun ⟨h, _⟩ ↦ ?_
    rw [digits_iff.2 ⟨h.ne_nil, h.digits⟩] at hc
    cases hc
  · rename_i hc
    obtain ⟨hn, hd⟩ := digits_iff.1 (Bool.eq_false_iff.2 hc)
    rw [valueFrom?_eq_some_iff (.inr hn)]
    exact ⟨fun h ↦ ⟨⟨hn, hd, h.1⟩, h.2⟩, fun h ↦ ⟨h.1.value, h.2⟩⟩

theorem nat?_eq_some_iff {s : String} {n : Nat} : nat? s = some n ↔ Numeral s.toList n := by
  rw [nat?]
  split
  · rename_i hc
    refine iff_of_false nofun fun h ↦ ?_
    rw [digits_iff.2 ⟨h.ne_nil, h.digits⟩] at hc
    cases hc
  · rename_i hc
    obtain ⟨hn, hd⟩ := digits_iff.1 (Bool.eq_false_iff.2 hc)
    rw [Option.some.injEq]
    exact ⟨fun h ↦ ⟨hn, hd, h⟩, fun h ↦ h.value⟩

theorem numeral_toString (n : Nat) : Numeral (toString n).toList n :=
  nat?_eq_some_iff.1 (nat?_toString n)

structure Trimmed (cs ds : List Char) : Prop where
  within : ∃ before after, cs = before ++ (ds ++ after) ∧ (∀ c ∈ before, isBlank c) ∧
    ∀ c ∈ after, isBlank c
  head : ∀ c ∈ ds.head?, isBlank c = false
  last : ∀ c ∈ ds.getLast?, isBlank c = false

theorem dropWhile_eq {α : Type} {p : α → Bool} {before rest : List α} (hb : ∀ c ∈ before, p c)
    (hr : ∀ c ∈ rest.head?, p c = false) : (before ++ rest).dropWhile p = rest := by
  rw [List.dropWhile_append_of_pos hb]
  cases rest with
  | nil => rfl
  | cons c rest => rw [List.dropWhile_cons_of_neg (by rw [hr c rfl]; decide)]

theorem head?_dropWhile {p : Char → Bool} {cs : List Char} :
    ∀ c ∈ (cs.dropWhile p).head?, p c = false := by
  intro c hc
  have h := List.head?_dropWhile_not p cs
  rw [Option.mem_def.1 hc] at h
  exact h

theorem Trimmed.trim (cs : List Char) : Trimmed cs (trim cs) := by
  have hr := List.takeWhile_append_dropWhile (p := isBlank) (l := cs)
  generalize hd : cs.dropWhile isBlank = rest at hr
  have he := List.takeWhile_append_dropWhile (p := isBlank) (l := rest.reverse)
  rw [← List.reverse_inj, List.reverse_append, List.reverse_reverse] at he
  have ht : Text.trim cs = (rest.reverse.dropWhile isBlank).reverse := by rw [Text.trim, hd]
  rw [← ht] at he
  refine ⟨⟨cs.takeWhile isBlank, (rest.reverse.takeWhile isBlank).reverse, ?_, ?_, ?_⟩, ?_, ?_⟩
  · rw [he, hr]
  · exact List.all_eq_true.1 List.all_takeWhile
  · exact fun c hc ↦ List.all_eq_true.1 List.all_takeWhile c (List.mem_reverse.1 hc)
  · intro c hc
    have hc' : c ∈ (cs.dropWhile isBlank).head? := by
      rw [hd, ← he, List.head?_append, Option.mem_def.1 hc]
      rfl
    exact head?_dropWhile c hc'
  · rw [ht, List.getLast?_reverse]
    exact head?_dropWhile

/-- Trimming is done when blanks stand at neither end. -/
theorem trim_eq_iff {cs ds : List Char} : trim cs = ds ↔ Trimmed cs ds := by
  refine ⟨fun h ↦ h ▸ .trim cs, ?_⟩
  rintro ⟨⟨before, after, rfl, hb, ha⟩, hh, hl⟩
  by_cases hn : ds = []
  · have hd : (before ++ after ++ []).dropWhile isBlank = [] :=
      dropWhile_eq (List.forall_mem_append.2 ⟨hb, ha⟩) nofun
    rw [List.append_nil] at hd
    rw [hn, List.nil_append, trim, hd]
    rfl
  · have hd : ∀ c ∈ (ds ++ after).head?, isBlank c = false := by
      obtain ⟨d, ds, rfl⟩ := List.exists_cons_of_ne_nil hn
      exact hh
    rw [trim, dropWhile_eq hb hd, List.reverse_append,
      dropWhile_eq (fun c hc ↦ ha c (List.mem_reverse.1 hc)) (by rwa [List.head?_reverse]),
      List.reverse_reverse]

end Herald.Text
