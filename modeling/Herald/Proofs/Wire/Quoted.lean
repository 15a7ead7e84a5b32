import Herald.Proofs.Wire.Address
import Herald.Text.Quoted

namespace Herald.Text

theorem digitChar_inj {m n : Nat} (hm : m < 16) (hn : n < 16)
    (h : Nat.digitChar m = Nat.digitChar n) : m = n := by
  have hall : ∀ m < 16, ∀ n < 16, Nat.digitChar m = Nat.digitChar n → m = n := by decide
  exact hall m hm n hn h

theorem toDigits_eq_append {n : Nat} (h : ¬n < 16) :
    Nat.toDigits 16 n = Nat.toDigits 16 (n / 16) ++ [Nat.digitChar (n % 16)] := by
  rw [Nat.toDigits_eq_if (by decide), if_neg h]

theorem toDigits_inj {m n : Nat} (h : Nat.toDigits 16 m = Nat.toDigits 16 n) : m = n := by
  induction m using Nat.strongRecOn generalizing n with
  | ind m ih =>
    by_cases hm : m < 16 <;> by_cases hn : n < 16
    · rw [Nat.toDigits_of_lt_base hm, Nat.toDigits_of_lt_base hn, List.singleton_inj] at h
      exact digitChar_inj hm hn h
    · rw [Nat.toDigits_of_lt_base hm, toDigits_eq_append hn, ← List.nil_append [_]] at h
      exact (Nat.toDigits_ne_nil (List.append_inj_left' h rfl).symm).elim
    · rw [toDigits_eq_append hm, Nat.toDigits_of_lt_base hn, ← List.nil_append [n.digitChar]] at h
      exact (Nat.toDigits_ne_nil (List.append_inj_left' h rfl)).elim
    · rw [toDigits_eq_append hm, toDigits_eq_append hn] at h
      have hq := ih (m / 16) (by omega) (List.append_inj_left' h rfl)
      have hr := List.singleton_inj.1 (List.append_inj_right' h rfl)
      have hr := digitChar_inj (Nat.mod_lt m (by decide)) (Nat.mod_lt n (by decide)) hr
      omega

theorem mem_toDigits {n : Nat} {c : Char} (h : c ∈ Nat.toDigits 16 n) :
    ∃ d < 16, c = Nat.digitChar d := by
  induction n using Nat.strongRecOn with
  | ind n ih =>
    by_cases hn : n < 16
    · rw [Nat.toDigits_of_lt_base hn, List.mem_singleton] at h
      exact ⟨n, hn, h⟩
    · rw [toDigits_eq_append hn, List.mem_append, List.mem_singleton] at h
      rcases h with h | h
      · exact ih (n / 16) (by omega) h
      · exact ⟨n % 16, Nat.mod_lt n (by decide), h⟩

theorem brace_not_mem_hex (n : Nat) : '\x7d' ∉ (hex n).toList := by
  rw [hex, String.toList_ofList]
  intro h
  obtain ⟨d, hd, he⟩ := mem_toDigits h
  have hall : ∀ d < 16, '\x7d' ≠ Nat.digitChar d := by decide
  exact hall d hd he

theorem hex_inj {m n : Nat} (h : hex m = hex n) : m = n :=
  toDigits_inj (String.ofList_injective h)

def meaning (e : Char) : Char :=
  if e == '0' then '\x00'
  else if e == 't' then '\t'
  else if e == 'r' then '\r'
  else if e == 'n' then '\n'
  else e

inductive Quotes (c : Char) : List Char → Prop
  | plain (h : c ≠ '\\') : Quotes c [c]
  | letter (e : Char) (h : e ≠ 'u') (hm : c = meaning e) : Quotes c ['\\', e]
  | number : Quotes c ('\\' :: 'u' :: '\x7b' :: ((hex c.toNat).toList ++ ['\x7d']))

theorem quotes_quoteChar (c : Char) : Quotes c (quoteChar c) := by
  unfold quoteChar
  split
  · rename_i h
    exact .letter '0' (by decide) (eq_of_beq h)
  split
  · rename_i h
    exact .letter 't' (by decide) (eq_of_beq h)
  split
  · rename_i h
    exact .letter 'r' (by decide) (eq_of_beq h)
  split
  · rename_i h
    exact .letter 'n' (by decide) (eq_of_beq h)
  split
  · rename_i h
    rcases Bool.or_eq_true_iff.1 h with h | h
    · obtain rfl := eq_of_beq h
      exact .letter '"' (by decide) (by decide)
    · obtain rfl := eq_of_beq h
      exact .letter '\\' (by decide) (by decide)
  split
  · rename_i h _
    exact .plain fun he ↦ h (by rw [he]; rfl)
  · exact .number

/-- What stands for a character can be told from what comes after. -/
theorem Quotes.inj {c d : Char} {xs ys cs ds : List Char} (hc : Quotes c xs) (hd : Quotes d ys)
    (h : xs ++ cs = ys ++ ds) : c = d ∧ cs = ds := by
  cases hc with
  | plain hc =>
    cases hd with
    | plain hd => exact List.cons.inj h
    | letter | number => exact (hc (List.cons.inj h).1).elim
  | letter e he hc =>
    cases hd with
    | plain hd => exact (hd (List.cons.inj h).1.symm).elim
    | letter e' he' hd =>
      obtain ⟨rfl, hcs⟩ := List.cons.inj (List.cons.inj h).2
      exact ⟨hc.trans hd.symm, hcs⟩
    | number => exact (he (List.cons.inj (List.cons.inj h).2).1).elim
  | number =>
    cases hd with
    | plain hd => exact (hd (List.cons.inj h).1.symm).elim
    | letter e' he' hd => exact (he' (List.cons.inj (List.cons.inj h).2).1.symm).elim
    | number =>
      have hx : (hex c.toNat).toList ++ '\x7d' :: cs = (hex d.toNat).toList ++ '\x7d' :: ds := by
        simpa using h
      have hs := congrArg (splitFirst? '\x7d') hx
      rw [splitFirst?_append (brace_not_mem_hex _), splitFirst?_append (brace_not_mem_hex _),
        Option.some.injEq, Prod.mk.injEq] at hs
      exact ⟨Char.toNat_inj.1 (hex_inj (String.toList_injective hs.1)), hs.2⟩

theorem flatMap_quoteChar_inj {cs ds : List Char}
    (h : cs.flatMap quoteChar = ds.flatMap quoteChar) : cs = ds := by
  induction cs generalizing ds with
  | nil =>
    cases ds with
    | nil => rfl
    | cons d ds =>
      rw [List.flatMap_nil, List.flatMap_cons] at h
      have hd := quotes_quoteChar d
      rw [(List.append_eq_nil_iff.1 h.symm).1] at hd
      cases hd
  | cons c cs ih =>
    cases ds with
    | nil =>
      rw [List.flatMap_nil, List.flatMap_cons] at h
      have hc := quotes_quoteChar c
      rw [(List.append_eq_nil_iff.1 h).1] at hc
      cases hc
    | cons d ds =>
      rw [List.flatMap_cons, List.flatMap_cons] at h
      obtain ⟨rfl, ht⟩ := (quotes_quoteChar c).inj (quotes_quoteChar d) h
      rw [ih ht]

/-- A text can be told from how it is quoted. -/
theorem quoted_inj {s t : String} (h : quoted s = quoted t) : s = t := by
  have hl := List.append_cancel_right (List.cons.inj (String.ofList_injective h)).2
  exact String.toList_injective (flatMap_quoteChar_inj hl)

end Herald.Text
