import Herald.Json.Printer
import Herald.Json.Reader

namespace Herald.Json

def piece (c : Char) : Piece :=
  if c.toNat < 32 ∧ c ∉ ['\x08', '\t', '\n', '\x0C', '\r'] then .unit c.toNat else .char c

namespace Form

theorem skip_cons {c : Char} (h : isSpace c = false) (cs : List Char) :
    skip (c :: cs) = c :: cs := by
  rw [skip, List.dropWhile_cons, h]
  rfl

theorem readString_letter {c e : Char} (h : escape? c = some e) (cs : List Char) :
    readString ('\\' :: c :: cs) = (readString cs).map fun r ↦ (.char e :: r.1, r.2) := by
  have hu : c ≠ 'u' := by
    rintro rfl
    cases h
  rw [readString, h]
  · cases readString cs <;> rfl
  · exact fun _ _ _ _ _ he _ ↦ hu he

theorem readString_unit {a b c d : Char} {n : Nat} (h : unit? a b c d = some n)
    (cs : List Char) : readString ('\\' :: 'u' :: a :: b :: c :: d :: cs) =
      (readString cs).map fun r ↦ (.unit n :: r.1, r.2) := by
  rw [readString, h]
  cases readString cs <;> rfl

theorem readString_plain {c : Char} (hl : 32 ≤ c.toNat) (hq : c ≠ '"') (hb : c ≠ '\\')
    (cs : List Char) :
    readString (c :: cs) = (readString cs).map fun r ↦ (.char c :: r.1, r.2) := by
  have hn : ¬(c.toNat < 32 ∨ c = '\\') := by
    rintro (h | h)
    · omega
    · exact hb h
  rw [readString, if_neg hn]
  · exact hq
  · exact fun _ _ _ _ _ he _ ↦ hb he
  · exact fun _ _ he _ ↦ hb he

theorem hexDigit?_digitChar {n : Nat} (h : n < 16) : hexDigit? (Nat.digitChar n) = some n := by
  have hall : ∀ n < 16, hexDigit? (Nat.digitChar n) = some n := by decide
  exact hall n h

theorem unit?_digitChar {n : Nat} (h : n < 256) :
    unit? '0' '0' (Nat.digitChar (n / 16)) (Nat.digitChar (n % 16)) = some n := by
  have hz : hexDigit? '0' = some 0 := rfl
  have hn : ((0 * 16 + 0) * 16 + n / 16) * 16 + n % 16 = n := by omega
  simp only [unit?, hz, hexDigit?_digitChar (show n / 16 < 16 by omega),
    hexDigit?_digitChar (show n % 16 < 16 by omega), bind, Option.bind_some, hn]

end Form

/-- The ways in which a character is written in a string, with what is read there. -/
inductive Escaped (c : Char) : List Char → Piece → Prop
  | letter {l : Char} : 32 ≤ l.toNat → Form.escape? l = some c → Escaped c ['\\', l] (.char c)
  | number : c.toNat < 32 → Escaped c
      ['\\', 'u', '0', '0', Nat.digitChar (c.toNat / 16), Nat.digitChar (c.toNat % 16)]
      (.unit c.toNat)
  | plain : 32 ≤ c.toNat → c ≠ '"' → c ≠ '\\' → Escaped c [c] (.char c)

theorem escaped (c : Char) : Escaped c (escapeChar c) (piece c) := by
  by_cases h : c ∈ ['"', '\\', '\x08', '\t', '\n', '\x0C', '\r']
  · simp only [List.mem_cons, List.not_mem_nil, or_false] at h
    rcases h with rfl | rfl | rfl | rfl | rfl | rfl | rfl <;> exact .letter (by decide) rfl
  · simp only [List.mem_cons, List.not_mem_nil, or_false, not_or] at h
    obtain ⟨hq, hs, hb, ht, hn, hf, hr⟩ := h
    have hc (d : Char) (h : c ≠ d) : (c == d) = false := beq_eq_false_iff_ne.2 h
    by_cases hl : c.toNat < 32
    · have hp : piece c = .unit c.toNat := if_pos ⟨hl, by simp [hb, ht, hn, hf, hr]⟩
      simp only [escapeChar, hc _ hq, hc _ hs, hc _ hb, hc _ ht, hc _ hn, hc _ hf, hc _ hr, hp,
        if_pos hl]
      exact .number hl
    · have hp : piece c = .char c := if_neg fun h ↦ hl h.1
      simp only [escapeChar, hc _ hq, hc _ hs, hc _ hb, hc _ ht, hc _ hn, hc _ hf, hc _ hr, hp,
        if_neg hl]
      exact .plain (by omega) hq hs

theorem Escaped.readString {c : Char} {written : List Char} {p : Piece}
    (h : Escaped c written p) (cs : List Char) :
    Form.readString (written ++ cs) = (Form.readString cs).map fun r ↦ (p :: r.1, r.2) := by
  cases h with
  | letter _ he => exact Form.readString_letter he cs
  | number hl => exact Form.readString_unit (Form.unit?_digitChar (by omega)) cs
  | plain hl hq hs => exact Form.readString_plain hl hq hs cs

theorem pieces?_unit {n : Nat} (h : n < 0xD800) (ps : List Piece) :
    pieces? (.unit n :: ps) = (pieces? ps).map (Char.ofNat n :: ·) := by
  have hh : ¬(0xD800 ≤ n ∧ n < 0xDC00) := by omega
  have hl : ¬(0xDC00 ≤ n ∧ n < 0xE000) := by omega
  have hs : ¬(0xD800 ≤ n ∧ n < 0xE000) := by omega
  rcases ps with _ | ⟨_ | m, ps⟩
  · simp only [pieces?, if_neg hs]
  · simp only [pieces?, if_neg hs]
  · rw [pieces?, if_neg hh, if_neg hl]

theorem Escaped.pieces? {c : Char} {written : List Char} {p : Piece} (h : Escaped c written p)
    (ps : List Piece) : pieces? (p :: ps) = (pieces? ps).map (c :: ·) := by
  cases h with
  | letter | plain => rw [Json.pieces?]
  | number hl => rw [pieces?_unit (by omega), Char.ofNat_toNat]

theorem Escaped.printable {c : Char} {written : List Char} {p : Piece} (h : Escaped c written p) :
    ∀ d ∈ written, 32 ≤ d.toNat := by
  cases h with
  | letter hl => exact List.forall_mem_cons.2 ⟨by decide, List.forall_mem_singleton.2 hl⟩
  | number hl =>
    have hd : ∀ n < 16, 32 ≤ (Nat.digitChar n).toNat := by decide
    have hh := hd (c.toNat / 16) (by omega)
    have ho := hd (c.toNat % 16) (by omega)
    simp only [List.mem_cons, List.not_mem_nil, or_false]
    rintro d (rfl | rfl | rfl | rfl | rfl | rfl)
    · decide
    · decide
    · decide
    · decide
    · exact hh
    · exact ho
  | plain hl => exact List.forall_mem_singleton.2 hl

theorem readString_quote (cs rest : List Char) :
    Form.readString (cs.flatMap escapeChar ++ '"' :: rest) = some (cs.map piece, rest) := by
  induction cs with
  | nil => rfl
  | cons c cs ih =>
    rw [List.flatMap_cons, List.append_assoc, (escaped c).readString, ih]
    rfl

theorem quote_append (s : String) (cs : List Char) :
    quote s ++ cs = '"' :: (s.toList.flatMap escapeChar ++ '"' :: cs) := by
  rw [quote, List.cons_append, List.cons_append, List.append_assoc]
  rfl

theorem pieces?_map_piece (cs : List Char) : pieces? (cs.map piece) = some cs := by
  induction cs with
  | nil => rfl
  | cons c cs ih =>
    rw [List.map_cons, (escaped c).pieces?, ih]
    rfl

theorem string?_map_piece (s : String) : string? (s.toList.map piece) = some s := by
  rw [string?, pieces?_map_piece, Option.map_some, String.ofList_toList]

def Scalar : Json → Prop
  | bool _ | str _ => True
  | _ => False

def form : Json → Form
  | bool b => .bool b
  | str s => .str (s.toList.map piece)
  | _ => .null

theorem readValue_print {v : Json} (h : v.Scalar) (fuel : Nat) (rest : List Char) :
    Form.readValue (fuel + 1) (v.print ++ rest) = some (v.form, rest) := by
  cases v with
  | bool b => cases b <;> rfl
  | str s =>
    have hr (cs : List Char) : Form.readValue (fuel + 1) ('"' :: cs) =
        (Form.readString cs).map fun r ↦ (.str r.1, r.2) := rfl
    rw [print, quote_append, hr, readString_quote]
    rfl
  | null | num _ | arr _ | obj _ => cases h

theorem ofForm?_form {v : Json} (h : v.Scalar) (depth : Nat) : ofForm? depth v.form = some v := by
  cases v with
  | bool b => rw [form, ofForm?]
  | str s =>
    rw [form, ofForm?, string?_map_piece]
    rfl
  | null | num _ | arr _ | obj _ => cases h

def memberForm (m : String × Json) : List Piece × Form := (m.1.toList.map piece, m.2.form)

theorem readMembers_member {k : String} {v : Json} (h : v.Scalar) (fuel : Nat) (c : Char)
    (hc : Form.isSpace c = false) (rest : List Char) :
    Form.readMembers (fuel + 2) (quote k ++ ':' :: v.print ++ c :: rest) = match c :: rest with
      | ',' :: cs => (Form.readMembers (fuel + 1) cs).map fun r ↦ (memberForm (k, v) :: r.1, r.2)
      | '\x7d' :: cs => some ([memberForm (k, v)], cs)
      | _ => none := by
  have hcolon (cs : List Char) : Form.skip (':' :: cs) = ':' :: cs := rfl
  rw [List.append_assoc, List.cons_append, quote_append, Form.readMembers, Form.skip_cons rfl]
  simp only [readString_quote, hcolon, readValue_print h, Form.skip_cons hc]
  rfl

theorem readMembers_print {ms : List (String × Json)} (hn : ms ≠ []) (h : ∀ m ∈ ms, m.2.Scalar)
    {fuel : Nat} (hf : ms.length < fuel) (rest : List Char) :
    Form.readMembers fuel (printMembers ms ++ '\x7d' :: rest) =
      some (ms.map memberForm, rest) := by
  induction ms generalizing fuel with
  | nil => exact (hn rfl).elim
  | cons m ms ih =>
    obtain ⟨hm, hms⟩ := List.forall_mem_cons.1 h
    obtain ⟨k, v⟩ := m
    rw [List.length_cons] at hf
    obtain ⟨fuel, rfl⟩ : ∃ n, fuel = n + 2 := ⟨fuel - 2, by omega⟩
    cases ms with
    | nil =>
      rw [printMembers, readMembers_member hm fuel _ rfl]
      rfl
    | cons next ms =>
      have he : printMembers ((k, v) :: next :: ms) ++ '\x7d' :: rest =
          quote k ++ ':' :: v.print ++ ',' :: (printMembers (next :: ms) ++ '\x7d' :: rest) := by
        rw [printMembers, List.append_assoc]
        simp only [List.append_assoc, List.cons_append]
      have ih := ih (List.cons_ne_nil _ _) hms (show (next :: ms).length < fuel + 1 by omega)
      rw [he, readMembers_member hm fuel _ rfl]
      simp only [ih]
      rfl

theorem printMembers_cons (k : String) (v : Json) (ms : List (String × Json)) :
    printMembers ((k, v) :: ms) = quote k ++ ':' :: v.print ++
      (if ms = [] then [] else ',' :: printMembers ms) := by
  cases ms with
  | nil => rw [if_pos rfl, List.append_nil, printMembers]
  | cons next ms =>
    rw [printMembers, if_neg (List.cons_ne_nil _ _)]

theorem length_le_printMembers (ms : List (String × Json)) :
    ms.length ≤ (printMembers ms).length := by
  induction ms with
  | nil => exact Nat.zero_le _
  | cons m ms ih =>
    obtain ⟨k, v⟩ := m
    rw [printMembers_cons]
    split
    · rename_i he
      subst he
      simp only [List.length_append, List.length_cons, List.length_nil]
      omega
    · simp only [List.length_append, List.length_cons]
      omega

theorem readValue_printMembers {ms : List (String × Json)} (h : ∀ m ∈ ms, m.2.Scalar) {fuel : Nat}
    (hf : ms.length < fuel) (rest : List Char) :
    Form.readValue (fuel + 1) ('\x7b' :: printMembers ms ++ '\x7d' :: rest) =
      some (.obj (ms.map memberForm), rest) := by
  cases ms with
  | nil => rfl
  | cons m ms =>
    have hr := readMembers_print (List.cons_ne_nil m ms) h hf rest
    obtain ⟨k, v⟩ := m
    obtain ⟨cs, hcs⟩ : ∃ cs, printMembers ((k, v) :: ms) ++ '\x7d' :: rest = '"' :: cs := by
      rw [printMembers_cons, quote]
      exact ⟨_, rfl⟩
    have hv (cs : List Char) : Form.readValue (fuel + 1) ('\x7b' :: '"' :: cs) =
        (Form.readMembers fuel ('"' :: cs)).map fun r ↦ (.obj r.1, r.2) := rfl
    rw [List.cons_append, hcs, hv, ← hcs, hr]
    rfl

theorem ofMembers?_memberForm {ms : List (String × Json)} (h : ∀ m ∈ ms, m.2.Scalar)
    (depth : Nat) (done : Members) : ofMembers? depth (ms.map memberForm) done =
      some (ms.foldl (fun done m ↦ Members.insert m.1 m.2 done) done) := by
  induction ms generalizing done with
  | nil => rw [List.map_nil, ofMembers?, List.foldl_nil]
  | cons m ms ih =>
    obtain ⟨hm, hms⟩ := List.forall_mem_cons.1 h
    have hk : string? (memberForm m).1 = some m.1 := string?_map_piece m.1
    have hv : ofForm? depth (memberForm m).2 = some m.2 := ofForm?_form hm depth
    rw [List.map_cons, ofMembers?, hk, hv]
    exact ih hms _

theorem form_text {ms : List (String × Json)} (h : ∀ m ∈ ms, m.2.Scalar) :
    Form.parse? (obj ms).text = some (.obj (ms.map memberForm)) := by
  have hp : (obj ms).print = '\x7b' :: printMembers ms ++ ['\x7d'] := by rw [print]
  have hl := length_le_printMembers ms
  have hf : ms.length < 2 * (obj ms).text.length + 1 := by
    rw [text, String.length_ofList, hp]
    simp only [List.length_append, List.length_cons]
    omega
  have ht : (obj ms).text.toList = '\x7b' :: printMembers ms ++ ['\x7d'] := by
    rw [text, String.toList_ofList, hp]
  rw [Form.parse?, ht, readValue_printMembers h hf []]
  rfl

/-- An object of texts and truth values is read back from its text, its members in order of their
keys. -/
theorem parse?_text {ms : List (String × Json)} (h : ∀ m ∈ ms, m.2.Scalar) :
    parse? (obj ms).text =
      some (.obj (ms.foldl (fun done m ↦ Members.insert m.1 m.2 done) [])) := by
  rw [parse?, form_text h, Option.bind_some, maxDepth, ofForm?, ofMembers?_memberForm h]
  rfl

theorem printable_of_all {cs : List Char} (h : cs.all (32 ≤ ·.toNat)) : ∀ c ∈ cs, 32 ≤ c.toNat :=
  fun c hc ↦ of_decide_eq_true (List.all_eq_true.1 h c hc)

theorem printable_quote (s : String) : ∀ c ∈ quote s, 32 ≤ c.toNat := by
  intro c hc
  rw [quote, List.cons_append, List.mem_cons, List.mem_append, List.mem_singleton] at hc
  rcases hc with rfl | hc | rfl
  · decide
  · obtain ⟨d, -, hd⟩ := List.mem_flatMap.1 hc
    exact (escaped d).printable c hd
  · decide

theorem printable_print {v : Json} (h : v.Scalar) : ∀ c ∈ v.print, 32 ≤ c.toNat := by
  cases v with
  | bool b => cases b <;> exact printable_of_all rfl
  | str s => exact printable_quote s
  | null | num _ | arr _ | obj _ => cases h

theorem printable_printMembers {ms : List (String × Json)} (h : ∀ m ∈ ms, m.2.Scalar) :
    ∀ c ∈ printMembers ms, 32 ≤ c.toNat := by
  induction ms with
  | nil => exact List.forall_mem_nil _
  | cons m ms ih =>
    obtain ⟨hm, hms⟩ := List.forall_mem_cons.1 h
    obtain ⟨k, v⟩ := m
    intro c hc
    rw [printMembers_cons, List.mem_append, List.mem_append, List.mem_cons] at hc
    rcases hc with (hc | rfl | hc) | hc
    · exact printable_quote k c hc
    · decide
    · exact printable_print hm c hc
    · split at hc
      · cases hc
      · rcases List.mem_cons.1 hc with rfl | hc
        · decide
        · exact ih hms c hc

theorem printable_text {ms : List (String × Json)} (h : ∀ m ∈ ms, m.2.Scalar) :
    ∀ c ∈ (obj ms).text.toList, 32 ≤ c.toNat := by
  intro c hc
  rw [text, String.toList_ofList, print, List.mem_append, List.mem_cons, List.mem_singleton] at hc
  rcases hc with (rfl | hc) | rfl
  · decide
  · exact printable_printMembers h c hc
  · decide

@[simp] theorem Members.get?_nil (key : String) : Members.get? [] key = none := rfl

theorem Members.get?_cons (key other : String) (value : Json) (ms : Members) :
    Members.get? ((key, value) :: ms) other =
      if key = other then some value else ms.get? other := by
  by_cases h : key = other
  · simp [get?, h]
  · have hb : (key == other) = false := beq_eq_false_iff_ne.2 h
    simp [get?, h, hb]

@[simp] theorem Members.get?_insert (key other : String) (value : Json) (ms : Members) :
    Members.get? (Members.insert key value ms) other =
      if key = other then some value else ms.get? other := by
  induction ms with
  | nil => rw [insert, get?_cons]
  | cons m ms ih =>
    obtain ⟨k, v⟩ := m
    rw [insert]
    split
    · rename_i he
      rw [get?_cons, get?_cons, ← he]
      split <;> rfl
    split
    · rw [get?_cons]
    · rename_i he _
      rw [get?_cons, get?_cons, ih]
      by_cases hk : key = other
      · rw [if_pos hk, if_pos hk, if_neg fun h ↦ he (hk.trans h.symm)]
      · rw [if_neg hk, if_neg hk]

end Herald.Json
