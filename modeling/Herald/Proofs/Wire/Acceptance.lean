import Herald.Proofs.Wire.Address

namespace Herald

namespace Text

theorem splitOn?_eq_some {sep cs before after : List Char} (hs : sep ≠ [])
    (h : splitOn? sep cs = some (before, after)) :
    cs = before ++ (sep ++ after) ∧ ¬sep <:+: before := by
  induction cs generalizing before with
  | nil =>
    rw [splitOn?, if_neg (by simpa using hs)] at h
    cases h
  | cons c cs ih =>
    rw [splitOn?] at h
    split at h
    · rename_i hp
      obtain ⟨rest, hr⟩ := List.isPrefixOf_iff_prefix.1 hp
      rw [← hr, List.drop_left] at h
      cases h
      exact ⟨hr.symm, fun hi ↦ hs (List.infix_nil.1 hi)⟩
    · rename_i hp
      obtain ⟨⟨rest, _⟩, hr, he⟩ := Option.map_eq_some_iff.1 h
      cases he
      obtain ⟨rfl, hn⟩ := ih hr
      refine ⟨rfl, fun hi ↦ ?_⟩
      rcases List.infix_cons_iff.1 hi with hi | hi
      · exact hp (List.isPrefixOf_iff_prefix.2 (hi.trans (List.prefix_append (c :: rest) _)))
      · exact hn hi

theorem splitFirst?_eq_some {c : Char} {cs before after : List Char}
    (h : splitFirst? c cs = some (before, after)) : cs = before ++ c :: after ∧ c ∉ before := by
  by_cases hm : c ∈ cs
  · obtain ⟨before, after, rfl, hn⟩ := List.eq_append_cons_of_mem hm
    rw [splitFirst?_append hn] at h
    cases h
    exact ⟨rfl, hn⟩
  · rw [splitFirst?_eq_none hm] at h
    cases h

theorem not_mem_of_splitFirst? {c : Char} {cs : List Char} (h : splitFirst? c cs = none) :
    c ∉ cs := by
  intro hm
  obtain ⟨before, after, rfl, hn⟩ := List.eq_append_cons_of_mem hm
  rw [splitFirst?_append hn] at h
  cases h

theorem exists_last {c : Char} {cs : List Char} (h : c ∈ cs) :
    ∃ before after, cs = before ++ c :: after ∧ c ∉ after := by
  obtain ⟨after, before, he, hn⟩ := List.eq_append_cons_of_mem (List.mem_reverse.2 h)
  refine ⟨before.reverse, after.reverse, ?_, mt List.mem_reverse.1 hn⟩
  rw [← List.reverse_inj, he]
  simp

theorem splitLast?_eq_some {c : Char} {cs before after : List Char}
    (h : splitLast? c cs = some (before, after)) : cs = before ++ c :: after ∧ c ∉ after := by
  by_cases hm : c ∈ cs
  · obtain ⟨before, after, rfl, hn⟩ := exists_last hm
    rw [splitLast?_append hn] at h
    cases h
    exact ⟨rfl, hn⟩
  · rw [splitLast?_eq_none hm] at h
    cases h

theorem not_mem_of_splitLast? {c : Char} {cs : List Char} (h : splitLast? c cs = none) :
    c ∉ cs := by
  intro hm
  obtain ⟨before, after, rfl, hn⟩ := exists_last hm
  rw [splitLast?_append hn] at h
  cases h

end Text

namespace Address

variable {a b : Address} {cs host : List Char} {n : Nat}

/-- A port that is read is a number within bounds, perhaps after a plus sign. -/
theorem numeral_of_port? (h : ServerUri.port? cs = some n) :
    Text.Numeral (Text.dropPlus cs) n ∧ n < UInt16.size := by
  rw [ServerUri.port?, Text.unsigned?_eq] at h
  exact Text.digits?_eq_some_iff.1 h

def withHost (a : Address) (bracketed : Bool) (host : List Char) (port : Option (List Char)) :
    Address :=
  { a with bracketed := bracketed, host := String.ofList host, port := port.map String.ofList }

theorem hostPortText_withHost (a : Address) (bracketed : Bool) (host : List Char)
    (port : Option (List Char)) :
    (a.withHost bracketed host port).hostText.toList ++
        (a.withHost bracketed host port).portText.toList =
      (if bracketed then '[' :: host ++ [']'] else host) ++ port.elim [] (':' :: ·) := by
  cases bracketed <;> cases port <;> simp [withHost, hostText, portText]

theorem numeral_withHost (a : Address) (bracketed : Bool) (host : List Char) {port : List Char}
    (h : ServerUri.port? port = some n) :
    (∀ digits ∈ (a.withHost bracketed host (some port)).unsigned.port,
        ∃ n < UInt16.size, Text.nat? digits = some n) ∧
      (a.withHost bracketed host (some port)).read.port = n := by
  obtain ⟨hn, hlt⟩ := numeral_of_port? h
  have hu : (a.withHost bracketed host (some port)).unsigned.port =
      some (String.ofList (Text.dropPlus port)) := by
    simp only [unsigned, withHost, Option.map_some, String.toList_ofList]
  have hv : Text.nat? (String.ofList (Text.dropPlus port)) = some n := by
    rwa [Text.nat?_eq_some_iff, String.toList_ofList]
  refine ⟨?_, ?_⟩
  · intro digits hd
    obtain rfl := Option.some.inj (hu.symm.trans hd)
    exact ⟨n, hlt, hv⟩
  · simp only [read, uri, hu, Option.bind_some, hv, Option.getD_some]

theorem exists_parted_bracketed (a : Address)
    (h : ServerUri.hostPort? ('[' :: cs) = some (host, n)) : ∃ port,
      (a.withHost true host port).Parted ∧ (a.withHost true host port).read.port = n ∧
      '[' :: cs = '[' :: host ++ [']'] ++ port.elim [] (':' :: ·) := by
  rw [ServerUri.hostPort?] at h
  split at h
  · rename_i before hs
    obtain ⟨rfl, hn⟩ := Text.splitFirst?_eq_some hs
    cases h
    exact ⟨none, ⟨by rintro ⟨⟩, fun _ ↦ by simpa [withHost] using hn, by rintro _ ⟨⟩⟩, rfl, by simp⟩
  · rename_i before port hs
    obtain ⟨rfl, hn⟩ := Text.splitFirst?_eq_some hs
    obtain ⟨m, hm, he⟩ := Option.map_eq_some_iff.1 h
    cases he
    obtain ⟨hp, hr⟩ := numeral_withHost a true host hm
    exact ⟨some port, ⟨by rintro ⟨⟩, fun _ ↦ by simpa [withHost] using hn, hp⟩, hr, by simp⟩
  · cases h

theorem exists_parted_bare (a : Address) (hh : cs.head? ≠ some '[')
    (h : ServerUri.hostPort? cs = some (host, n)) : ∃ port,
      (a.withHost false host port).Parted ∧ (a.withHost false host port).read.port = n ∧
      cs = host ++ port.elim [] (':' :: ·) := by
  rw [hostPort?_eq hh] at h
  cases hs : Text.splitLast? ':' cs with
  | none =>
    rw [hs] at h
    cases h
    have hn := Text.not_mem_of_splitLast? hs
    exact ⟨none, ⟨fun _ ↦ by simpa [withHost] using ⟨hn, hh⟩, nofun, nofun⟩, rfl, by simp⟩
  | some parts =>
    obtain ⟨before, port⟩ := parts
    obtain ⟨rfl, -⟩ := Text.splitLast?_eq_some hs
    rw [hs] at h
    obtain ⟨m, hm, he⟩ := Option.map_eq_some_iff.1 h
    cases he
    obtain ⟨hp, hr⟩ := numeral_withHost a false before hm
    have hhost : before.head? ≠ some '[' := fun he ↦ hh (by rw [List.head?_append, he]; rfl)
    exact ⟨some port, ⟨fun _ ↦ by simpa [withHost] using hhost, nofun, hp⟩, hr, rfl⟩

/-- A host and a port that are read are written, with brackets or without. -/
theorem exists_parted (a : Address) (h : ServerUri.hostPort? cs = some (host, n)) :
    ∃ bracketed port, (a.withHost bracketed host port).Parted ∧
      (a.withHost bracketed host port).read.port = n ∧
      cs = (if bracketed then '[' :: host ++ [']'] else host) ++ port.elim [] (':' :: ·) := by
  by_cases hh : cs.head? = some '['
  · obtain ⟨cs, rfl⟩ := List.head?_eq_some_iff.1 hh
    exact ⟨true, exists_parted_bracketed a h⟩
  · exact ⟨false, exists_parted_bare a hh h⟩

theorem exists_authority (cs : List Char) : ∃ suffix,
    cs = (ServerUri.authority cs).1.elim [] (· ++ ['@']) ++ (ServerUri.authority cs).2 ++ suffix ∧
      '@' ∉ (ServerUri.authority cs).2 ∧
      (∀ c ∈ (ServerUri.authority cs).1.elim [] (· ++ ['@']) ++ (ServerUri.authority cs).2,
        ends c = false) ∧ ∀ c ∈ suffix.head?, ends c := by
  have hr := List.takeWhile_append_dropWhile (p := fun c ↦ !ends c) (l := cs)
  have hall : ∀ c ∈ cs.takeWhile fun c ↦ !ends c, ends c = false := fun c hc ↦ by
    simpa using List.all_eq_true.1 List.all_takeWhile c hc
  have hparts : (ServerUri.authority cs).1.elim [] (· ++ ['@']) ++ (ServerUri.authority cs).2 =
      cs.takeWhile (fun c ↦ !ends c) ∧ '@' ∉ (ServerUri.authority cs).2 := by
    rw [authority_eq]
    cases hs : Text.splitLast? '@' (cs.takeWhile fun c ↦ !ends c) with
    | none => exact ⟨rfl, Text.not_mem_of_splitLast? hs⟩
    | some parts =>
      obtain ⟨he, hn⟩ := Text.splitLast?_eq_some hs
      exact ⟨by simp [he], hn⟩
  refine ⟨cs.dropWhile fun c ↦ !ends c, ?_, hparts.2, ?_, ?_⟩
  · rw [hparts.1, hr]
  · rw [hparts.1]
    exact hall
  · intro c hc
    simpa using Text.head?_dropWhile c hc

def loginOf (info : Option (List Char)) : Option (String × Option String) :=
  (ServerUri.credentials info).1.map fun user ↦
    (String.ofList user, (ServerUri.credentials info).2.map String.ofList)

theorem exists_userInfo (info : Option (List Char)) :
    info = (loginOf info).map (fun login ↦ login.1.toList ++
        login.2.elim [] (':' :: ·.toList)) ∧
      (∀ login ∈ loginOf info, ':' ∉ login.1.toList) ∧
      (loginOf info).bind (·.2) = (ServerUri.credentials info).2.map String.ofList := by
  cases info with
  | none => exact ⟨rfl, nofun, rfl⟩
  | some cs =>
    cases hs : Text.splitFirst? ':' cs with
    | none =>
      have hn := Text.not_mem_of_splitFirst? hs
      simpa [loginOf, ServerUri.credentials, hs] using hn
    | some parts =>
      obtain ⟨user, pass⟩ := parts
      obtain ⟨rfl, hn⟩ := Text.splitFirst?_eq_some hs
      simpa [loginOf, ServerUri.credentials, hs] using hn

theorem ofChars?_eq_ok {u : ServerUri} (h : ServerUri.ofChars? cs = .ok u) :
    ∃ scheme rest host port, Text.splitOn? "://".toList cs = some (scheme, rest) ∧ scheme ≠ [] ∧
      ServerUri.hostPort? (ServerUri.authority rest).2 = some (host, port) ∧ host ≠ [] ∧
      u = ⟨String.ofList scheme, String.ofList host, port,
        (ServerUri.credentials (ServerUri.authority rest).1).1.map String.ofList,
        (ServerUri.credentials (ServerUri.authority rest).1).2.map String.ofList⟩ := by
  unfold ServerUri.ofChars? at h
  split at h
  · cases h
  · cases h
  · rename_i scheme rest hne hs
    dsimp only at h
    split at h
    · cases h
    · cases h
    · rename_i host port hhost hp
      cases h
      exact ⟨scheme, rest, host, port, hs, hne, hp, hhost, rfl⟩

theorem loginText_toList (info : Option (List Char)) (h : a.login = loginOf info) :
    a.loginText.toList = info.elim [] (· ++ ['@']) := by
  obtain ⟨hi, -, -⟩ := exists_userInfo info
  unfold loginText userInfo
  rw [hi, h]
  rcases loginOf info with _ | ⟨user, _ | pass⟩ <;> simp

theorem mem_info {info : Option (List Char)} {login : String × Option String}
    (hl : login ∈ loginOf info) {c : Char}
    (hc : c ∈ login.1.toList ++ login.2.elim [] (':' :: ·.toList)) :
    c ∈ info.elim [] (· ++ ['@']) := by
  obtain ⟨hi, -, -⟩ := exists_userInfo info
  rw [hi, Option.mem_def.1 hl]
  exact List.mem_append_left _ hc

/-- A text that is read is an address, and each part is read as what it is. -/
theorem exists_readable {t : String} {u : ServerUri} (h : ServerUri.parse? t = .ok u) :
    ∃ a : Address, a.Readable ∧ a.text = t ∧ a.read = u := by
  have ho : ServerUri.ofChars? t.toList = .ok u := by
    unfold ServerUri.parse? at h
    split at h
    · rename_i hv
      cases h
      exact hv
    · cases h
  obtain ⟨scheme, rest, host, port, hs, hscheme, hp, hhost, rfl⟩ := ofChars?_eq_ok ho
  obtain ⟨ht, hinfix⟩ := Text.splitOn?_eq_some (by decide) hs
  obtain ⟨suffix, hrest, hat, hends, hsuffix⟩ := exists_authority rest
  obtain ⟨-, huser, hpass⟩ := exists_userInfo (ServerUri.authority rest).1
  let a₀ : Address := {
    scheme := String.ofList scheme, login := loginOf (ServerUri.authority rest).1, host := ""
    suffix := String.ofList suffix }
  obtain ⟨bracketed, digits, hparted, hport, hhp⟩ := exists_parted a₀ hp
  have hin : ∀ c ∈ host, c ∈ (ServerUri.authority rest).2 := by
    intro c hc
    rw [hhp]
    cases bracketed <;> simp [hc]
  refine ⟨a₀.withHost bracketed host digits, { hparted with
    scheme_ne := ?_, scheme := ?_, user := ?_, pass := ?_, host_ne := ?_, host := ?_
    suffix := ?_ }, ?_, ?_⟩
  · exact fun he ↦ hscheme (String.ofList_eq_empty_iff.1 he)
  · simpa [a₀, withHost] using hinfix
  · intro login hl c hc
    refine ⟨?_, hends c (List.mem_append_left _ (mem_info hl (List.mem_append_left _ hc)))⟩
    rintro rfl
    exact huser login hl hc
  · intro login hl pass hp c hc
    refine hends c (List.mem_append_left _ (mem_info hl (List.mem_append_right _ ?_)))
    rw [Option.mem_def.1 hp]
    exact List.mem_cons_of_mem _ hc
  · exact fun he ↦ hhost (String.ofList_eq_empty_iff.1 he)
  · intro c hc
    have hc := hin c (by simpa [withHost] using hc)
    exact ⟨fun he ↦ hat (he ▸ hc), hends c (List.mem_append_right _ hc)⟩
  · simpa [a₀, withHost] using hsuffix
  · apply String.toList_injective
    rw [text_toList, hostPortText_withHost, ← hhp, loginText_toList _ rfl, ht]
    simp only [a₀, withHost, String.toList_ofList]
    rw [← hrest]
  · have hlogin : (loginOf (ServerUri.authority rest).1).map (·.1) =
        (ServerUri.credentials (ServerUri.authority rest).1).1.map String.ofList := by
      rw [loginOf, Option.map_map]
      rfl
    rw [← hport, ← hlogin, ← hpass]
    rfl

theorem parse?_eq_ok_iff {t : String} {u : ServerUri} :
    ServerUri.parse? t = .ok u ↔ ∃ a : Address, a.Readable ∧ a.text = t ∧ a.read = u := by
  refine ⟨exists_readable, ?_⟩
  rintro ⟨a, h, rfl, rfl⟩
  exact h.parse?

theorem Parted.bracketed_iff (h : a.Parted) :
    (a.hostText.toList ++ a.portText.toList).head? = some '[' ↔ a.bracketed = true := by
  cases hb : a.bracketed with
  | true => simp [hostText, hb]
  | false =>
    have hh : (a.hostText.toList ++ a.portText.toList).head? ≠ some '[' := by
      simpa [hostText, hb] using h.head?_of_bare hb
    exact iff_of_false hh Bool.false_ne_true

theorem port_inj (h : a.portText = b.portText) : a.port = b.port := by
  unfold portText at h
  cases ha : a.port <;> cases hb : b.port <;> simp_all

theorem Parted.unique (ha : a.Parted) (hb : b.Parted)
    (h : a.hostText.toList ++ a.portText.toList = b.hostText.toList ++ b.portText.toList) :
    a.bracketed = b.bracketed ∧ a.host = b.host ∧ a.port = b.port := by
  have hbracketed : a.bracketed = b.bracketed := by
    rw [Bool.eq_iff_iff, ← ha.bracketed_iff, ← hb.bracketed_iff, h]
  have hhost : a.host = b.host := by
    have hs := h ▸ ha.hostPort?
    rw [hb.hostPort?] at hs
    exact String.toList_injective (congrArg Prod.fst (Option.some.inj hs)).symm
  have htext : a.hostText = b.hostText := by rw [hostText, hostText, hbracketed, hhost]
  rw [htext] at h
  exact ⟨hbracketed, hhost, port_inj (String.toList_injective (List.append_cancel_left h))⟩

theorem map_toList_injective : Function.Injective (Option.map String.toList) :=
  Option.map_injective fun _ _ ↦ String.toList_injective

theorem Readable.login_inj (ha : a.Readable) (hb : b.Readable) (h : a.userInfo = b.userInfo) :
    a.login = b.login := by
  have hc := h ▸ ha.credentials
  rw [hb.credentials, Prod.mk.injEq] at hc
  have hu : b.login.map (·.1) = a.login.map (·.1) :=
    map_toList_injective hc.1
  have hp : b.login.bind (·.2) = a.login.bind (·.2) :=
    map_toList_injective hc.2
  cases hl : a.login <;> cases hl' : b.login <;> simp_all [Prod.ext_iff]

/-- An address can be taken apart in one way only. -/
theorem Readable.unique (ha : a.Readable) (hb : b.Readable) (ht : a.text = b.text) : a = b := by
  have hl := congrArg String.toList ht
  rw [text_toList, text_toList] at hl
  have hs := hl ▸ splitOn?_scheme ha.scheme _
  rw [splitOn?_scheme hb.scheme, Option.some.injEq, Prod.mk.injEq] at hs
  obtain ⟨hscheme, hrest⟩ := hs
  have hauth := hrest ▸ hb.authority
  rw [ha.authority, Prod.mk.injEq] at hauth
  obtain ⟨hinfo, hhp⟩ := hauth
  have hinfo : a.userInfo = b.userInfo := map_toList_injective hinfo
  obtain ⟨hbracketed, hhost, hport⟩ := ha.toParted.unique hb.toParted hhp
  have htext : a.loginText = b.loginText := by rw [loginText, loginText, hinfo]
  rw [hhp, htext] at hrest
  exact Address.ext (String.toList_injective hscheme.symm) (ha.login_inj hb hinfo) hbracketed hhost
    hport (String.toList_injective (List.append_cancel_left hrest).symm)

/-- What the grammar of addresses allows: a host without brackets of its own, which holds a colon
only if it stands in brackets, and a port of digits alone. -/
structure Grammatical (a : Address) : Prop extends a.WellFormed where
  opening : '[' ∉ a.host.toList
  closing : ']' ∉ a.host.toList

/-- What is read though the grammar does not allow it is absent: a colon or a bracket in a host, and
a plus sign before a port. -/
structure Tidy (a : Address) : Prop where
  colon : a.bracketed = false → ':' ∉ a.host.toList
  opening : '[' ∉ a.host.toList
  closing : ']' ∉ a.host.toList
  sign : ∀ port ∈ a.port, port.toList.head? ≠ some '+'

theorem unsigned_eq (h : ∀ port ∈ a.port, port.toList.head? ≠ some '+') : a.unsigned = a := by
  refine Address.ext rfl rfl rfl rfl ?_ rfl
  cases hp : a.port with
  | none => simp [unsigned, hp]
  | some port => simp [unsigned, hp, Text.dropPlus_eq (h port hp)]

theorem Readable.grammatical_iff (h : a.Readable) : a.Grammatical ↔ a.Tidy := by
  constructor
  · intro hg
    refine ⟨fun hb ↦ (hg.bare hb).1, hg.opening, hg.closing, fun port hp he ↦ ?_⟩
    obtain ⟨n, -, hv⟩ := hg.port port hp
    cases (Text.nat?_eq_some_iff.1 hv).digits '+' (List.mem_of_mem_head? he)
  · intro ht
    have hport := unsigned_eq ht.sign ▸ h.port
    exact { h with
      bare := fun hb ↦ ⟨ht.colon hb, (h.bare hb).2⟩
      port := hport
      opening := ht.opening
      closing := ht.closing }

theorem Readable.exists_grammatical_iff (h : a.Readable) :
    (∃ b : Address, b.Grammatical ∧ b.text = a.text) ↔ a.Tidy := by
  rw [← h.grammatical_iff]
  refine ⟨?_, fun hg ↦ ⟨a, hg, rfl⟩⟩
  rintro ⟨b, hg, ht⟩
  rwa [← hg.readable.unique h ht]

/-- The texts that are read are the readable addresses, and such a text is in the grammar just if no
colon or bracket is astray in the host and the port has no sign. -/
theorem accepted_texts (t : String) :
    (∀ u, ServerUri.parse? t = .ok u ↔ ∃ a : Address, a.Readable ∧ a.text = t ∧ a.read = u) ∧
      ∀ a : Address, a.Readable → a.text = t →
        ((∃ b : Address, b.Grammatical ∧ b.text = t) ↔ a.Tidy) := by
  refine ⟨fun u ↦ parse?_eq_ok_iff, ?_⟩
  rintro a h rfl
  exact h.exists_grammatical_iff

theorem accepted_texts_bracketed :
    ∃ b : Address, b.Grammatical ∧ b.text = "nats://user:p@ss@[::1]:00080/path" := by
  let a : Address := {
    scheme := "nats", login := some ("user", some "p@ss"), bracketed := true, host := "::1"
    port := some "00080", suffix := "/path" }
  have h : a.Readable := {
    scheme_ne := by decide
    scheme := by decide
    user := by simp [a, ends]
    pass := by simp [a, ends]
    host_ne := by decide
    host := by simp [a, ends]
    bare := by decide
    bracketed := by decide
    port := by
      intro digits hd
      obtain rfl : "00080" = digits := Option.some.inj hd
      exact ⟨80, by decide, by decide⟩
    suffix := by simp [a, ends] }
  refine ((accepted_texts "nats://user:p@ss@[::1]:00080/path").2 a h (by decide)).2 ?_
  exact ⟨by rintro ⟨⟩, by decide, by decide, by simp [a]⟩

/-- Without brackets, the last colon of a numeric address is taken for that of a port. -/
theorem accepted_ungrammatical :
    ServerUri.parse? "nats://::1" = .ok ⟨"nats", ":", 1, none, none⟩ ∧
      ¬∃ a : Address, a.Grammatical ∧ a.text = "nats://::1" := by
  let a : Address := { scheme := "nats", host := ":", port := some "1" }
  have h : a.Readable := {
    scheme_ne := by decide
    scheme := by decide
    user := nofun
    pass := nofun
    host_ne := by decide
    host := by simp [a, ends]
    bare := by decide
    bracketed := nofun
    port := by
      intro digits hd
      obtain rfl : "1" = digits := Option.some.inj hd
      exact ⟨1, by decide, by decide⟩
    suffix := nofun }
  refine ⟨h.parse?, fun hg ↦ ?_⟩
  exact (h.exists_grammatical_iff.1 hg).colon rfl (by decide)

end Address

end Herald
