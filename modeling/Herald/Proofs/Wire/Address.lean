import Herald.Proofs.Wire.Fields
import Herald.ServerUri

namespace Herald

namespace Text

/-- A separator is found where it stands if it does not begin any earlier. -/
theorem splitOn?_append {sep before after : List Char} (hs : sep ≠ [])
    (h : ∀ xs ys, before = xs ++ ys → ys ≠ [] → ¬sep <+: ys ++ (sep ++ after)) :
    splitOn? sep (before ++ (sep ++ after)) = some (before, after) := by
  induction before with
  | nil =>
    obtain ⟨c, cs, rfl⟩ := List.exists_cons_of_ne_nil hs
    have hp : (c :: cs).isPrefixOf (c :: (cs ++ after)) :=
      List.isPrefixOf_iff_prefix.2 (List.prefix_append (c :: cs) after)
    rw [List.nil_append, List.cons_append, splitOn?, if_pos hp]
    exact congrArg (fun rest ↦ some ([], rest)) List.drop_left
  | cons b before ih =>
    have hn : ¬sep.isPrefixOf (b :: (before ++ (sep ++ after))) := fun hp ↦
      h [] (b :: before) rfl (List.cons_ne_nil _ _) (List.isPrefixOf_iff_prefix.1 hp)
    have hi := ih fun xs ys he ↦ h (b :: xs) ys (congrArg (b :: ·) he)
    rw [List.cons_append, splitOn?, if_neg hn, hi]
    rfl

theorem splitFirst?_append {c : Char} {before : List Char} (h : c ∉ before) (after : List Char) :
    splitFirst? c (before ++ c :: after) = some (before, after) := by
  refine splitOn?_append (List.cons_ne_nil c []) fun xs ys he hy hp ↦ ?_
  obtain ⟨d, ys, rfl⟩ := List.exists_cons_of_ne_nil hy
  obtain rfl : c = d := (List.cons_prefix_cons.1 hp).1
  exact h (he ▸ List.mem_append_right _ List.mem_cons_self)

theorem splitFirst?_eq_none {c : Char} {cs : List Char} (h : c ∉ cs) :
    splitFirst? c cs = none := by
  unfold splitFirst?
  induction cs with
  | nil => rfl
  | cons d cs ih =>
    obtain ⟨hd, hcs⟩ := not_or.1 fun hm ↦ h (List.mem_cons.2 hm)
    have hn : ¬[c].isPrefixOf (d :: cs) := by simp [List.isPrefixOf, hd]
    rw [splitOn?, if_neg hn, ih hcs]
    rfl

theorem splitLast?_eq_none {c : Char} {cs : List Char} (h : c ∉ cs) : splitLast? c cs = none := by
  induction cs with
  | nil => rfl
  | cons d cs ih =>
    obtain ⟨hd, hcs⟩ := not_or.1 fun hm ↦ h (List.mem_cons.2 hm)
    simp only [splitLast?, ih hcs, if_neg (Ne.symm hd)]

theorem splitLast?_append {c : Char} {after : List Char} (h : c ∉ after) (before : List Char) :
    splitLast? c (before ++ c :: after) = some (before, after) := by
  induction before with
  | nil => simp only [List.nil_append, splitLast?, splitLast?_eq_none h, if_true]
  | cons b before ih => simp only [List.cons_append, splitLast?, ih]

def dropPlus : List Char → List Char
  | '+' :: cs => cs
  | cs => cs

theorem dropPlus_eq {cs : List Char} (h : cs.head? ≠ some '+') : dropPlus cs = cs := by
  unfold dropPlus
  split
  · exact (h rfl).elim
  · rfl

theorem unsigned?_eq (bound : Nat) (cs : List Char) :
    unsigned? bound cs = digits? bound (dropPlus cs) := by
  unfold unsigned?
  split
  · rfl
  · rename_i hc
    rw [dropPlus_eq fun h ↦ hc _ (List.head?_eq_some_iff.1 h).choose_spec]

theorem mem_dropPlus {c : Char} {cs : List Char} (hc : c ∈ cs) (h : c ≠ '+') :
    c ∈ dropPlus cs := by
  unfold dropPlus
  split
  · exact (List.mem_cons.1 hc).resolve_left h
  · exact hc

end Text

/-- An address as it is written: a scheme, perhaps a user with or without a password, a host, which
may stand in brackets, perhaps the digits of a port, and what comes after. -/
@[ext]
structure Address where
  scheme : String
  login : Option (String × Option String) := none
  bracketed : Bool := false
  host : String
  port : Option String := none
  suffix : String := ""

namespace Address

def userInfo (a : Address) : Option String :=
  a.login.map fun (user, pass) ↦
    match pass with
    | none => user
    | some pass => user ++ ":" ++ pass

def loginText (a : Address) : String :=
  match a.userInfo with
  | none => ""
  | some info => info ++ "@"

def hostText (a : Address) : String := if a.bracketed then "[" ++ a.host ++ "]" else a.host

def portText (a : Address) : String :=
  match a.port with
  | none => ""
  | some digits => ":" ++ digits

def text (a : Address) : String :=
  a.scheme ++ "://" ++ a.loginText ++ a.hostText ++ a.portText ++ a.suffix

def uri (a : Address) : ServerUri where
  scheme := a.scheme
  host := a.host
  port := (a.port.bind Text.nat?).getD ServerUri.defaultPort
  user := a.login.map (·.1)
  pass := a.login.bind (·.2)

def unsigned (a : Address) : Address :=
  { a with port := a.port.map fun port ↦ String.ofList (Text.dropPlus port.toList) }

def read (a : Address) : ServerUri := a.unsigned.uri

def ends (c : Char) : Bool := c == '/' || c == '?' || c == '#'

/-- Host and port can be told from each other. Without brackets, the port is what comes after the
last colon, whatever the host holds. -/
structure Parted (a : Address) : Prop where
  bare : a.bracketed = false → (a.port = none → ':' ∉ a.host.toList) ∧
    a.host.toList.head? ≠ some '['
  bracketed : a.bracketed = true → ']' ∉ a.host.toList
  port : ∀ digits ∈ a.unsigned.port, ∃ n < UInt16.size, Text.nat? digits = some n

structure Readable (a : Address) : Prop extends a.Parted where
  scheme_ne : a.scheme ≠ ""
  scheme : ¬"://".toList <:+: a.scheme.toList
  user : ∀ login ∈ a.login, ∀ c ∈ login.1.toList, c ≠ ':' ∧ ends c = false
  pass : ∀ login ∈ a.login, ∀ pass ∈ login.2, ∀ c ∈ pass.toList, ends c = false
  host_ne : a.host ≠ ""
  host : ∀ c ∈ a.host.toList, c ≠ '@' ∧ ends c = false
  suffix : ∀ c ∈ a.suffix.toList.head?, ends c

/-- Each part can be told from those around it. A password may have colons in it, and user and
password may have at signs. -/
structure WellFormed (a : Address) : Prop where
  scheme_ne : a.scheme ≠ ""
  scheme : ¬"://".toList <:+: a.scheme.toList
  user : ∀ login ∈ a.login, ∀ c ∈ login.1.toList, c ≠ ':' ∧ ends c = false
  pass : ∀ login ∈ a.login, ∀ pass ∈ login.2, ∀ c ∈ pass.toList, ends c = false
  host_ne : a.host ≠ ""
  host : ∀ c ∈ a.host.toList, c ≠ '@' ∧ ends c = false
  bare : a.bracketed = false → ':' ∉ a.host.toList ∧ a.host.toList.head? ≠ some '['
  bracketed : a.bracketed = true → ']' ∉ a.host.toList
  port : ∀ digits ∈ a.port, ∃ n < UInt16.size, Text.nat? digits = some n
  suffix : ∀ c ∈ a.suffix.toList.head?, ends c

variable {a : Address}

theorem splitOn?_scheme {scheme : List Char} (h : ¬"://".toList <:+: scheme) (rest : List Char) :
    Text.splitOn? "://".toList (scheme ++ ("://".toList ++ rest)) = some (scheme, rest) := by
  have hs : "://".toList = [':', '/', '/'] := rfl
  rw [hs] at h ⊢
  refine Text.splitOn?_append (List.cons_ne_nil _ _) fun xs ys he hy hp ↦ ?_
  -- It cannot begin with the last characters of the scheme, since no two colons are in it.
  match ys with
  | [] => exact hy rfl
  | [_] => simp [List.cons_prefix_cons] at hp
  | [_, _] => simp [List.cons_prefix_cons] at hp
  | b :: c :: d :: ys =>
    simp only [List.cons_append, List.cons_prefix_cons, List.nil_prefix, and_true] at hp
    obtain ⟨rfl, rfl, rfl⟩ := hp
    exact h ⟨xs, ys, by rw [he]; simp⟩

/-- A port and the number that it is. -/
theorem Parted.numeral (h : a.Parted) {port : String} (hp : a.port = some port) :
    Text.Numeral (Text.dropPlus port.toList) a.read.port ∧ a.read.port < UInt16.size := by
  have hu : a.unsigned.port = some (String.ofList (Text.dropPlus port.toList)) :=
    congrArg (Option.map _) hp
  obtain ⟨n, hn, hv⟩ := h.port _ hu
  have hr : a.read.port = n := by simp only [read, uri, hu, Option.bind_some, hv, Option.getD_some]
  have hl := Text.nat?_eq_some_iff.1 hv
  rw [String.toList_ofList] at hl
  exact hr ▸ ⟨hl, hn⟩

theorem Parted.port? (h : a.Parted) {port : String} (hp : a.port = some port) :
    ServerUri.port? port.toList = some a.read.port := by
  rw [ServerUri.port?, Text.unsigned?_eq]
  exact Text.digits?_eq_some_iff.2 (h.numeral hp)

theorem Parted.not_mem_port (h : a.Parted) {port : String} (hp : a.port = some port) {c : Char}
    (hc : c ≠ '+') (hd : c.isDigit = false) : c ∉ port.toList := fun hm ↦ by
  have h := (h.numeral hp).1.digits c (Text.mem_dropPlus hm hc)
  rw [hd] at h
  cases h

theorem read_port_of_none (hp : a.port = none) : a.read.port = ServerUri.defaultPort := by
  simp [read, unsigned, uri, hp]

theorem Parted.hostPort?_bracketed (h : a.Parted) (hb : a.bracketed = true) :
    ServerUri.hostPort? (a.hostText.toList ++ a.portText.toList) =
      some (a.host.toList, a.read.port) := by
  have hc : a.hostText.toList ++ a.portText.toList =
      '[' :: (a.host.toList ++ ']' :: a.portText.toList) := by simp [hostText, hb]
  rw [hc, ServerUri.hostPort?, Text.splitFirst?_append (h.bracketed hb), portText]
  cases hp : a.port with
  | none => simp [read_port_of_none hp]
  | some port => simp [h.port? hp]

theorem hostPort?_eq {cs : List Char} (h : cs.head? ≠ some '[') :
    ServerUri.hostPort? cs = (Text.splitLast? ':' cs).elim (some (cs, ServerUri.defaultPort))
      fun p ↦ (ServerUri.port? p.2).map (p.1, ·) := by
  unfold ServerUri.hostPort?
  split
  · exact (h rfl).elim
  · cases Text.splitLast? ':' cs <;> rfl

theorem Parted.head?_of_bare (h : a.Parted) (hb : a.bracketed = false) :
    (a.host.toList ++ a.portText.toList).head? ≠ some '[' := by
  have hp : a.portText.toList.head? ≠ some '[' := by
    unfold portText
    cases a.port <;> simp
  rw [List.head?_append]
  exact fun he ↦ (Option.or_eq_some_iff.1 he).elim (h.bare hb).2 fun h ↦ hp h.2

theorem Parted.hostPort?_bare (h : a.Parted) (hb : a.bracketed = false) :
    ServerUri.hostPort? (a.hostText.toList ++ a.portText.toList) =
      some (a.host.toList, a.read.port) := by
  have hc : a.hostText = a.host := by simp [hostText, hb]
  rw [hc, hostPort?_eq (h.head?_of_bare hb), portText]
  cases hp : a.port with
  | none => simp [Text.splitLast?_eq_none ((h.bare hb).1 hp), read_port_of_none hp]
  | some port =>
    have hm : ':' ∉ port.toList := h.not_mem_port hp (by decide) rfl
    have hs : (":" ++ port).toList = ':' :: port.toList := by simp
    simp only [hs, Text.splitLast?_append hm, h.port? hp, Option.elim_some, Option.map_some]

theorem Parted.hostPort? (h : a.Parted) :
    ServerUri.hostPort? (a.hostText.toList ++ a.portText.toList) =
      some (a.host.toList, a.read.port) := by
  cases hb : a.bracketed with
  | true => exact h.hostPort?_bracketed hb
  | false => exact h.hostPort?_bare hb

theorem Readable.ends_userInfo (h : a.Readable) :
    ∀ info ∈ a.userInfo, ∀ c ∈ info.toList, ends c = false := by
  intro info hi
  obtain ⟨⟨user, pass⟩, hl, rfl⟩ := Option.map_eq_some_iff.1 hi
  have huser : ∀ c ∈ user.toList, ends c = false := fun c hc ↦ (h.user _ hl c hc).2
  cases pass with
  | none => exact huser
  | some pass =>
    rw [String.toList_append, String.toList_append]
    exact List.forall_mem_append.2 ⟨List.forall_mem_append.2 ⟨huser,
      List.forall_mem_singleton.2 rfl⟩, h.pass _ hl pass rfl⟩

theorem Readable.ends_loginText (h : a.Readable) :
    ∀ c ∈ a.loginText.toList, ends c = false := by
  unfold loginText
  split
  · exact nofun
  · rename_i info hi
    rw [String.toList_append]
    exact List.forall_mem_append.2 ⟨h.ends_userInfo info hi, List.forall_mem_singleton.2 rfl⟩

/-- Host and port hold nothing that is looked for before they are split. -/
theorem Readable.ends_hostPort (h : a.Readable) :
    ∀ c ∈ a.hostText.toList ++ a.portText.toList, c ≠ '@' ∧ ends c = false := by
  refine List.forall_mem_append.2 ⟨?_, ?_⟩
  · unfold hostText
    split
    · rw [String.toList_append, String.toList_append]
      exact List.forall_mem_append.2 ⟨List.forall_mem_append.2
        ⟨List.forall_mem_singleton.2 (by decide), h.host⟩,
        List.forall_mem_singleton.2 (by decide)⟩
    · exact h.host
  · unfold portText
    split
    · exact nofun
    · rename_i port hp
      rw [String.toList_append]
      refine List.forall_mem_append.2 ⟨List.forall_mem_singleton.2 (by decide), fun c hc ↦ ?_⟩
      refine ⟨?_, Bool.eq_false_iff.2 fun he ↦ ?_⟩
      · rintro rfl
        exact h.not_mem_port hp (by decide) rfl hc
      · simp only [ends, Bool.or_eq_true, beq_iff_eq] at he
        rcases he with (rfl | rfl) | rfl <;> exact h.not_mem_port hp (by decide) rfl hc

theorem authority_eq (cs : List Char) : ServerUri.authority cs =
    (Text.splitLast? '@' (cs.takeWhile fun c ↦ !ends c)).elim (none, cs.takeWhile fun c ↦ !ends c)
      fun p ↦ (some p.1, p.2) := by
  have hp : (fun c ↦ c != '/' && c != '?' && c != '#') = fun c ↦ !ends c := by
    funext c
    simp only [ends, bne, Bool.not_or]
  rw [ServerUri.authority, hp]
  cases Text.splitLast? '@' (cs.takeWhile fun c ↦ !ends c) <;> rfl

theorem Readable.authority (h : a.Readable) :
    ServerUri.authority (a.loginText.toList ++ (a.hostText.toList ++ a.portText.toList) ++
      a.suffix.toList) =
      (a.userInfo.map String.toList, a.hostText.toList ++ a.portText.toList) := by
  have hall : ∀ c ∈ a.loginText.toList ++ (a.hostText.toList ++ a.portText.toList),
      (!ends c) = true :=
    List.forall_mem_append.2 ⟨fun c hc ↦ by rw [h.ends_loginText c hc]; rfl,
      fun c hc ↦ by rw [(h.ends_hostPort c hc).2]; rfl⟩
  have hsuffix : a.suffix.toList.takeWhile (fun c ↦ !ends c) = [] := by
    cases hs : a.suffix.toList with
    | nil => rfl
    | cons c cs =>
      have hc := h.suffix c (by rw [hs]; rfl)
      simp [hc]
  have hat : '@' ∉ a.hostText.toList ++ a.portText.toList :=
    fun hm ↦ (h.ends_hostPort '@' hm).1 rfl
  rw [authority_eq, List.takeWhile_append_of_pos hall, hsuffix, List.append_nil, loginText]
  cases a.userInfo with
  | none => simp [Text.splitLast?_eq_none hat]
  | some info =>
    have hs : (info ++ "@").toList ++ (a.hostText.toList ++ a.portText.toList) =
        info.toList ++ '@' :: (a.hostText.toList ++ a.portText.toList) := by simp
    simp only [hs, Text.splitLast?_append hat, Option.map_some, Option.elim_some]

theorem Readable.credentials (h : a.Readable) :
    ServerUri.credentials (a.userInfo.map String.toList) =
      (a.read.user.map String.toList, a.read.pass.map String.toList) := by
  unfold userInfo read unsigned uri
  cases hl : a.login with
  | none => rfl
  | some login =>
    obtain ⟨user, pass⟩ := login
    have hcolon : ':' ∉ user.toList := fun hm ↦ (h.user _ hl ':' hm).1 rfl
    cases pass with
    | none => simp [ServerUri.credentials, Text.splitFirst?_eq_none hcolon]
    | some pass => simp [ServerUri.credentials, Text.splitFirst?_append hcolon]

theorem text_toList (a : Address) : a.text.toList = a.scheme.toList ++ ("://".toList ++
    (a.loginText.toList ++ (a.hostText.toList ++ a.portText.toList) ++ a.suffix.toList)) := by
  simp [text]

theorem Readable.parse? (h : a.Readable) : ServerUri.parse? a.text = .ok a.read := by
  have ho : ServerUri.ofChars? a.text.toList = .ok a.read := by
    obtain ⟨s, scheme, hs⟩ := List.exists_cons_of_ne_nil fun he ↦
      h.scheme_ne (String.toList_injective he)
    obtain ⟨c, host, hh⟩ := List.exists_cons_of_ne_nil fun he ↦
      h.host_ne (String.toList_injective he)
    have hsplit := splitOn?_scheme h.scheme
    have hhp := h.hostPort?
    rw [hs] at hsplit
    rw [hh] at hhp
    rw [text_toList, ServerUri.ofChars?, hs, hsplit]
    have hofList (o : Option String) : (o.map String.toList).map String.ofList = o := by
      cases o <;> simp
    simp only [h.authority, h.credentials, hhp, hofList]
    rw [← hs, ← hh, String.ofList_toList, String.ofList_toList]
    rfl
  rw [ServerUri.parse?, ho]

theorem WellFormed.port_lt (h : a.WellFormed) : a.uri.port < UInt16.size := by
  cases hp : a.port with
  | none =>
    simp only [uri, hp]
    decide
  | some digits =>
    obtain ⟨n, hn, hv⟩ := h.port digits hp
    simpa only [uri, hp, Option.bind_some, hv, Option.getD_some] using hn

/-- No digit is a sign. -/
theorem WellFormed.unsigned (h : a.WellFormed) : a.unsigned = a := by
  cases hp : a.port with
  | none =>
    rw [Address.unsigned, hp, Option.map_none, ← hp]
  | some digits =>
    obtain ⟨n, -, hv⟩ := h.port digits hp
    have hd : Text.dropPlus digits.toList = digits.toList := Text.dropPlus_eq fun he ↦ by
      cases (Text.nat?_eq_some_iff.1 hv).digits '+' (List.mem_of_mem_head? he)
    rw [Address.unsigned, hp, Option.map_some, hd, String.ofList_toList, ← hp]

theorem WellFormed.readable (h : a.WellFormed) : a.Readable :=
  { h with
    bare := fun hb ↦ ⟨fun _ ↦ (h.bare hb).1, (h.bare hb).2⟩
    port := by rw [h.unsigned]; exact h.port }

theorem WellFormed.parse? (h : a.WellFormed) : ServerUri.parse? a.text = .ok a.uri := by
  have hr := h.readable.parse?
  rwa [read, h.unsigned] at hr

def shown (a : Address) : Address where
  scheme := a.scheme
  bracketed := a.host.toList.contains ':'
  host := a.host
  port := some (toString a.uri.port)

theorem text_uri (a : Address) : a.uri.text = a.shown.text := by
  change a.scheme ++ "://" ++ (if a.host.toList.contains ':' then
      "[" ++ a.host ++ "]:" ++ toString a.uri.port else a.host ++ ":" ++ toString a.uri.port) =
    a.scheme ++ "://" ++ "" ++ (if a.host.toList.contains ':' then "[" ++ a.host ++ "]"
      else a.host) ++ (":" ++ toString a.uri.port) ++ ""
  have hb : "]:" = "]" ++ ":" := rfl
  rw [hb]
  split <;> simp only [String.append_assoc, String.append_empty]

theorem uri_shown (a : Address) : a.shown.uri = { a.uri with user := none, pass := none } := by
  have hp : (a.shown.port.bind Text.nat?).getD ServerUri.defaultPort = a.uri.port :=
    congrArg (·.getD ServerUri.defaultPort) (Text.nat?_toString a.uri.port)
  exact congrArg (ServerUri.mk a.scheme a.host · none none) hp

theorem WellFormed.shown (h : a.WellFormed) (ho : '[' ∉ a.host.toList) (hc : ']' ∉ a.host.toList) :
    a.shown.WellFormed where
  scheme_ne := h.scheme_ne
  scheme := h.scheme
  user := nofun
  pass := nofun
  host_ne := h.host_ne
  host := h.host
  bare hb := ⟨by simpa [Address.shown] using hb, fun he ↦ ho (List.mem_of_mem_head? he)⟩
  bracketed _ := hc
  port := by
    intro digits hd
    obtain rfl : toString a.uri.port = digits := Option.some.inj hd
    exact ⟨a.uri.port, h.port_lt, Text.nat?_toString _⟩
  suffix := nofun

/-- An address is read back as what it is made of, and so is the one that is shown in its place,
but for who asks. -/
theorem components_recovered (h : a.WellFormed) :
    ServerUri.parse? a.text = .ok a.uri ∧
      ('[' ∉ a.host.toList → ']' ∉ a.host.toList →
        ServerUri.parse? a.uri.text = .ok { a.uri with user := none, pass := none }) := by
  refine ⟨h.parse?, fun ho hc ↦ ?_⟩
  rw [text_uri, ← uri_shown]
  exact (h.shown ho hc).parse?

theorem components_recovered_disguised :
    let a : Address := {
      scheme := "s:", login := some ("u@v", some "p:q@r"), bracketed := true, host := "::1"
      port := some "00065535", suffix := "/x@y://z?k#f" }
    a.text = "s:://u@v:p:q@r@[::1]:00065535/x@y://z?k#f" ∧
      ServerUri.parse? a.text = .ok ⟨"s:", "::1", 65535, some "u@v", some "p:q@r"⟩ ∧
      ServerUri.parse? "s:://[::1]:65535" = .ok ⟨"s:", "::1", 65535, none, none⟩ := by
  intro a
  have h : a.WellFormed := {
    scheme_ne := by decide
    scheme := by decide
    user := by simp [a, ends]
    pass := by simp [a, ends]
    host_ne := by decide
    host := by simp [a, ends]
    bare := by decide
    bracketed := by decide
    port := by
      intro digits hd
      obtain rfl : "00065535" = digits := Option.some.inj hd
      exact ⟨65535, by decide, by decide⟩
    suffix := by simp [a, ends] }
  obtain ⟨hread, hshown⟩ := components_recovered h
  have ht : a.uri.text = "s:://[::1]:65535" := by decide
  exact ⟨by decide, hread, ht ▸ hshown (by decide) (by decide)⟩

end Address

end Herald
