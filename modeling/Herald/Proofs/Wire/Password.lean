import Herald.Proofs.Wire.Acceptance
import Herald.Proofs.Wire.Quoted

namespace Herald

namespace Text

/-- What comes after the first separator does not count for where it stands. -/
theorem exists_splitOn? {sep : List Char} (hs : sep ≠ []) (cs : List Char) :
    ∃ before rest, ∀ after, splitOn? sep (cs ++ (sep ++ after)) = some (before, rest ++ after) := by
  induction cs with
  | nil =>
    refine ⟨[], [], fun after ↦ splitOn?_append hs fun xs ys he hy ↦ ?_⟩
    exact (hy (List.append_eq_nil_iff.1 he.symm).2).elim
  | cons c cs ih =>
    obtain ⟨before, rest, ih⟩ := ih
    by_cases hp : sep <+: c :: (cs ++ sep)
    · obtain ⟨rest, hr⟩ := hp
      refine ⟨[], rest, fun after ↦ ?_⟩
      have he : c :: cs ++ (sep ++ after) = [] ++ (sep ++ (rest ++ after)) := by
        rw [← List.append_assoc, List.cons_append, ← hr]
        simp
      rw [he]
      refine splitOn?_append hs fun xs ys he hy ↦ ?_
      exact (hy (List.append_eq_nil_iff.1 he.symm).2).elim
    · refine ⟨c :: before, rest, fun after ↦ ?_⟩
      have hn : ¬sep.isPrefixOf (c :: (cs ++ (sep ++ after))) := by
        intro h
        rw [List.isPrefixOf_iff_prefix, ← List.append_assoc, ← List.cons_append] at h
        exact hp (List.prefix_of_prefix_length_le h (List.prefix_append _ after) (by simp; omega))
      rw [List.cons_append, splitOn?, if_neg hn, ih after]
      rfl

end Text

namespace ServerUri

open Address (ends)

/-- An address of which only so much is told about the password as whether there is one. -/
def redacted (u : ServerUri) : ServerUri := { u with pass := u.pass.map fun _ ↦ "" }

theorem exists_splitLast? (after : List Char) :
    ∃ rest host, ∀ info,
      Text.splitLast? '@' (info ++ '@' :: after) = some (info ++ rest, host) := by
  by_cases h : '@' ∈ after
  · obtain ⟨before, host, rfl, hn⟩ := Text.exists_last h
    refine ⟨'@' :: before, host, fun info ↦ ?_⟩
    have he : info ++ '@' :: (before ++ '@' :: host) = info ++ '@' :: before ++ '@' :: host := by
      simp
    rw [he, Text.splitLast?_append hn]
  · exact ⟨[], after, fun info ↦ by rw [Text.splitLast?_append h, List.append_nil]⟩

theorem exists_user (login : List Char) :
    ∃ user, ∀ rest, ∃ pass, credentials (some (login ++ ':' :: rest)) = (some user, some pass) := by
  by_cases h : ':' ∈ login
  · obtain ⟨user, after, rfl, hn⟩ := List.eq_append_cons_of_mem h
    refine ⟨user, fun rest ↦ ⟨after ++ ':' :: rest, ?_⟩⟩
    have he : user ++ ':' :: after ++ ':' :: rest = user ++ ':' :: (after ++ ':' :: rest) := by simp
    rw [he, credentials, Text.splitFirst?_append hn]
  · exact ⟨login, fun rest ↦ ⟨rest, by rw [credentials, Text.splitFirst?_append h]⟩⟩

/-- Who asks and where the host stands can be told without the password. -/
theorem exists_authority (login after : List Char) : ∃ user asked host, ∀ pass : List Char,
    (∀ c ∈ pass, ends c = false) → ∃ info, authority (login ++ ':' :: (pass ++ '@' :: after)) =
      (info, host) ∧ (credentials info).1 = user ∧ (credentials info).2.isSome = asked := by
  by_cases hl : ∀ c ∈ login, ends c = false
  · obtain ⟨user, huser⟩ := exists_user login
    obtain ⟨rest, host, hlast⟩ := exists_splitLast? (after.takeWhile fun c ↦ !ends c)
    refine ⟨some user, true, host, fun pass hp ↦ ?_⟩
    have ht : (login ++ ':' :: (pass ++ '@' :: after)).takeWhile (fun c ↦ !ends c) =
        login ++ ':' :: pass ++ '@' :: after.takeWhile fun c ↦ !ends c := by
      have he : login ++ ':' :: (pass ++ '@' :: after) = login ++ ':' :: pass ++ '@' :: after := by
        simp
      have hall : ∀ c ∈ login ++ ':' :: pass, (!ends c) = true := by
        refine List.forall_mem_append.2 ⟨fun c hc ↦ by rw [hl c hc]; rfl, ?_⟩
        exact List.forall_mem_cons.2 ⟨rfl, fun c hc ↦ by rw [hp c hc]; rfl⟩
      rw [he, List.takeWhile_append_of_pos hall, List.takeWhile_cons_of_pos rfl]
    obtain ⟨hidden, hc⟩ := huser (pass ++ rest)
    refine ⟨some (login ++ ':' :: (pass ++ rest)), ?_, ?_, ?_⟩
    · rw [Address.authority_eq, ht, hlast]
      simp
    · rw [hc]
    · rw [hc]
      rfl
  · -- The part with the host ends before the password.
    have hne : (login.takeWhile fun c ↦ !ends c).length ≠ login.length := fun he ↦ hl fun c hc ↦ by
      have hall := List.all_eq_true.1 List.all_takeWhile c
        ((List.takeWhile_prefix _).eq_of_length he ▸ hc)
      simpa using hall
    refine ⟨_, _, (authority login).2, fun pass _ ↦ ⟨(authority login).1, ?_, rfl, rfl⟩⟩
    rw [Address.authority_eq, Address.authority_eq, List.takeWhile_append, if_neg hne]

theorem ofChars?_eq {cs scheme rest host : List Char} {info : Option (List Char)}
    (hs : Text.splitOn? "://".toList cs = some (scheme, rest))
    (ha : authority rest = (info, host)) :
    ofChars? cs =
      if scheme = [] then .error .missingScheme
      else match hostPort? host with
        | none => .error .badHostOrPort
        | some ([], _) => .error .missingHost
        | some (host, port) => .ok ⟨String.ofList scheme, String.ofList host, port,
            (credentials info).1.map String.ofList, (credentials info).2.map String.ofList⟩ := by
  rw [ofChars?, hs]
  cases scheme with
  | nil => rfl
  | cons c scheme =>
    rcases hp : hostPort? host with _ | ⟨_ | ⟨_, _⟩, _⟩ <;> simp [ha, hp]

/-- Without the password, a text is read as the same address or refused for the same fault. -/
theorem ofChars?_redacted (scheme login after : List Char) {pass pass' : List Char}
    (h : ∀ c ∈ pass, ends c = false) (h' : ∀ c ∈ pass', ends c = false) :
    (ofChars? (scheme ++ ("://".toList ++ (login ++ ':' :: (pass ++ '@' :: after))))).map redacted =
      (ofChars? (scheme ++ ("://".toList ++
        (login ++ ':' :: (pass' ++ '@' :: after))))).map redacted := by
  have hne : "://".toList ≠ [] := by decide
  obtain ⟨before, rest, hs⟩ := Text.exists_splitOn? hne scheme
  obtain ⟨user, asked, host, ha⟩ := exists_authority (rest ++ login) after
  obtain ⟨info, he, hu, hp⟩ := ha pass h
  obtain ⟨info', he', hu', hp'⟩ := ha pass' h'
  rw [List.append_assoc] at he he'
  rw [ofChars?_eq (hs _) he, ofChars?_eq (hs _) he', hu, hu']
  split
  · rfl
  split
  · rfl
  · rfl
  · have hpass : ((credentials info).2.map String.ofList).map (fun _ ↦ "") =
        ((credentials info').2.map String.ofList).map fun _ ↦ "" := by
      rw [← hp'] at hp
      cases hi : (credentials info).2 <;> cases hi' : (credentials info').2 <;> simp_all
    exact congrArg Except.ok (congrArg (ServerUri.mk _ _ _ _) hpass)

def withPassword (scheme user pass rest : String) : String :=
  scheme ++ "://" ++ user ++ ":" ++ pass ++ "@" ++ rest

variable {scheme user rest pass pass' : String}

theorem withPassword_inj
    (h : withPassword scheme user pass rest = withPassword scheme user pass' rest) :
    pass = pass' := by
  rw [withPassword, withPassword, String.append_left_inj, String.append_left_inj,
    String.append_right_inj] at h
  exact h

theorem parse?_eq (t : String) : parse? t = match ofChars? t.toList with
    | .ok u => .ok u
    | .error fault => .error (.invalidUri (fault.message t)) := rfl

/-- Whatever the password, a text is read as the same address but for the password, or refused for
the same fault. -/
theorem parse?_withPassword (scheme user rest : String) (h : ∀ c ∈ pass.toList, ends c = false)
    (h' : ∀ c ∈ pass'.toList, ends c = false) :
    (∃ u u', parse? (withPassword scheme user pass rest) = .ok u ∧
        parse? (withPassword scheme user pass' rest) = .ok u' ∧ u.redacted = u'.redacted) ∨
      ∃ fault, parse? (withPassword scheme user pass rest) =
          .error (.invalidUri (Fault.message fault (withPassword scheme user pass rest))) ∧
        parse? (withPassword scheme user pass' rest) =
          .error (.invalidUri (fault.message (withPassword scheme user pass' rest))) := by
  have hl (pass : String) : (withPassword scheme user pass rest).toList = scheme.toList ++
      ("://".toList ++ (user.toList ++ ':' :: (pass.toList ++ '@' :: rest.toList))) := by
    simp [withPassword]
  have hr := ofChars?_redacted scheme.toList user.toList rest.toList h h'
  rw [← hl, ← hl] at hr
  rw [parse?_eq, parse?_eq]
  cases hc : ofChars? (withPassword scheme user pass rest).toList with
  | ok u =>
    cases hc' : ofChars? (withPassword scheme user pass' rest).toList with
    | ok u' =>
      rw [hc, hc'] at hr
      exact .inl ⟨u, u', rfl, rfl, Except.ok.inj hr⟩
    | error fault =>
      rw [hc, hc'] at hr
      cases hr
  | error fault =>
    cases hc' : ofChars? (withPassword scheme user pass' rest).toList with
    | ok u' =>
      rw [hc, hc'] at hr
      cases hr
    | error fault' =>
      rw [hc, hc'] at hr
      obtain rfl := Except.error.inj hr
      exact .inr ⟨fault, rfl, rfl⟩

theorem Fault.message_inj {fault : Fault} {s t : String} (h : fault.message s = fault.message t) :
    s = t := by
  cases fault with
  | missingScheme => exact Text.quoted_inj ((String.append_right_inj _).1 h)
  | badHostOrPort => exact Text.quoted_inj ((String.append_right_inj _).1 h)
  | missingHost => exact Text.quoted_inj ((String.append_right_inj _).1 h)

/-- Texts refused for the same fault are told apart by the message. -/
theorem message_eq_iff {fault : Fault} {s t : String} :
    (ClientError.invalidUri (fault.message s)).message =
      (ClientError.invalidUri (fault.message t)).message ↔ s = t := by
  refine ⟨fun h ↦ Fault.message_inj ((String.append_right_inj _).1 h), fun h ↦ ?_⟩
  rw [h]

theorem redacted_redacted (u : ServerUri) : u.redacted.redacted = u.redacted := by
  simp only [redacted, Option.map_map]
  rfl

/-- Neither text for an address depends on the password. -/
theorem texts_of_password (u : ServerUri) (pass : Option String) :
    ({ u with pass } : ServerUri).text = u.text ∧ ({ u with pass } : ServerUri).debug = u.debug :=
  ⟨rfl, rfl⟩

theorem text_eq_of_redacted {u v : ServerUri} (h : u.redacted = v.redacted) : u.text = v.text :=
  (congrArg text h :)

theorem socketAddress_eq_of_redacted {u v : ServerUri} (h : u.redacted = v.redacted) :
    u.socketAddress = v.socketAddress := (congrArg socketAddress h :)

end ServerUri

end Herald
