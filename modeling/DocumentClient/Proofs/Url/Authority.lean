import DocumentClient.Proofs.Except
import DocumentClient.Proofs.Url.Host

/-!
# Authorities in writing

Reading an authority of the web yields a canonical one, and a canonical authority in writing is
read back as it is, with nothing left over.
-/

set_option autoImplicit false

namespace DocumentClient.Url

/-- An authority as reading leaves it. -/
structure Authority.Canonical (kind : SchemeKind) (authority : Authority) : Prop where
  username : ∀ char ∈ authority.username.toList, Percent.Kept inCredentials char
  password : ∀ password ∈ authority.password,
    password ≠ "" ∧ ∀ char ∈ password.toList, Percent.Kept inCredentials char
  host : ∃ host ∈ authority.host, host.Canonical
  port : ∀ port ∈ authority.port, port ≤ 65535 ∧ kind.defaultPort? ≠ some port

/-! ## What is read -/

private theorem kept_of_mem_escape {chars : List Char} {char : Char}
    (member : char ∈ (escape inCredentials chars).toList) : Percent.Kept inCredentials char := by
  rw [escape, String.toList_ofList] at member
  exact Percent.kept_of_mem_encodeChars (by decide) member

private theorem escape_ne_empty {escaped : Percent.EscapeSet} {chars : List Char}
    (present : chars ≠ []) :
    escape escaped chars ≠ "" := by
  cases chars with
  | nil => exact absurd rfl present
  | cons char chars =>
      intro empty
      rw [escape, Percent.encodeChars, List.flatMap_cons, ← String.toList_eq_nil_iff,
        String.toList_ofList, List.append_eq_nil_iff] at empty
      by_cases kept : Percent.Kept escaped char
      · rw [Percent.encodeChar_of_kept kept] at empty
        cases empty.1
      · rw [Percent.encodeChar_of_not_kept kept] at empty
        cases bytes : String.utf8EncodeChar char with
        | nil => exact String.utf8EncodeChar_ne_nil bytes
        | cons byte rest =>
            rw [bytes] at empty
            cases empty.1

private theorem canonical_of_readCredentials {chars : List Char} {username : String}
    {password : Option String} (read : readCredentials chars = (username, password)) :
    (∀ char ∈ username.toList, Percent.Kept inCredentials char) ∧
      ∀ text ∈ password, text ≠ "" ∧ ∀ char ∈ text.toList, Percent.Kept inCredentials char := by
  unfold readCredentials at read
  dsimp only at read
  split at read
  · cases read
    exact ⟨fun _ => kept_of_mem_escape, by simp⟩
  · cases read
    exact ⟨fun _ => kept_of_mem_escape, by simp⟩
  · rename_i first password many _
    cases read
    refine ⟨fun _ => kept_of_mem_escape, ?_⟩
    intro text member
    cases member
    refine ⟨escape_ne_empty ?_, fun _ => kept_of_mem_escape⟩
    intro same
    subst same
    exact many rfl

private theorem port_of_readPort {kind : SchemeKind} {chars rest : List Char} {port : Option Nat}
    (read : readPort kind chars = .ok (port, rest)) :
    ∀ number ∈ port, number ≤ 65535 ∧ kind.defaultPort? ≠ some number := by
  unfold readPort at read
  dsimp only at read
  split at read
  · cases read
  · rename_i small
    split at read
    · cases read
    · split at read
      · cases read
        simp
      · rename_i own
        cases read
        intro number member
        cases member
        refine ⟨Nat.le_of_not_lt small, ?_⟩
        intro default
        simp [default] at own

private theorem canonical_of_readHostOf {number : Nat} {chars : List Char} {host : Option Host}
    (read : readHostOf (.web number) chars = .ok host) : ∃ name ∈ host, name.Canonical := by
  change (if chars.isEmpty then .error .emptyHost else (readHost chars).map some) = _ at read
  split at read
  · cases read
  · obtain ⟨name, found, rfl⟩ := ok_of_map read
    exact ⟨name, rfl, canonical_of_readHost found⟩

theorem canonical_of_readAuthority {number : Nat} {chars rest : List Char} {followed : Bool}
    {authority : Authority}
    (read : readAuthority (.web number) chars followed = .ok (authority, rest)) :
    authority.Canonical (.web number) := by
  unfold readAuthority at read
  dsimp only at read
  cases credentials : readCredentials (((splitAtLastAt? chars).map (·.1)).getD []) with
  | mk username password =>
      rw [credentials] at read
      split at read
      · cases read
      · obtain ⟨host, hostRead, read⟩ := ok_of_bind read
        split at read
        · cases read
        · obtain ⟨⟨port, remaining⟩, portRead, read⟩ := ok_of_bind read
          split at read
          · cases read
          · cases read
            obtain ⟨usernameKept, passwordKept⟩ := canonical_of_readCredentials credentials
            exact ⟨usernameKept, passwordKept, canonical_of_readHostOf hostRead,
              port_of_readPort portRead⟩

/-! ## What is written -/

def portText (port : Option Nat) : List Char :=
  (port.map fun number => ':' :: Nat.toDigits 10 number).getD []

def credentialsText (username : String) (password : Option String) : List Char :=
  username.toList ++ (password.map fun text => ':' :: text.toList).getD []

private theorem toList_endpoint {authority : Authority} {host : Host}
    (found : host ∈ authority.host) :
    authority.endpoint.toList = host.text.toList ++ portText authority.port := by
  rw [Option.mem_def] at found
  rw [Authority.endpoint, found, portText]
  cases authority.port <;> simp

private theorem toList_credentials (authority : Authority) :
    authority.credentials.toList =
      if authority.username = "" ∧ authority.password = none then []
      else credentialsText authority.username authority.password ++ ['@'] := by
  unfold Authority.credentials credentialsText
  split <;> simp_all

private theorem splitAtLastAt?_of_not_mem {chars : List Char} (absent : '@' ∉ chars) :
    splitAtLastAt? chars = none := by
  induction chars with
  | nil => rfl
  | cons char chars ih =>
      simp only [List.mem_cons, not_or] at absent
      rw [splitAtLastAt?, ih absent.2]
      simp [Ne.symm absent.1]

private theorem splitAtLastAt?_append {after : List Char} (absent : '@' ∉ after)
    (before : List Char) :
    splitAtLastAt? (before ++ '@' :: after) = some (before, after) := by
  induction before with
  | nil =>
      rw [List.nil_append, splitAtLastAt?, splitAtLastAt?_of_not_mem absent]
      rfl
  | cons char before ih => rw [List.cons_append, splitAtLastAt?, ih]

private theorem colon_not_mem_of_kept {text : String}
    (kept : ∀ char ∈ text.toList, Percent.Kept inCredentials char) : ':' ∉ text.toList := by
  intro member
  exact absurd (kept ':' member).2 (by decide)

theorem escape_of_kept {escaped : Percent.EscapeSet} {text : String}
    (kept : ∀ char ∈ text.toList, Percent.Kept escaped char) :
    escape escaped text.toList = text := by
  rw [escape, Percent.encodeChars_eq_self kept, String.ofList_toList]

private theorem readCredentials_credentialsText {username : String} {password : Option String}
    (usernameKept : ∀ char ∈ username.toList, Percent.Kept inCredentials char)
    (passwordKept : ∀ text ∈ password,
      text ≠ "" ∧ ∀ char ∈ text.toList, Percent.Kept inCredentials char) :
    readCredentials (credentialsText username password) = (username, password) := by
  have notColon : ∀ char ∈ username.toList, (char != ':') = true := by
    intro char member
    rw [bne_iff_ne]
    intro same
    subst same
    exact colon_not_mem_of_kept usernameKept member
  cases password with
  | none =>
      have all : username.toList.takeWhile (· != ':') = username.toList :=
        List.takeWhile_eq_self_iff.mpr notColon
      have nothing : username.toList.dropWhile (· != ':') = [] :=
        List.dropWhile_eq_nil_iff.mpr notColon
      simp [credentialsText, readCredentials, all, nothing, escape_of_kept usernameKept]
  | some password =>
      obtain ⟨present, kept⟩ := passwordKept password rfl
      cases chars : password.toList with
      | nil => exact absurd (String.toList_eq_nil_iff.mp chars) present
      | cons first rest =>
          have written := escape_of_kept kept
          rw [chars] at written
          simp [credentialsText, readCredentials, chars, List.takeWhile_append_of_pos notColon,
            List.dropWhile_append_of_pos notColon, escape_of_kept usernameKept, written]

private theorem readPort_portText {kind : SchemeKind} {port : Option Nat}
    (canonical : ∀ number ∈ port, number ≤ 65535 ∧ kind.defaultPort? ≠ some number) :
    readPort kind ((portText port).drop 1) = .ok (port, []) := by
  cases port with
  | none => rfl
  | some number =>
      obtain ⟨small, foreign⟩ := canonical number rfl
      have digits : ∀ char ∈ Nat.toDigits 10 number, char.isDigit = true := fun _ =>
        Nat.isDigit_of_mem_toDigits (by decide) (by decide)
      have all : (Nat.toDigits 10 number).takeWhile Char.isDigit = Nat.toDigits 10 number :=
        List.takeWhile_eq_self_iff.mpr digits
      have nothing : (Nat.toDigits 10 number).dropWhile Char.isDigit = [] :=
        List.dropWhile_eq_nil_iff.mpr digits
      simp [portText, readPort, all, nothing, readNumber?_toDigits, Nat.not_lt.mpr small, foreign]

private theorem isEndpointChar_of_mem_endpoint {kind : SchemeKind} {authority : Authority}
    (canonical : authority.Canonical kind) {char : Char}
    (member : char ∈ authority.endpoint.toList) : isEndpointChar char = true := by
  obtain ⟨host, found, hostCanonical⟩ := canonical.host
  rw [toList_endpoint found, List.mem_append] at member
  rcases member with member | member
  · exact isEndpointChar_of_mem_text hostCanonical member
  · cases port : authority.port with
    | none => simp [portText, port] at member
    | some number =>
        simp only [portText, port, Option.map_some, Option.getD_some, List.mem_cons] at member
        rcases member with rfl | member
        · decide
        · obtain ⟨digit, small, rfl⟩ := mem_toDigits (by decide) member
          exact (by decide : ∀ digit < 10, isEndpointChar (Nat.digitChar digit) = true)
            digit small

private theorem endpoint_ne_nil {kind : SchemeKind} {authority : Authority}
    (canonical : authority.Canonical kind) : authority.endpoint.toList ≠ [] := by
  obtain ⟨host, found, hostCanonical⟩ := canonical.host
  rw [toList_endpoint found]
  simp [text_ne_nil hostCanonical]

private theorem at_not_mem_endpoint {kind : SchemeKind} {authority : Authority}
    (canonical : authority.Canonical kind) : '@' ∉ authority.endpoint.toList := by
  intro member
  exact absurd (isEndpointChar_of_mem_endpoint canonical member) (by decide)

private theorem readHostOf_text {number : Nat} {host : Host} (canonical : host.Canonical) :
    readHostOf (.web number) host.text.toList = .ok (some host) := by
  have filled : host.text.toList.isEmpty = false :=
    List.isEmpty_eq_false_iff.mpr (text_ne_nil canonical)
  change (if host.text.toList.isEmpty then .error .emptyHost
    else (readHost host.text.toList).map some) = _
  rw [filled, readHost_text canonical]
  rfl

/-- A canonical authority in writing is read as that authority. -/
theorem readAuthority_text {number : Nat} {authority : Authority}
    (canonical : authority.Canonical (.web number)) (followed : Bool) :
    readAuthority (.web number) authority.text.toList followed = .ok (authority, []) := by
  have absent := at_not_mem_endpoint canonical
  have credentials : ∃ split, splitAtLastAt? authority.text.toList = split ∧
      readCredentials ((split.map (·.1)).getD []) = (authority.username, authority.password) ∧
      (split.map (·.2)).getD authority.text.toList = authority.endpoint.toList := by
    rw [Authority.text, String.toList_append, toList_credentials]
    split
    · rename_i anonymous
      refine ⟨none, splitAtLastAt?_of_not_mem absent, ?_, rfl⟩
      rw [anonymous.1, anonymous.2]
      rfl
    · refine ⟨some (credentialsText authority.username authority.password,
        authority.endpoint.toList), ?_, ?_, rfl⟩
      · rw [List.append_assoc, List.singleton_append, splitAtLastAt?_append absent]
      · exact readCredentials_credentialsText canonical.username canonical.password
  obtain ⟨split, found, read, endpoint⟩ := credentials
  obtain ⟨host, hostFound, hostCanonical⟩ := canonical.host
  have present : authority.endpoint.toList.isEmpty = false :=
    List.isEmpty_eq_false_iff.mpr (endpoint_ne_nil canonical)
  have hostText : splitHost false authority.endpoint.toList =
      (host.text.toList, portText authority.port) := by
    rw [toList_endpoint hostFound]
    refine splitHost_text hostCanonical ?_
    cases authority.port <;> simp [portText]
  have hostRead : readHostOf (.web number) host.text.toList = .ok authority.host := by
    rw [Option.mem_def.mp hostFound, readHostOf_text hostCanonical]
  have named : authority.host.isNone = false := by
    rw [Option.mem_def.mp hostFound]
    rfl
  rw [readAuthority, found]
  simp only [read, endpoint, present, hostText, hostRead, named, readPort_portText canonical.port,
    bind, Except.bind, Bool.false_eq_true, false_and, and_false, ↓reduceIte]

/-! ## Where an authority ends -/

/-- A character that neither ends an authority nor is dropped from a URL. -/
def isAuthorityChar (char : Char) : Bool :=
  !endsAuthority true char && !isBlank char

private theorem isAuthorityChar_of_kept {char : Char} (kept : Percent.Kept inCredentials char) :
    isAuthorityChar char = true := by
  have checked := Text.ascii_all (fun char => inCredentials char || isAuthorityChar char)
    (by decide) kept.1
  simpa [kept.2] using checked

theorem isAuthorityChar_of_mem_text {kind : SchemeKind} {authority : Authority}
    (canonical : authority.Canonical kind) {char : Char}
    (member : char ∈ authority.text.toList) : isAuthorityChar char = true := by
  rw [Authority.text, String.toList_append, toList_credentials, List.mem_append] at member
  rcases member with member | member
  · split at member
    · cases member
    · simp only [credentialsText, List.mem_append, List.mem_singleton] at member
      rcases member with (member | member) | rfl
      · exact isAuthorityChar_of_kept (canonical.username char member)
      · cases password : authority.password with
        | none => simp [password] at member
        | some text =>
            simp only [password, Option.map_some, Option.getD_some, List.mem_cons] at member
            rcases member with rfl | member
            · decide
            · exact isAuthorityChar_of_kept ((canonical.password text password).2 char member)
      · decide
  · have inside := isEndpointChar_of_mem_endpoint canonical member
    simp only [isEndpointChar, Bool.and_eq_true] at inside
    simp only [isAuthorityChar, inside.1.1, inside.1.2, Bool.and_self]

theorem authorityText_ne_nil {kind : SchemeKind} {authority : Authority}
    (canonical : authority.Canonical kind) : authority.text.toList ≠ [] := by
  rw [Authority.text, String.toList_append]
  simp [endpoint_ne_nil canonical]

end DocumentClient.Url
