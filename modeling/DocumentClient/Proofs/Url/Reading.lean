import DocumentClient.Proofs.Url.Authority
import DocumentClient.Proofs.Url.Path

/-!
# URLs of the web, read back

Reading yields canonical URLs. What is written behind the authority of a canonical URL and a slash
is read as a path, a query and a fragment of the same server, whatever it is.
-/

set_option autoImplicit false

namespace DocumentClient.Url

/-- A URL of the web as reading leaves it, with its default port, its authority and its segments. -/
structure Canonical (url : Url) (number : Nat) (authority : Authority) (segments : List String) :
    Prop where
  scheme : url.scheme = "http" ∧ number = 80 ∨ url.scheme = "https" ∧ number = 443
  named : url.authority = some authority
  canonical : authority.Canonical (.web number)
  path : url.path = .absolute segments
  present : segments ≠ []
  settled : ∀ segment ∈ segments, Settled segment

/-! ## What is read -/

private theorem scheme_of_readFile {chars : List Char} {url : Url}
    (read : readFile chars = .ok url) :
    url.scheme = "file" := by
  unfold readFile at read
  split at read
  · cases read
    rfl
  · dsimp only at read
    split at read
    · cases read
      rfl
    · split at read
      · cases read
      · cases read
        rfl
      · cases read
        rfl

private theorem scheme_of_readBehindSlashes {scheme : String} {kind : SchemeKind}
    {chars : List Char}
    {url : Url} (read : readBehindSlashes scheme kind chars = .ok url) : url.scheme = scheme := by
  unfold readBehindSlashes at read
  dsimp only at read
  obtain ⟨_, _, read⟩ := ok_of_bind read
  cases read
  rfl

private theorem scheme_of_readOther {scheme : String} {chars : List Char} {url : Url}
    (read : readOther scheme chars = .ok url) : url.scheme = scheme := by
  unfold readOther at read
  split at read
  · exact scheme_of_readBehindSlashes read
  · cases read
    rfl
  · cases read
    rfl

private theorem readBehindSlashes_eq_ok {scheme : String} {number : Nat} {chars : List Char}
    {url : Url} (read : readBehindSlashes scheme (.web number) chars = .ok url) :
    ∃ authority segments, url.authority = some authority ∧
      authority.Canonical (.web number) ∧ url.path = .absolute segments ∧ segments ≠ [] ∧
      ∀ segment ∈ segments, Settled segment := by
  unfold readBehindSlashes at read
  dsimp only at read
  obtain ⟨⟨authority, leftOver⟩, authorityRead, read⟩ := ok_of_bind read
  cases read
  have special : SchemeKind.isSpecial (.web number) = true := rfl
  simp only [special, Bool.not_true, Bool.and_false, Bool.false_eq_true, ↓reduceIte]
  exact ⟨authority, _, rfl, canonical_of_readAuthority authorityRead, rfl,
    readSegments_ne_nil true _, fun _ => settled_readSegments⟩

theorem readBehindSlashes_of_parse {text : String} {url : Url} (read : parse text = .ok url)
    (web : url.scheme = "http" ∨ url.scheme = "https") :
    ∃ number chars,
      (url.scheme = "http" ∧ number = 80 ∨ url.scheme = "https" ∧ number = 443) ∧
        readBehindSlashes url.scheme (.web number) chars = .ok url := by
  unfold parse at read
  split at read
  · cases read
  · rename_i scheme rest _
    split at read
    · rw [scheme_of_readFile read] at web
      exact absurd web (by decide)
    · rename_i kind
      rw [scheme_of_readOther read] at web
      rcases web with rfl | rfl <;> cases kind
    · rename_i number kind
      have same := scheme_of_readBehindSlashes read
      subst same
      refine ⟨number, _, ?_, read⟩
      rcases web with same | same
      · rw [same] at kind
        cases kind
        exact .inl ⟨same, rfl⟩
      · rw [same] at kind
        cases kind
        exact .inr ⟨same, rfl⟩

/-- Whatever text a URL of the web was read from, it is canonical. -/
theorem canonical_of_parse {text : String} {url : Url} (read : parse text = .ok url)
    (web : url.scheme = "http" ∨ url.scheme = "https") :
    ∃ number authority segments, url.Canonical number authority segments := by
  obtain ⟨number, chars, scheme, read⟩ := readBehindSlashes_of_parse read web
  obtain ⟨authority, segments, named, canonical, path, present, settled⟩ :=
    readBehindSlashes_eq_ok read
  exact ⟨number, authority, segments, scheme, named, canonical, path, present, settled⟩

/-! ## What is written -/

def front (scheme : String) (authority : Authority) : List Char :=
  scheme.toList ++ "://".toList ++ authority.text.toList

/-- What counts of the text behind a front. -/
def stripEnd (chars : List Char) : List Char :=
  withoutBreaks (chars.rdropWhile isBlank)

/-- The URL of a server that a text behind its front stands for. -/
def behindFront (scheme : String) (number : Nat) (authority : Authority) (chars : List Char) :
    Url :=
  assemble scheme (.web number) (some authority)
    (.absolute (readSegments true (chars.takeWhile (!endsPath ·)))) (chars.dropWhile (!endsPath ·))

variable {url : Url} {number : Nat} {authority : Authority} {segments : List String}

private theorem not_isBlank_of_mem_front (canonical : url.Canonical number authority segments)
    {char : Char} (member : char ∈ front url.scheme authority) : isBlank char = false := by
  simp only [front, List.mem_append] at member
  rcases member with (member | member) | member
  · have checked : url.scheme.toList.all (!isBlank ·) = true := by
      rcases canonical.scheme with ⟨same, _⟩ | ⟨same, _⟩ <;> rw [same] <;> decide
    simpa using List.all_eq_true.mp checked char member
  · have checked : "://".toList.all (!isBlank ·) = true := by decide
    simpa using List.all_eq_true.mp checked char member
  · have inside := isAuthorityChar_of_mem_text canonical.canonical member
    simp only [isAuthorityChar, Bool.and_eq_true, Bool.not_eq_true'] at inside
    exact inside.2

private theorem isBlank_of_isBreak {char : Char} (dropped : isBreak char = true) :
    isBlank char = true := by
  simp only [isBreak, Bool.or_eq_true, beq_iff_eq] at dropped
  rcases dropped with (rfl | rfl) | rfl <;> decide

theorem withoutBreaks_eq_self {chars : List Char}
    (solid : ∀ char ∈ chars, isBlank char = false) : withoutBreaks chars = chars := by
  refine List.filter_eq_self.mpr fun char member => ?_
  rw [Bool.not_eq_true']
  refine Bool.eq_false_iff.mpr fun dropped => ?_
  cases (solid char member).symm.trans (isBlank_of_isBreak dropped)

private theorem strip_front (canonical : url.Canonical number authority segments)
    (rest : List Char) :
    strip (String.ofList (front url.scheme authority ++ '/' :: rest)) =
      front url.scheme authority ++ '/' :: stripEnd rest := by
  have solid : ∀ char ∈ front url.scheme authority, isBlank char = false :=
    fun _ => not_isBlank_of_mem_front canonical
  have leading : (front url.scheme authority ++ '/' :: rest).dropWhile isBlank =
      front url.scheme authority ++ '/' :: rest := by
    cases chars : front url.scheme authority with
    | nil => rfl
    | cons first more =>
        rw [chars] at solid
        exact List.dropWhile_cons_of_neg (by simp [solid first List.mem_cons_self])
  rw [strip, trim, String.toList_ofList, leading]
  change withoutBreaks ((front url.scheme authority ++ '/' :: rest).rdropWhile isBlank) = _
  rw [Text.rdropWhile_append_cons isBlank (by decide)]
  have kept := withoutBreaks_eq_self solid
  rw [withoutBreaks] at kept
  rw [stripEnd, withoutBreaks, withoutBreaks, List.filter_append, kept]
  rfl

private theorem splitScheme?_front (canonical : url.Canonical number authority segments)
    (rest : List Char) :
    splitScheme? (front url.scheme authority ++ rest) =
      some (url.scheme, "//".toList ++ authority.text.toList ++ rest) := by
  have letters : ∀ char ∈ url.scheme.toList, isSchemeChar char = true := by
    rw [← List.all_eq_true]
    rcases canonical.scheme with ⟨same, _⟩ | ⟨same, _⟩ <;> rw [same] <;> decide
  have split (rest : List Char) :
      (url.scheme.toList ++ ':' :: rest).takeWhile isSchemeChar = url.scheme.toList ∧
        (url.scheme.toList ++ ':' :: rest).dropWhile isSchemeChar = ':' :: rest := by
    rw [List.takeWhile_append_of_pos letters, List.dropWhile_append_of_pos letters,
      List.takeWhile_cons_of_neg (by decide), List.dropWhile_cons_of_neg (by decide),
      List.append_nil]
    exact ⟨rfl, rfl⟩
  have text : front url.scheme authority ++ rest =
      url.scheme.toList ++ ':' :: ("//".toList ++ authority.text.toList ++ rest) := by
    simp [front]
  rw [text, splitScheme?, (split _).1, (split _).2]
  rcases canonical.scheme with ⟨same, _⟩ | ⟨same, _⟩ <;> rw [same] <;> rfl

private theorem readBehindSlashes_text (scheme : String)
    (canonical : authority.Canonical (.web number)) (rest : List Char) :
    readBehindSlashes scheme (.web number) (authority.text.toList ++ '/' :: rest) =
      .ok (behindFront scheme number authority rest) := by
  have inside : ∀ char ∈ authority.text.toList, (!endsAuthority true char) = true := by
    intro char member
    have found := isAuthorityChar_of_mem_text canonical member
    simp only [isAuthorityChar, Bool.and_eq_true] at found
    exact found.1
  have special : SchemeKind.isSpecial (.web number) = true := rfl
  have text : (authority.text.toList ++ '/' :: rest).takeWhile (!endsAuthority true ·) =
      authority.text.toList := by
    rw [List.takeWhile_append_of_pos inside, List.takeWhile_cons_of_neg (by decide),
      List.append_nil]
  have behind : (authority.text.toList ++ '/' :: rest).dropWhile (!endsAuthority true ·) =
      '/' :: rest := by
    rw [List.dropWhile_append_of_pos inside, List.dropWhile_cons_of_neg (by decide)]
  rw [readBehindSlashes]
  simp only [special, text, behind, readAuthority_text canonical, bind, Except.bind,
    List.nil_append]
  rfl

/-- Whatever stands behind the authority of a server and a slash leads to that server. -/
theorem parse_front (canonical : url.Canonical number authority segments) (rest : List Char) :
    parse (String.ofList (front url.scheme authority ++ '/' :: rest)) =
      .ok (behindFront url.scheme number authority (stripEnd rest)) := by
  have kind : SchemeKind.ofScheme url.scheme = .web number := by
    rcases canonical.scheme with ⟨same, rfl⟩ | ⟨same, rfl⟩ <;> rw [same] <;> rfl
  have slashes : ("//".toList ++ authority.text.toList ++ '/' :: stripEnd rest).dropWhile
      (isSlash true) = authority.text.toList ++ '/' :: stripEnd rest := by
    cases chars : authority.text.toList with
    | nil => exact absurd chars (authorityText_ne_nil canonical.canonical)
    | cons first more =>
        have inside : isAuthorityChar first = true := by
          refine isAuthorityChar_of_mem_text canonical.canonical ?_
          rw [chars]
          exact List.mem_cons_self
        simp only [isAuthorityChar, endsAuthority, Bool.and_eq_true, Bool.not_eq_true',
          Bool.or_eq_false_iff] at inside
        change (first :: (more ++ '/' :: stripEnd rest)).dropWhile (isSlash true) = _
        rw [List.dropWhile_cons_of_neg (by simp [inside.1.1])]
        rfl
  rw [parse, strip_front canonical, splitScheme?_front canonical]
  dsimp only
  rw [kind]
  dsimp only
  rw [slashes, readBehindSlashes_text url.scheme canonical.canonical]

end DocumentClient.Url
