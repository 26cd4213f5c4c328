import DocumentClient.Proofs.Url.Reading

/-!
# Queries and fragments

What follows the path of a URL in writing: a query behind a question mark and a fragment behind a
hash. Settled segments and any such tail behind the front of a server are read as the path, the query
and the fragment of a URL of that server.
-/

set_option autoImplicit false

namespace DocumentClient.Url

/-! ## What is read -/

/-- A query and a fragment as reading leaves them. -/
structure SettledTail (url : Url) : Prop where
  query : ∀ text ∈ url.query, ∀ char ∈ text.toList, Percent.Kept (inQuery true) char
  fragment : ∀ text ∈ url.fragment, ∀ char ∈ text.toList, Percent.Kept inFragment char

private theorem query_of_readTail {special : Bool} {chars : List Char} {text : String}
    (found : text ∈ (readTail special chars).1) :
    ∃ raw, text = escape (inQuery special) raw := by
  unfold readTail at found
  dsimp only at found
  split at found
  · cases found
    exact ⟨_, rfl⟩
  · cases found

private theorem fragment_of_readTail (special : Bool) {chars : List Char} {text : String}
    (found : text ∈ (readTail special chars).2) : ∃ raw, text = escape inFragment raw := by
  unfold readTail at found
  dsimp only at found
  split at found
  · cases found
  · cases found
    exact ⟨_, rfl⟩

private theorem settledTail_of_readBehindSlashes {scheme : String} {number : Nat}
    {chars : List Char}
    {url : Url} (read : readBehindSlashes scheme (.web number) chars = .ok url) :
    url.SettledTail := by
  unfold readBehindSlashes at read
  dsimp only at read
  obtain ⟨_, _, read⟩ := ok_of_bind read
  cases read
  constructor
  · intro text found char member
    obtain ⟨raw, rfl⟩ := query_of_readTail found
    rw [escape, String.toList_ofList] at member
    exact Percent.kept_of_mem_encodeChars (by decide) member
  · intro text found char member
    obtain ⟨raw, rfl⟩ := fragment_of_readTail true found
    rw [escape, String.toList_ofList] at member
    exact Percent.kept_of_mem_encodeChars (by decide) member

theorem settledTail_of_parse {text : String} {url : Url} (read : parse text = .ok url)
    (web : url.scheme = "http" ∨ url.scheme = "https") : url.SettledTail := by
  obtain ⟨number, chars, _, read⟩ := readBehindSlashes_of_parse read web
  exact settledTail_of_readBehindSlashes read

theorem not_isBlank_of_kept {escaped : Percent.EscapeSet}
    (blanks : (List.range 128).all (fun code =>
      escaped (Char.ofNat code) || !isBlank (Char.ofNat code)) = true)
    {char : Char} (kept : Percent.Kept escaped char) : isBlank char = false := by
  have checked := Text.ascii_all (fun char => escaped char || !isBlank char) blanks kept.1
  simpa [kept.2] using checked

theorem hash_not_mem_of_kept {chars : List Char}
    (kept : ∀ char ∈ chars, Percent.Kept (inQuery true) char) : '#' ∉ chars := by
  intro member
  exact absurd (kept '#' member).2 (by decide)

/-! ## What is written -/

def tailOf (query fragment : Option (List Char)) : List Char :=
  (query.map ('?' :: ·)).getD [] ++ (fragment.map ('#' :: ·)).getD []

variable {query fragment : Option (List Char)}

theorem mem_tailOf {char : Char} (member : char ∈ tailOf query fragment) :
    char = '?' ∨ char = '#' ∨ (∃ chars ∈ query, char ∈ chars) ∨ ∃ chars ∈ fragment, char ∈ chars := by
  rcases List.mem_append.mp member with member | member
  · cases query with
    | none => cases member
    | some chars =>
        rcases List.mem_cons.mp member with same | inside
        · exact .inl same
        · exact .inr (.inr (.inl ⟨chars, rfl, inside⟩))
  · cases fragment with
    | none => cases member
    | some chars =>
        rcases List.mem_cons.mp member with same | inside
        · exact .inr (.inl same)
        · exact .inr (.inr (.inr ⟨chars, rfl, inside⟩))

private theorem readTail_tailOf (special : Bool) (noHash : ∀ chars ∈ query, '#' ∉ chars) :
    readTail special (tailOf query fragment) =
      (query.map (escape (inQuery special)), fragment.map (escape inFragment)) := by
  have before : ∀ char ∈ (query.map ('?' :: ·)).getD [], (char != '#') = true := by
    intro char member
    rw [bne_iff_ne]
    intro same
    subst same
    cases query with
    | none => cases member
    | some chars =>
        rcases List.mem_cons.mp member with same | inside
        · exact absurd same (by decide)
        · exact noHash chars rfl inside
  have behind : ((fragment.map ('#' :: ·)).getD []).takeWhile (· != '#') = [] ∧
      ((fragment.map ('#' :: ·)).getD []).dropWhile (· != '#') =
        (fragment.map ('#' :: ·)).getD [] := by
    cases fragment <;> exact ⟨rfl, rfl⟩
  rw [readTail, tailOf, List.takeWhile_append_of_pos before, List.dropWhile_append_of_pos before,
    behind.1, behind.2, List.append_nil]
  cases query <;> cases fragment <;> rfl

private theorem endsPath_tailOf : (tailOf query fragment).takeWhile (!endsPath ·) = [] ∧
    (tailOf query fragment).dropWhile (!endsPath ·) = tailOf query fragment := by
  cases query <;> cases fragment <;> exact ⟨rfl, rfl⟩

private theorem stripEnd_eq_self {chars : List Char}
    (solid : ∀ char ∈ chars, isBlank char = false) :
    stripEnd chars = chars := by
  have kept : chars.rdropWhile isBlank = chars := by
    rw [List.rdropWhile_eq_self_iff]
    intro present
    simp [solid _ (List.getLast_mem present)]
  rw [stripEnd, kept, withoutBreaks_eq_self solid]

/-- Settled segments and a tail are read as what they are, whichever server they belong to. -/
theorem parse_behindSlashes {url : Url} {number : Nat} {authority : Authority}
    {segments all : List String} (canonical : url.Canonical number authority segments)
    (settled : ∀ segment ∈ all, Settled segment) (present : all ≠ [])
    (solid : ∀ char ∈ tailOf query fragment, isBlank char = false)
    (noHash : ∀ chars ∈ query, '#' ∉ chars) {text : String}
    (written : text.toList =
      front url.scheme authority ++ behindSlashes all ++ tailOf query fragment) :
    parse text = .ok ⟨url.scheme, some authority, .absolute all,
      query.map (escape (inQuery true)), fragment.map (escape inFragment)⟩ := by
  have inner : ∀ char ∈ List.intercalate ['/'] (all.map String.toList),
      isBlank char = false ∧ (!endsPath char) = true := by
    intro char member
    rcases slash_or_segmentChar settled member with rfl | inside
    · decide
    · simp [not_isBlank_of_isSegmentChar inside, not_endsPath_of_isSegmentChar inside]
  have whole : ∀ char ∈
      List.intercalate ['/'] (all.map String.toList) ++ tailOf query fragment,
      isBlank char = false := by
    intro char member
    rcases List.mem_append.mp member with member | member
    · exact (inner char member).1
    · exact solid char member
  have continues := fun char member => (inner char member).2
  have special : SchemeKind.isSpecial (.web number) = true := rfl
  rw [behindSlashes_eq_cons present, List.append_assoc, List.cons_append] at written
  rw [← String.ofList_toList (s := text), written, parse_front canonical, stripEnd_eq_self whole,
    behindFront, List.takeWhile_append_of_pos continues, List.dropWhile_append_of_pos continues,
    endsPath_tailOf.1, endsPath_tailOf.2, List.append_nil,
    readSegments_intercalate settled present, assemble, special, readTail_tailOf true noHash]

end DocumentClient.Url
