import DocumentClient.Proofs.Percent
import DocumentClient.Proofs.Url.Address
import DocumentClient.Url.Reader

/-!
# Hosts in writing

Reading yields canonical hosts only, and a canonical host in writing is read back as that host. Its
text ends where a port may follow.
-/

set_option autoImplicit false

namespace DocumentClient.Url

/-- A character that a domain name keeps. -/
def isDomainChar (char : Char) : Bool :=
  !isForbiddenInDomain char && char.toLower == char

/-- A host as reading leaves it. -/
def Host.Canonical : Host → Prop
  | .named name =>
    name ≠ "" ∧ (∀ char ∈ name.toList, isDomainChar char = true) ∧
      endsInNumber name.toList = false
  | .ipv4 _ => True
  | .ipv6 groups => groups.length = 8

/-! ## What is read -/

private theorem ascii_of_not_forbidden {char : Char} (allowed : isForbiddenInDomain char = false) :
    char.toNat < 128 := by
  simp only [isForbiddenInDomain, Bool.or_eq_false_iff, decide_eq_false_iff_not] at allowed
  omega

private theorem isDomainChar_toLower {char : Char} (allowed : isForbiddenInDomain char = false) :
    isDomainChar char.toLower = true := by
  have checked := Text.ascii_all
    (fun char => isForbiddenInDomain char || isDomainChar char.toLower)
    (by decide) (ascii_of_not_forbidden allowed)
  simpa [allowed] using checked

private theorem isDomainChar_of_readDomain {chars name : List Char}
    (read : readDomain chars = .ok name)
    {char : Char} (member : char ∈ name) : isDomainChar char = true := by
  unfold readDomain at read
  split at read
  · cases read
  · rename_i decoded _
    split at read
    · cases read
    · rename_i allowed
      cases read
      obtain ⟨source, found, rfl⟩ := List.mem_map.mp member
      rw [Bool.not_eq_true, List.any_eq_false] at allowed
      exact isDomainChar_toLower (Bool.eq_false_iff.mpr (allowed source found))

private theorem length_of_readIpv6 {chars : List Char} {groups : List UInt16}
    (read : readIpv6 chars = .ok groups) : groups.length = 8 := by
  unfold readIpv6 at read
  dsimp only at read
  split at read
  · rename_i found
    cases read
    split at found
    · rw [Option.filter_eq_some_iff] at found
      exact of_decide_eq_true found.2
    · simp only [Option.bind_eq_bind, Option.bind_eq_some_iff] at found
      obtain ⟨front, _, back, _, found⟩ := found
      split at found
      · cases found
        simp only [List.length_append, List.length_replicate]
        omega
      · cases found
  · cases read

private theorem canonical_of_readBracketed {chars : List Char} {host : Host}
    (read : readBracketed chars = .ok host) : host.Canonical := by
  unfold readBracketed at read
  split at read
  · cases found : readIpv6 chars.tail.dropLast with
    | error fault =>
        rw [found] at read
        cases read
    | ok groups =>
        rw [found] at read
        cases read
        exact length_of_readIpv6 found
  · cases read

theorem canonical_of_readHost {chars : List Char} {host : Host}
    (read : readHost chars = .ok host) : host.Canonical := by
  unfold readHost at read
  split at read
  · exact canonical_of_readBracketed read
  · split at read
    · cases read
    · rename_i name domain
      split at read
      · cases read
      · rename_i present
        split at read
        · cases found : readIpv4 name with
          | error fault =>
              rw [found] at read
              cases read
          | ok address =>
              rw [found] at read
              cases read
              trivial
        · rename_i unnumbered
          cases read
          refine ⟨?_, ?_, ?_⟩
          · intro empty
            rw [← String.toList_eq_nil_iff, String.toList_ofList] at empty
            simp [empty] at present
          · rw [String.toList_ofList]
            exact fun _ => isDomainChar_of_readDomain domain
          · rw [String.toList_ofList]
            exact Bool.eq_false_iff.mpr unnumbered

/-! ## What is written -/

private theorem not_forbidden_of_isDomainChar {char : Char} (inside : isDomainChar char = true) :
    isForbiddenInDomain char = false := by
  simp only [isDomainChar, Bool.and_eq_true, Bool.not_eq_true'] at inside
  exact inside.1

private theorem readDomain_eq_self {name : List Char}
    (inside : ∀ char ∈ name, isDomainChar char = true) : readDomain name = .ok name := by
  have ascii : ∀ char ∈ name, char.toNat < 128 := fun char member =>
    ascii_of_not_forbidden (not_forbidden_of_isDomainChar (inside char member))
  have unescaped : Percent.decode (name.map Char.toUInt8) = name.map Char.toUInt8 := by
    refine Percent.decode_eq_self ?_
    intro text found
    obtain ⟨char, member, rfl⟩ := List.mem_map.mp found
    refine Percent.toUInt8_ne_percent (ascii char member) ?_
    intro same
    subst same
    exact absurd (inside '%' member) (by decide)
  have allowed : name.any isForbiddenInDomain = false := by
    rw [List.any_eq_false]
    intro char member
    simp [not_forbidden_of_isDomainChar (inside char member)]
  have lower : name.map Char.toLower = name := by
    refine Eq.trans (List.map_congr_left fun char member => ?_) (List.map_id _)
    have found := inside char member
    simp only [isDomainChar, Bool.and_eq_true, beq_iff_eq] at found
    exact found.2
  rw [readDomain, Text.flatMap_utf8EncodeChar_ascii ascii, unescaped, Utf8.charsFrom_ascii ascii]
  simp only [allowed, Bool.false_eq_true, ↓reduceIte, lower]

private theorem readHost_named {name : List Char} (present : name ≠ [])
    (inside : ∀ char ∈ name, isDomainChar char = true) :
    readHost name =
      if endsInNumber name then (readIpv4 name).map .ipv4
      else .ok (.named (String.ofList name)) := by
  have unbracketed : name.head? ≠ some '[' := by
    intro bracket
    exact absurd (inside '[' (List.mem_of_mem_head? bracket)) (by decide)
  have filled : name.isEmpty = false := List.isEmpty_eq_false_iff.mpr present
  rw [readHost, if_neg unbracketed, readDomain_eq_self inside]
  simp only [filled, Bool.false_eq_true, ↓reduceIte]

private theorem isDomainChar_of_mem_ipv4Text {address : UInt32} {char : Char}
    (member : char ∈ (ipv4Text address).toList) : isDomainChar char = true := by
  rcases char_of_mem_ipv4Text member with rfl | ⟨digit, small, rfl⟩
  · decide
  · exact (by decide : ∀ digit < 10, isDomainChar (Nat.digitChar digit) = true) digit small

private theorem toList_text_ipv6 (groups : List UInt16) :
    (Host.text (.ipv6 groups)).toList = '[' :: ((ipv6Text groups).toList ++ [']']) := by
  simp [Host.text]

theorem readHost_text {host : Host} (canonical : host.Canonical) :
    readHost host.text.toList = .ok host := by
  cases host with
  | named name =>
      obtain ⟨present, inside, unnumbered⟩ := canonical
      rw [Host.text, readHost_named (by simpa using present) inside, unnumbered]
      simp
  | ipv4 address =>
      have present : (ipv4Text address).toList ≠ [] := by
        simp [toList_ipv4Text, octetDigits]
      rw [Host.text, readHost_named present fun _ => isDomainChar_of_mem_ipv4Text,
        endsInNumber_ipv4Text, readIpv4_ipv4Text]
      rfl
  | ipv6 groups =>
      have last : ('[' :: ((ipv6Text groups).toList ++ [']'])).getLast? = some ']' := by
        rw [← List.cons_append, List.getLast?_concat]
      rw [toList_text_ipv6, readHost, List.head?_cons, if_pos rfl, readBracketed, if_pos last,
        List.tail_cons, List.dropLast_concat, readIpv6_ipv6Text canonical]
      rfl

/-! ## Where a host ends -/

/-- A character that belongs neither to the credentials nor to what follows an authority. -/
def isEndpointChar (char : Char) : Bool :=
  !endsAuthority true char && !isBlank char && char != '@'

private theorem domainChar_spec {char : Char} (inside : isDomainChar char = true) :
    isEndpointChar char = true ∧ char ≠ ':' ∧ char ≠ '[' ∧ char ≠ ']' := by
  have checked := Text.ascii_all
    (fun char => !isDomainChar char ||
      (isEndpointChar char && char != ':' && char != '[' && char != ']'))
    (by decide) (ascii_of_not_forbidden (not_forbidden_of_isDomainChar inside))
  simpa [inside, and_assoc] using checked

private theorem ipv6Char_spec {groups : List UInt16} {char : Char}
    (member : char ∈ (ipv6Text groups).toList) :
    isEndpointChar char = true ∧ char ≠ '[' ∧ char ≠ ']' := by
  rcases char_of_mem_ipv6Text member with rfl | ⟨digit, small, rfl⟩
  · decide
  · exact (by decide : ∀ digit < 16, isEndpointChar (Nat.digitChar digit) = true ∧
      Nat.digitChar digit ≠ '[' ∧ Nat.digitChar digit ≠ ']') digit small

theorem isEndpointChar_of_mem_text {host : Host} (canonical : host.Canonical) {char : Char}
    (member : char ∈ host.text.toList) : isEndpointChar char = true := by
  cases host with
  | named name => exact (domainChar_spec (canonical.2.1 char member)).1
  | ipv4 address => exact (domainChar_spec (isDomainChar_of_mem_ipv4Text member)).1
  | ipv6 groups =>
      simp only [toList_text_ipv6, List.mem_cons, List.mem_append, List.not_mem_nil,
        or_false] at member
      rcases member with rfl | member | rfl
      · decide
      · exact (ipv6Char_spec member).1
      · decide

theorem text_ne_nil {host : Host} (canonical : host.Canonical) : host.text.toList ≠ [] := by
  cases host with
  | named name => simpa [Host.text] using canonical.1
  | ipv4 address => simp [Host.text, toList_ipv4Text, octetDigits]
  | ipv6 groups => simp [toList_text_ipv6]

private theorem splitHost_cons {bracketed : Bool} {char : Char}
    (inside : char ≠ ':' ∨ bracketed = true) (rest : List Char) :
    splitHost bracketed (char :: rest) =
      let parts := splitHost
        (if char = '[' then true else if char = ']' then false else bracketed) rest
      (char :: parts.1, parts.2) := by
  rw [splitHost, if_neg]
  intro found
  obtain ⟨colon, unbracketed⟩ := found
  rcases inside with different | within
  · exact different colon
  · exact unbracketed within

private theorem splitHost_append {bracketed : Bool} {chars : List Char}
    (inside : ∀ char ∈ chars,
      (char ≠ ':' ∨ bracketed = true) ∧ char ≠ '[' ∧ char ≠ ']') (rest : List Char) :
    splitHost bracketed (chars ++ rest) =
      (chars ++ (splitHost bracketed rest).1, (splitHost bracketed rest).2) := by
  induction chars with
  | nil => rfl
  | cons char chars ih =>
      obtain ⟨unsplit, notOpening, notClosing⟩ := inside char List.mem_cons_self
      rw [List.cons_append, splitHost_cons unsplit, if_neg notOpening, if_neg notClosing,
        ih fun other member => inside other (List.mem_cons_of_mem _ member)]
      rfl

private theorem splitHost_of_port {behind : List Char}
    (port : behind = [] ∨ behind.head? = some ':') :
    splitHost false behind = ([], behind) := by
  cases behind with
  | nil => rfl
  | cons char rest =>
      have colon : char = ':' := by simpa using port
      simp [splitHost, colon]

/-- The text of a canonical host ends where a port may follow. -/
theorem splitHost_text {host : Host} (canonical : host.Canonical) {behind : List Char}
    (port : behind = [] ∨ behind.head? = some ':') :
    splitHost false (host.text.toList ++ behind) = (host.text.toList, behind) := by
  have unbracketed {chars : List Char} (inside : ∀ char ∈ chars, isDomainChar char = true) :
      splitHost false (chars ++ behind) = (chars, behind) := by
    rw [splitHost_append fun char member => ?_, splitHost_of_port port, List.append_nil]
    obtain ⟨_, colon, brackets⟩ := domainChar_spec (inside char member)
    exact ⟨.inl colon, brackets⟩
  cases host with
  | named name => exact unbracketed canonical.2.1
  | ipv4 address => exact unbracketed fun _ => isDomainChar_of_mem_ipv4Text
  | ipv6 groups =>
      have inner : splitHost true ((ipv6Text groups).toList ++ ']' :: behind) =
          ((ipv6Text groups).toList ++ [']'], behind) := by
        rw [splitHost_append fun char member => ⟨.inr rfl, (ipv6Char_spec member).2⟩,
          splitHost_cons (.inl (by decide))]
        simp [splitHost_of_port port]
      rw [toList_text_ipv6, List.cons_append, List.append_assoc, List.singleton_append,
        splitHost_cons (.inl (by decide)), if_pos rfl, inner]

end DocumentClient.Url
