import DocumentClient.Proofs.Text.Ascii
import DocumentClient.Proofs.Text.Cutting
import DocumentClient.Url.Host

/-!
# Addresses in writing

Digits are read back as their number, the four octets of an IPv4 address as that address, and eight
groups of an IPv6 address as those groups, wherever a run of zeros was left out.
-/

set_option autoImplicit false

namespace DocumentClient.Url

/-! ## Digits -/

private theorem digitValue?_digitChar {base digit : Nat} (narrow : base ≤ 16)
    (small : digit < base) :
    digitValue? base digit.digitChar = some digit :=
  (by decide :
    ∀ base ≤ 16, ∀ digit < base, digitValue? base (Nat.digitChar digit) = some digit)
    base narrow digit small

private theorem readNumber?_concat {base value digit : Nat} {digits : List Char} {char : Char}
    (leading : readNumber? base digits = some value)
    (last : digitValue? base char = some digit) :
    readNumber? base (digits ++ [char]) = some (value * base + digit) := by
  simp only [readNumber?, Option.map_eq_some_iff] at leading ⊢
  obtain ⟨values, read, folded⟩ := leading
  refine ⟨values ++ [digit], ?_, by simp [folded]⟩
  simp [List.mapM_append, read, last]

theorem readNumber?_toDigits {base : Nat} (positional : 1 < base) (narrow : base ≤ 16) (n : Nat) :
    readNumber? base (Nat.toDigits base n) = some n := by
  induction n using Nat.strongRecOn with
  | ind n ih =>
      by_cases single : n < base
      · rw [Nat.toDigits_of_lt_base single]
        simp [readNumber?, digitValue?_digitChar narrow single]
      · have wide : base ≤ n := Nat.le_of_not_lt single
        have smaller : n / base < n := Nat.div_lt_self (by omega) positional
        rw [Nat.toDigits_of_base_le positional wide,
          readNumber?_concat (ih (n / base) smaller)
            (digitValue?_digitChar narrow (Nat.mod_lt n (by omega))),
          Nat.div_add_mod']

theorem mem_toDigits {base : Nat} (positional : 1 < base) {n : Nat} {char : Char}
    (member : char ∈ Nat.toDigits base n) : ∃ digit < base, char = digit.digitChar := by
  induction n using Nat.strongRecOn with
  | ind n ih =>
      by_cases single : n < base
      · rw [Nat.toDigits_of_lt_base single, List.mem_singleton] at member
        exact ⟨n, single, member⟩
      · have wide : base ≤ n := Nat.le_of_not_lt single
        rw [Nat.toDigits_of_base_le positional wide, List.mem_append, List.mem_singleton] at member
        rcases member with member | rfl
        · exact ih (n / base) (Nat.div_lt_self (by omega) positional) member
        · exact ⟨n % base, Nat.mod_lt n (by omega), rfl⟩

private theorem toDigits_head_ne_zero {n : Nat} (positive : 0 < n) :
    (Nat.toDigits 10 n).head? ≠ some '0' := by
  induction n using Nat.strongRecOn with
  | ind n ih =>
      by_cases single : n < 10
      · rw [Nat.toDigits_of_lt_base single]
        exact (by decide :
          ∀ digit < 10, 0 < digit → [Nat.digitChar digit].head? ≠ some '0') n single positive
      · rw [Nat.toDigits_of_base_le (by decide) (by omega), List.head?_append_of_ne_nil _ (by simp)]
        exact ih (n / 10) (by omega) (by omega)

/-! ## IPv4 -/

private theorem ipv4Part?_toDigits (n : Nat) : ipv4Part? (Nat.toDigits 10 n) = some n := by
  have read := readNumber?_toDigits (by decide : 1 < 10) (by decide) n
  rcases Nat.eq_zero_or_pos n with rfl | positive
  · exact read
  · have leading := toDigits_head_ne_zero positive
    cases digits : Nat.toDigits 10 n with
    | nil => exact absurd digits Nat.toDigits_ne_nil
    | cons first rest =>
        rw [digits] at read leading
        have different : first ≠ '0' := by
          intro same
          subst same
          exact leading rfl
        unfold ipv4Part?
        split <;> simp_all

def octetDigits (address : UInt32) : List (List Char) :=
  [3, 2, 1, 0].map fun place => Nat.toDigits 10 (address.toNat / Nat.pow 256 place % 256)

theorem toList_ipv4Text (address : UInt32) :
    (ipv4Text address).toList = List.intercalate ['.'] (octetDigits address) := by
  simp [ipv4Text, octetDigits]

private theorem isDigit_of_mem_octetDigits {address : UInt32} {digits : List Char} {char : Char}
    (found : digits ∈ octetDigits address) (member : char ∈ digits) : char.isDigit = true := by
  obtain ⟨place, _, rfl⟩ := List.mem_map.mp found
  exact Nat.isDigit_of_mem_toDigits (by decide) (by decide) member

theorem char_of_mem_ipv4Text {address : UInt32} {char : Char}
    (member : char ∈ (ipv4Text address).toList) :
    char = '.' ∨ ∃ digit < 10, char = digit.digitChar := by
  rw [toList_ipv4Text] at member
  rcases Text.mem_of_mem_intercalate member with dot | ⟨digits, found, inside⟩
  · exact .inl (List.mem_singleton.mp dot)
  · obtain ⟨place, _, rfl⟩ := List.mem_map.mp found
    exact .inr (mem_toDigits (by decide) inside)

private theorem labels_ipv4Text (address : UInt32) :
    labels (ipv4Text address).toList = octetDigits address := by
  have apart : ∀ digits ∈ octetDigits address, '.' ∉ digits := by
    intro digits found member
    exact absurd (isDigit_of_mem_octetDigits found member) (by decide)
  have last : (octetDigits address).getLast? ≠ some [] := by
    simp [octetDigits]
  rw [toList_ipv4Text, labels, Text.pieces_intercalate apart (by simp [octetDigits])]
  simp [last]

theorem endsInNumber_ipv4Text (address : UInt32) :
    endsInNumber (ipv4Text address).toList = true := by
  have last : (octetDigits address).getLast? =
      some (Nat.toDigits 10 (address.toNat / Nat.pow 256 0 % 256)) := rfl
  have digits : (Nat.toDigits 10 (address.toNat / Nat.pow 256 0 % 256)).all Char.isDigit = true :=
    List.all_eq_true.mpr fun _ member =>
      Nat.isDigit_of_mem_toDigits (by decide) (by decide) member
  rw [endsInNumber, labels_ipv4Text, last]
  split <;> simp_all

theorem readIpv4_ipv4Text (address : UInt32) :
    readIpv4 (ipv4Text address).toList = .ok address := by
  have bound := address.toNat_lt
  have parts : (octetDigits address).mapM ipv4Part? =
      some ([3, 2, 1, 0].map fun place => address.toNat / Nat.pow 256 place % 256) := by
    simp [octetDigits, ipv4Part?_toDigits]
  rw [readIpv4, labels_ipv4Text, parts]
  simp only [List.map_cons, List.map_nil, List.getLast?_cons_cons, List.getLast?_singleton,
    List.dropLast_cons_cons, List.dropLast_singleton, List.length_cons, List.length_nil,
    List.any_cons, List.any_nil, List.foldl_cons, List.foldl_nil]
  rw [if_neg (by simp; omega)]
  congr 1
  apply UInt32.toNat_inj.mp
  simp
  omega

/-! ## IPv6 -/

private theorem toList_groupText (group : UInt16) :
    (groupText group).toList = Nat.toDigits 16 group.toNat := by
  simp [groupText]

/-- Some groups in writing, with a colon between neighbours. -/
def groupDigits (groups : List UInt16) : List Char :=
  List.intercalate [':'] (groups.map fun group => Nat.toDigits 16 group.toNat)

private theorem toList_join_groupText (groups : List UInt16) :
    (Text.join ":" (groups.map groupText)).toList = groupDigits groups := by
  simp [groupDigits, Function.comp_def, toList_groupText]

private theorem digit_of_mem_toDigits {n : Nat} {char : Char} (member : char ∈ Nat.toDigits 16 n) :
    char ≠ ':' ∧ char ≠ '.' := by
  obtain ⟨digit, small, rfl⟩ := mem_toDigits (by decide) member
  exact (by decide : ∀ digit < 16, Nat.digitChar digit ≠ ':' ∧ Nat.digitChar digit ≠ '.')
    digit small

private theorem groupDigits_cons_cons (group next : UInt16) (groups : List UInt16) :
    groupDigits (group :: next :: groups) =
      Nat.toDigits 16 group.toNat ++ ':' :: groupDigits (next :: groups) := by
  simp [groupDigits]

private theorem groupDigits_eq_cons (group : UInt16) (groups : List UInt16) :
    ∃ char digits, groupDigits (group :: groups) = char :: digits ∧ char ≠ ':' := by
  obtain ⟨char, digits, found⟩ := List.exists_cons_of_ne_nil
    (Nat.toDigits_ne_nil (n := group.toNat) (b := 16))
  have different : char ≠ ':' := by
    refine (digit_of_mem_toDigits (n := group.toNat) ?_).1
    rw [found]
    exact List.mem_cons_self
  cases groups with
  | nil => exact ⟨char, digits, by simpa [groupDigits] using found, different⟩
  | cons next groups =>
      refine ⟨char, digits ++ ':' :: groupDigits (next :: groups), ?_, different⟩
      rw [groupDigits_cons_cons, found, List.cons_append]

private theorem ipv6Group?_toDigits (group : UInt16) :
    ipv6Group? (Nat.toDigits 16 group.toNat) = some group := by
  have bound := group.toNat_lt
  have short : (Nat.toDigits 16 group.toNat).length ≤ 4 :=
    (Nat.length_toDigits_le_iff (by decide) (by decide)).mpr (by omega)
  have condition : ¬ ((Nat.toDigits 16 group.toNat).isEmpty = true ∨
      4 < (Nat.toDigits 16 group.toNat).length) := by
    rw [List.isEmpty_iff, not_or]
    exact ⟨Nat.toDigits_ne_nil, Nat.not_lt.mpr short⟩
  rw [ipv6Group?, if_neg condition, readNumber?_toDigits (by decide) (by decide)]
  simp

private theorem mapM_ipv6Group? (groups : List UInt16) :
    (groups.map fun group => Nat.toDigits 16 group.toNat).mapM ipv6Group? = some groups := by
  induction groups with
  | nil => rfl
  | cons group groups ih => simp [ipv6Group?_toDigits, ih]

/-- Groups between colons are read back, whether or not a dotted end would be allowed. -/
theorem ipv6Groups?_groupDigits (dotted : Bool) (groups : List UInt16) :
    ipv6Groups? dotted (groupDigits groups) = some groups := by
  cases groups with
  | nil => rfl
  | cons group groups =>
      obtain ⟨char, digits, found, _⟩ := groupDigits_eq_cons group groups
      have present : (groupDigits (group :: groups)).isEmpty = false := by
        rw [found]
        rfl
      have parts : Text.pieces ':' (groupDigits (group :: groups)) =
          (group :: groups).map fun group => Nat.toDigits 16 group.toNat := by
        refine Text.pieces_intercalate ?_ (by simp)
        intro text found member
        obtain ⟨other, _, rfl⟩ := List.mem_map.mp found
        exact (digit_of_mem_toDigits member).1 rfl
      rw [ipv6Groups?, present, parts]
      simp only [Bool.false_eq_true, ↓reduceIte]
      cases last : ((group :: groups).map fun group => Nat.toDigits 16 group.toNat).getLast? with
      | none => simp at last
      | some text =>
          have undotted : text.contains '.' = false := by
            obtain ⟨other, _, rfl⟩ := List.mem_map.mp (List.mem_of_getLast? last)
            rw [List.contains_eq_mem, decide_eq_false_iff_not]
            exact fun member => (digit_of_mem_toDigits member).2 rfl
          simp only [undotted, Bool.and_false, Bool.false_eq_true, ↓reduceIte]
          exact mapM_ipv6Group? (group :: groups)

private theorem splitAtGap?_cons_of_ne {char : Char} (different : char ≠ ':') (rest : List Char) :
    splitAtGap? (char :: rest) =
      (splitAtGap? rest).map fun parts => (char :: parts.1, parts.2) := by
  rw [splitAtGap?]
  intro _ same
  exact absurd same different

private theorem splitAtGap?_append {digits : List Char} (apart : ':' ∉ digits) (rest : List Char) :
    splitAtGap? (digits ++ rest) =
      (splitAtGap? rest).map fun parts => (digits ++ parts.1, parts.2) := by
  induction digits with
  | nil => simp
  | cons char digits ih =>
      simp only [List.mem_cons, not_or] at apart
      rw [List.cons_append, splitAtGap?_cons_of_ne (Ne.symm apart.1), ih apart.2]
      simp [Function.comp_def]

private theorem splitAtGap?_groupDigits (groups : List UInt16) (rest : List Char) :
    splitAtGap? (groupDigits groups ++ rest) =
      (splitAtGap? rest).map fun parts => (groupDigits groups ++ parts.1, parts.2) := by
  induction groups with
  | nil => simp [groupDigits]
  | cons group groups ih =>
      have apart : ':' ∉ Nat.toDigits 16 group.toNat := fun member =>
        (digit_of_mem_toDigits member).1 rfl
      cases groups with
      | nil => simpa [groupDigits] using splitAtGap?_append apart rest
      | cons next groups =>
          obtain ⟨char, digits, found, different⟩ := groupDigits_eq_cons next groups
          have single : splitAtGap? (':' :: (groupDigits (next :: groups) ++ rest)) =
              (splitAtGap? (groupDigits (next :: groups) ++ rest)).map
                fun parts => (':' :: parts.1, parts.2) := by
            rw [found, List.cons_append, splitAtGap?]
            intro _ _ same
            cases same
            exact absurd rfl different
          rw [groupDigits_cons_cons, List.append_assoc, splitAtGap?_append apart, List.cons_append,
            single, ih]
          simp [Function.comp_def]

private theorem zeroRun_zeros (groups : List UInt16) :
    (groups.drop (zeroRun groups).1).take (zeroRun groups).2 =
        List.replicate (zeroRun groups).2 0 ∧
      (zeroRun groups).1 + (zeroRun groups).2 ≤ groups.length := by
  unfold zeroRun
  refine List.foldlRecOn (List.range groups.length) _
    (motive := fun run : Nat × Nat =>
      (groups.drop run.1).take run.2 = List.replicate run.2 0 ∧ run.1 + run.2 ≤ groups.length)
    (by simp) ?_
  intro best found start member
  have run := List.takeWhile_prefix (· == (0 : UInt16)) (l := groups.drop start)
  have zeros : (groups.drop start).takeWhile (· == 0) =
      List.replicate ((groups.drop start).takeWhile (· == 0)).length 0 :=
    List.eq_replicate_of_mem fun group inside => by
      simpa using List.mem_takeWhile_imp inside
  dsimp only
  split
  · refine ⟨?_, ?_⟩
    · rw [← List.prefix_iff_eq_take.mp run]
      exact zeros
    · have short := run.length_le
      have inside := List.mem_range.mp member
      rw [List.length_drop] at short
      omega
  · exact found

private theorem toList_ipv6Text (groups : List UInt16) :
    (ipv6Text groups).toList =
      if (zeroRun groups).2 < 2 then groupDigits groups
      else groupDigits (groups.take (zeroRun groups).1) ++
        ':' :: ':' :: groupDigits (groups.drop ((zeroRun groups).1 + (zeroRun groups).2)) := by
  unfold ipv6Text
  dsimp only
  split
  · exact toList_join_groupText groups
  · rw [String.toList_append, String.toList_append, toList_join_groupText, toList_join_groupText,
      List.append_assoc]
    rfl

private theorem char_of_mem_groupDigits {groups : List UInt16} {char : Char}
    (member : char ∈ groupDigits groups) : char = ':' ∨ ∃ digit < 16, char = digit.digitChar := by
  rcases Text.mem_of_mem_intercalate member with colon | ⟨digits, found, inside⟩
  · exact .inl (List.mem_singleton.mp colon)
  · obtain ⟨group, _, rfl⟩ := List.mem_map.mp found
    exact .inr (mem_toDigits (by decide) inside)

theorem char_of_mem_ipv6Text {groups : List UInt16} {char : Char}
    (member : char ∈ (ipv6Text groups).toList) :
    char = ':' ∨ ∃ digit < 16, char = digit.digitChar := by
  rw [toList_ipv6Text] at member
  split at member
  · exact char_of_mem_groupDigits member
  · simp only [List.mem_append, List.mem_cons] at member
    rcases member with member | rfl | rfl | member
    · exact char_of_mem_groupDigits member
    · exact .inl rfl
    · exact .inl rfl
    · exact char_of_mem_groupDigits member

theorem readIpv6_ipv6Text {groups : List UInt16} (eight : groups.length = 8) :
    readIpv6 (ipv6Text groups).toList = .ok groups := by
  obtain ⟨zeros, bound⟩ := zeroRun_zeros groups
  rw [toList_ipv6Text]
  split
  · have whole := splitAtGap?_groupDigits groups []
    rw [List.append_nil] at whole
    simp [readIpv6, whole, splitAtGap?, ipv6Groups?_groupDigits, Option.filter, eight]
  · rename_i wide
    have gap : splitAtGap? (groupDigits (groups.take (zeroRun groups).1) ++
        ':' :: ':' :: groupDigits (groups.drop ((zeroRun groups).1 + (zeroRun groups).2))) =
        some (groupDigits (groups.take (zeroRun groups).1),
          groupDigits (groups.drop ((zeroRun groups).1 + (zeroRun groups).2))) := by
      rw [splitAtGap?_groupDigits, splitAtGap?]
      simp
    have filled : groups.take (zeroRun groups).1 ++
        List.replicate (8 - (groups.take (zeroRun groups).1).length -
          (groups.drop ((zeroRun groups).1 + (zeroRun groups).2)).length) 0 ++
        groups.drop ((zeroRun groups).1 + (zeroRun groups).2) = groups := by
      have length : 8 - (groups.take (zeroRun groups).1).length -
          (groups.drop ((zeroRun groups).1 + (zeroRun groups).2)).length = (zeroRun groups).2 := by
        rw [List.length_take, List.length_drop]
        omega
      rw [length, ← zeros, List.append_assoc, ← List.drop_drop, List.take_append_drop,
        List.take_append_drop]
    have fits : (groups.take (zeroRun groups).1).length +
        (groups.drop ((zeroRun groups).1 + (zeroRun groups).2)).length ≤ 7 := by
      rw [List.length_take, List.length_drop]
      omega
    rw [readIpv6, gap]
    simp only [ipv6Groups?_groupDigits, Option.bind_eq_bind, Option.bind_some, if_pos fits, filled]

end DocumentClient.Url
