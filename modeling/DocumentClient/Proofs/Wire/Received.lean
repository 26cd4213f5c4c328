import DocumentClient.Proofs.Attachment.Headers
import DocumentClient.Proofs.Wire.Delivery

/-!
# Values that are read back

More can be sent in the value of a header than is read from one. What is sent in any text is read back
exactly if the text is printable ASCII, and a value that is not read is passed over as if it had not
come: where a name is repeated, the last value that can be read stands for it.
-/

set_option autoImplicit false

namespace DocumentClient.Wire

/-- A text that is read from a header: printable ASCII and tabs. -/
def Readable (text : String) : Prop :=
  ∀ char ∈ text.toList, char = '\t' ∨ 0x20 ≤ char.toNat ∧ char.toNat ≤ 0x7E

instance (text : String) : Decidable (Readable text) :=
  List.decidableBAll _ text.toList

/-- The last value that is a readable text is this one. -/
def LastReadable (values : List Bytes) (text : String) : Prop :=
  ∃ before after, values = before ++ utf8 text :: after ∧ Readable text ∧
    ∀ later, Readable later → utf8 later ∉ after

/-! ## One value -/

def textOf? (value : Bytes) : Option String :=
  if value.all isTextByte then some (String.ofList (value.map fun byte => Char.ofNat byte.toNat))
  else none

private theorem receivable?_eq (header : String × Bytes) :
    receivable? header = (textOf? header.2).map (header.1, ·) := by
  unfold receivable? textOf?
  split <;> rfl

private theorem isTextByte_iff {byte : UInt8} :
    isTextByte byte = true ↔ byte.toNat = 9 ∨ 0x20 ≤ byte.toNat ∧ byte.toNat ≤ 0x7E := by
  simp [isTextByte, UInt8.le_iff_toNat_le, UInt8.lt_iff_toNat_lt, ← UInt8.toNat_inj,
    Nat.lt_succ_iff]

private theorem readable_iff {text : String} :
    Readable text ↔ ∀ char ∈ text.toList,
      char.toNat = 9 ∨ 0x20 ≤ char.toNat ∧ char.toNat ≤ 0x7E := by
  have tab (char : Char) : char = '\t' ↔ char.toNat = 9 := by
    rw [← Char.toNat_inj]
    rfl
  simp only [Readable, tab]

private theorem ascii_of_readable {text : String} (readable : Readable text) :
    ∀ char ∈ text.toList, char.toNat < 128 := by
  intro char member
  have := readable_iff.mp readable char member
  omega

/-- A text is read from its bytes, and from no others. -/
theorem textOf?_eq_some_iff {value : Bytes} {text : String} :
    textOf? value = some text ↔ Readable text ∧ utf8 text = value := by
  constructor
  · intro read
    unfold textOf? at read
    split at read
    · rename_i textBytes
      obtain rfl := Option.some.inj read
      have small (byte : UInt8) (member : byte ∈ value) : byte.toNat < 128 := by
        have := isTextByte_iff.mp (List.all_eq_true.mp textBytes byte member)
        omega
      have code (byte : UInt8) (member : byte ∈ value) :
          (Char.ofNat byte.toNat).toNat = byte.toNat :=
        (by decide : ∀ code < 128, (Char.ofNat code).toNat = code) _ (small byte member)
      have ascii : ∀ char ∈ value.map (fun byte => Char.ofNat byte.toNat), char.toNat < 128 := by
        refine List.forall_mem_map.mpr fun byte member => ?_
        rw [code byte member]
        exact small byte member
      constructor
      · rw [readable_iff, String.toList_ofList, List.forall_mem_map]
        intro byte member
        rw [code byte member]
        exact isTextByte_iff.mp (List.all_eq_true.mp textBytes byte member)
      · rw [utf8_ofList, Text.flatMap_utf8EncodeChar_ascii ascii, List.map_map]
        refine Eq.trans (List.map_congr_left fun byte member => ?_) (List.map_id _)
        rw [Function.comp_apply, ← UInt8.toNat_inj,
          Text.toNat_toUInt8 (ascii _ (List.mem_map_of_mem member)), code byte member]
        rfl
    · cases read
  · rintro ⟨readable, rfl⟩
    have ascii := ascii_of_readable readable
    have bytes := utf8_of_ascii ascii
    have textBytes : (utf8 text).all isTextByte = true := by
      rw [bytes, List.all_map, List.all_eq_true]
      intro char member
      rw [Function.comp_apply, isTextByte_iff, Text.toNat_toUInt8 (ascii char member)]
      exact readable_iff.mp readable char member
    have chars : (utf8 text).map (fun byte => Char.ofNat byte.toNat) = text.toList := by
      rw [bytes, List.map_map]
      refine Eq.trans (List.map_congr_left fun char member => ?_) (List.map_id _)
      exact Text.ofNat_toUInt8 (ascii char member)
    rw [textOf?, if_pos textBytes, chars, String.ofList_toList]

private theorem textOf?_utf8 (text : String) :
    textOf? (utf8 text) = if Readable text then some text else none := by
  split
  · rename_i readable
    exact textOf?_eq_some_iff.mpr ⟨readable, rfl⟩
  · rename_i unreadable
    refine Option.eq_none_iff_forall_ne_some.mpr fun other read => ?_
    obtain ⟨readable, same⟩ := textOf?_eq_some_iff.mp read
    exact unreadable (utf8_inj.mp same ▸ readable)

/-! ## Some values -/

private theorem lastReadable_iff {values : List Bytes} {text : String} :
    LastReadable values text ↔ (values.filterMap textOf?).getLast? = some text := by
  have unread (value : Bytes) :
      textOf? value = none ↔ ∀ text, Readable text → utf8 text ≠ value := by
    simp only [Option.eq_none_iff_forall_ne_some, ne_eq, textOf?_eq_some_iff, not_and]
  rw [List.getLast?_filterMap, List.findSome?_eq_some_iff]
  constructor
  · rintro ⟨before, after, rfl, readable, last⟩
    refine ⟨after.reverse, utf8 text, before.reverse, by simp,
      textOf?_eq_some_iff.mpr ⟨readable, rfl⟩, fun value member => ?_⟩
    refine (unread value).mpr fun later own same => last later own ?_
    rw [same]
    exact List.mem_reverse.mp member
  · rintro ⟨after, value, before, cut, read, last⟩
    obtain ⟨readable, rfl⟩ := textOf?_eq_some_iff.mp read
    refine ⟨before.reverse, after.reverse, ?_, readable, fun later own member => ?_⟩
    · simpa using congrArg List.reverse cut
    · exact (unread _).mp (last _ (List.mem_reverse.mp member)) later own rfl

private theorem lookup_reverse_eq (pairs : List (String × String)) (name : String) :
    pairs.reverse.lookup name = ((pairs.filter (·.1 == name)).map (·.2)).getLast? := by
  induction pairs with
  | nil => rfl
  | cons pair pairs ih =>
      rw [List.reverse_cons, List.lookup_append, ih, TextMap.lookup_entry, List.lookup_nil]
      by_cases same : name = pair.1
      · rw [if_pos same, Option.or_some, List.filter_cons_of_pos (by simp [same]), List.map_cons,
          List.getLast?_cons]
      · rw [if_neg same, Option.or_none, List.filter_cons_of_neg (by simp [Ne.symm same])]

private theorem get?_received (headers : Headers) (name : String) :
    (received headers).get? name = ((valuesOf name headers).filterMap textOf?).getLast? := by
  have values : ((headers.filterMap receivable?).filter (·.1 == name)).map (·.2) =
      (valuesOf name headers).filterMap textOf? := by
    induction headers with
    | nil => rfl
    | cons header headers ih =>
        rw [valuesOf] at ih ⊢
        rw [List.filterMap_cons, receivable?_eq]
        cases read : textOf? header.2 <;> by_cases named : header.1 = name <;>
          simp [read, named, ih]
  rw [received, TextMap.ofList, TextMap.get?_insertAll, lookup_reverse_eq, values]
  exact Option.or_none

/-! ## What is sent -/

private theorem entries_ofList_of_nodup {pairs : List (String × String)}
    (distinct : (pairs.map (·.1)).Nodup) : (TextMap.ofList pairs).entries = pairs :=
  congrArg TextMap.entries (TextMap.insertAll_entries ⟨pairs, distinct⟩)

private theorem filterMap_receivable? (entries : List (String × String)) :
    (entries.map fun header => (Text.lowerCase header.1, utf8 header.2)).filterMap receivable? =
      (entries.filter (Readable ·.2)).map fun header => (Text.lowerCase header.1, header.2) := by
  induction entries with
  | nil => rfl
  | cons header entries ih =>
      rw [List.map_cons, List.filterMap_cons, receivable?_eq, textOf?_utf8, ih]
      by_cases readable : Readable header.2 <;> simp [readable]

/-- The headers of a request are read back in lower case, but for those with a value that is no
printable ASCII. Whatever headers come, in whatever order their names are gone through, each name has
the last of its values that can be read, which is the last value of all exactly if that can be read. -/
theorem readable_values_come_back (request : Http.Request) (arrived : Headers) :
    (∀ message, Message.ofRequest request = .ok message →
      (request.headers.keys.map Text.lowerCase).Nodup →
        let lowered (header : String × String) := (Text.lowerCase header.1, header.2)
        (received message.headers).entries =
            (request.headers.entries.filter (Readable ·.2)).map lowered ∧
          ((received message.headers).entries = request.headers.entries.map lowered ↔
            ∀ header ∈ request.headers.entries, Readable header.2)) ∧
    ∀ listed : Headers, (∀ name, valuesOf name listed = valuesOf name arrived) → ∀ name,
      (∀ text, (received listed).get? name = some text ↔
        LastReadable (valuesOf name arrived) text) ∧
      ∀ value, (valuesOf name arrived).getLast? = some value →
        (((received listed).get? name).map utf8 = some value ↔
          ∃ text, Readable text ∧ utf8 text = value) := by
  constructor
  · intro message made apart lowered
    obtain ⟨_, _, checked, _⟩ := Message.ofRequest_eq_ok made
    obtain ⟨sent, _⟩ := sendableAll_eq_ok checked
    have distinct : (((request.headers.entries.filter (Readable ·.2)).map lowered).map
        (·.1)).Nodup := by
      rw [TextMap.keys, List.map_map] at apart
      rw [List.map_map]
      exact apart.sublist (List.filter_sublist.map _)
    have entries : (received message.headers).entries =
        (request.headers.entries.filter (Readable ·.2)).map lowered := by
      rw [received, sent, filterMap_receivable?, entries_ofList_of_nodup distinct]
    refine ⟨entries, ?_⟩
    rw [entries]
    constructor
    · intro whole
      have lengths := congrArg List.length whole
      rw [List.length_map, List.length_map, List.length_filter_eq_length_iff] at lengths
      simpa using lengths
    · intro readable
      rw [List.filter_eq_self.mpr (by simpa using readable)]
  · intro listed same name
    have last (text : String) : (received listed).get? name = some text ↔
        LastReadable (valuesOf name arrived) text := by
      rw [get?_received, same, lastReadable_iff]
    refine ⟨last, fun value final => ?_⟩
    obtain ⟨before, cut⟩ := List.getLast?_eq_some_iff.mp final
    constructor
    · intro kept
      obtain ⟨text, found, bytes⟩ := Option.map_eq_some_iff.mp kept
      obtain ⟨_, _, _, readable, _⟩ := (last text).mp found
      exact ⟨text, readable, bytes⟩
    · rintro ⟨text, readable, rfl⟩
      have found := (last text).mpr ⟨before, [], cut, readable, by simp⟩
      rw [found, Option.map_some]

/-- An umlaut hides its header when it is sent, and uncovers the value before it when it comes. -/
theorem value_before_umlaut_comes_back :
    let request : Http.Request :=
      { method := .put
        url := Settings.localhost.host
        headers := .ofList [("Owner", "Köln"), ("X-Note", "a\tb ~")] }
    let arrived : Headers :=
      [("owner", utf8 "ayende"), ("x-note", [255]), ("owner", utf8 "oren"), ("owner", utf8 "Köln")]
    (∃ message, Message.ofRequest request = .ok message ∧
      (received message.headers).entries = [("x-note", "a\tb ~")]) ∧
    (received arrived).get? "owner" = some "oren" := by
  intro request arrived
  obtain ⟨sent, came⟩ := readable_values_come_back request arrived
  have sendable : (Message.ofRequest request).toOption.isSome := by decide +kernel
  constructor
  · cases made : Message.ofRequest request with
    | error fault => simp [made, Except.toOption] at sendable
    | ok message =>
        obtain ⟨entries, _⟩ := sent message made (by decide)
        exact ⟨message, rfl, entries.trans (by decide)⟩
  · refine ((came arrived (fun _ => rfl) "owner").1 "oren").mpr ?_
    refine ⟨[utf8 "ayende"], [utf8 "Köln"], rfl, by decide, fun later readable member => ?_⟩
    rw [List.mem_singleton, utf8_inj] at member
    subst member
    exact absurd readable (by decide)

/-- A text that is not in ASCII is sent and not read back, and where it is the last value of a name
an earlier one is taken for it. -/
theorem text_beyond_ascii_is_lost :
    (¬ ∀ request message, Message.ofRequest request = .ok message →
      (request.headers.keys.map Text.lowerCase).Nodup →
        (received message.headers).entries =
          request.headers.entries.map fun header => (Text.lowerCase header.1, header.2)) ∧
    ¬ ∀ (arrived : Headers) (name : String) (value : Bytes),
      (valuesOf name arrived).getLast? = some value →
        ((received arrived).get? name).map utf8 = some value := by
  constructor
  · intro claim
    let request : Http.Request :=
      { method := .put, url := Settings.localhost.host, headers := .ofList [("Owner", "Köln")] }
    have lost : (Message.ofRequest request).toOption.map
        (fun message => (received message.headers).entries) = some [] := by
      decide +kernel
    cases made : Message.ofRequest request with
    | error fault => simp [made, Except.toOption] at lost
    | ok message =>
        have whole := claim request message made (by decide)
        rw [made] at lost
        have nothing : (received message.headers).entries = [] := Option.some.inj lost
        exact absurd (nothing.symm.trans whole) (by decide)
  · intro claim
    have kept := claim [("owner", utf8 "ayende"), ("owner", utf8 "Köln")] "owner" (utf8 "Köln") rfl
    have earlier : (received [("owner", utf8 "ayende"), ("owner", utf8 "Köln")]).get? "owner" =
        some "ayende" := by
      decide +kernel
    rw [earlier] at kept
    exact absurd (utf8_inj.mp (Option.some.inj kept)) (by decide)

end DocumentClient.Wire
