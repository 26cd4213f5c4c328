import DocumentClient.Proofs.Body
import DocumentClient.Proofs.Json.Elements
import DocumentClient.Proofs.Text.Cutting

/-!
# Listings element by element

A listing is decoded as a list of records. Main statement: `listing_is_elementwise`, each element of
a listing is what it would be in a body of its own, and the first one that is no record there is the
one that the error of the listing is about.
-/

set_option autoImplicit false

namespace DocumentClient.Database

open Json

/-! ## Records on any level -/

theorem Metadata.decoder_levels (levels others : Nat) :
    Metadata.record.decoder (levels + 1) = Metadata.record.decoder (others + 1) :=
  Json.Record.decoder_congr
    (List.forall_mem_cons.mpr ⟨rfl, List.forall_mem_singleton.mpr rfl⟩)

/-- Only two of the objects in a record are entered: its metadata and its settings. All the others
are skipped, however deep they are. -/
theorem Record.decoder_levels (levels others : Nat) :
    Record.record.decoder (levels + 2) = Record.record.decoder (others + 2) := by
  refine Json.Record.decoder_congr (List.forall_mem_cons.mpr ⟨?metadata,
    List.forall_mem_cons.mpr ⟨?lastModified, List.forall_mem_singleton.mpr ?settings⟩⟩)
  case metadata =>
    show Decoder.map _ Metadata.record.decoder _ = Decoder.map _ Metadata.record.decoder _
    rw [Decoder.map, Decoder.map, Metadata.decoder_levels levels others]
  case lastModified => rfl
  case settings => rfl

/-! ## What a record is listed as -/

/-- What a caller is told about a database with this record. -/
structure ListedAs (record : Record) (info : Info) : Prop where
  id : info.id = record.metadata.id
  whole : '/' ∉ record.metadata.id.toList → info.name = record.metadata.id
  last {front name : String} : record.metadata.id = front ++ "/" ++ name → '/' ∉ name.toList →
    info.name = name
  lastModified : info.lastModified = record.lastModified
  dataDirectory : info.dataDirectory = record.settings.get? "Raven/DataDir"
  etag : info.etag = record.metadata.etag

private theorem listedAs_ofRecord (record : Record) : ListedAs record (Info.ofRecord record) where
  id := rfl
  whole plain := Text.afterLast_eq_self_iff.mpr plain
  last {front name} split plain := by
    show Text.afterLast '/' record.metadata.id = name
    rw [split, Text.afterLast_append, Text.afterLast_eq_self_iff.mpr plain]
  lastModified := rfl
  dataDirectory := rfl
  etag := rfl

private theorem exists_last_piece {text : String} (slashed : '/' ∈ text.toList) :
    ∃ front name, text = front ++ "/" ++ name ∧ '/' ∉ name.toList := by
  obtain ⟨after, before, split, plain⟩ :=
    List.eq_append_cons_of_mem (List.mem_reverse.mpr slashed)
  refine ⟨String.ofList before.reverse, String.ofList after.reverse, ?_, by simpa using plain⟩
  have whole := congrArg List.reverse split
  exact String.toList_inj.mp (by simpa using whole)

private theorem listedAs_iff {record : Record} {info : Info} :
    ListedAs record info ↔ info = Info.ofRecord record := by
  have known := listedAs_ofRecord record
  constructor
  · intro listed
    have name : info.name = (Info.ofRecord record).name := by
      by_cases slashed : '/' ∈ record.metadata.id.toList
      · obtain ⟨front, name, split, plain⟩ := exists_last_piece slashed
        rw [listed.last split plain, known.last split plain]
      · rw [listed.whole slashed, known.whole slashed]
    cases info
    exact Info.mk.injEq .. |>.mpr ⟨listed.id, name, listed.lastModified, listed.dataDirectory,
      listed.etag⟩
  · rintro rfl
    exact known

/-! ## Listings -/

variable {body : Bytes} {elements : List Bytes}

/-- The record that a text of its own is decoded to. -/
abbrev Describes (element : Bytes) (record : Record) : Prop :=
  decodeBody Record.record.decoder element = .ok record

private theorem alone_iff_describes {element : Bytes} {record : Record} :
    Alone (Record.record.decoder (greatestDepth - 1)) element record ↔ Describes element record := by
  rw [Describes, decodeBody_eq_ok, greatestDepth, Record.decoder_levels 124 125]
  rfl

/-- The first of the elements that is no record stands at this index. -/
def FailsFirst (elements : List Bytes) (index : Nat) : Prop :=
  ∃ before element after, elements = before ++ element :: after ∧ before.length = index ∧
    (∀ earlier ∈ before, ∃ record, Describes earlier record) ∧ ∀ record, ¬ Describes element record

private theorem records_of_isList (isList : IsList elements body) :
    (∀ records, List.Forall₂ Describes elements records →
      decodeBody (Json.list Record.record.decoder) body = .ok records) ∧
    (∀ index, FailsFirst elements index →
      ∃ fault, decodeBody (Json.list Record.record.decoder) body =
        .error (.decoding (.undecodable (Fault.under (.item index) fault)))) := by
  obtain ⟨every, first⟩ :=
    list_of_isList (Record.target.lawful (greatestDepth - 1)) isList
  simp only [alone_iff_describes] at first
  constructor
  · intro records described
    exact decodeBody_eq_ok.mpr
      (every records (described.imp fun _ _ => alone_iff_describes.mpr))
  · rintro _ ⟨before, element, after, split, rfl, earlier, refused⟩
    obtain ⟨fault, failed⟩ := first before element after split earlier refused
    refine ⟨fault, ?_⟩
    change (Json.list Record.record.decoder greatestDepth).run (Cursor.start body) = _ at failed
    rw [decodeBody, decode, failed]
    rfl

private theorem forall₂_normalized {records : List Record} {infos : List Info}
    (described : List.Forall₂ Describes elements records) :
    List.Forall₂ (fun element info => ∃ record, Describes element record ∧ ListedAs record info)
        elements infos ↔ records.map Info.ofRecord = infos := by
  induction described generalizing infos with
  | nil => simp [eq_comm]
  | @cons element record others records here _ ih =>
      have same {info : Info} :
          (∃ record, Describes element record ∧ ListedAs record info) ↔
            Info.ofRecord record = info := by
        constructor
        · rintro ⟨another, again, listed⟩
          obtain rfl : another = record := Except.ok.inj (again.symm.trans here)
          exact (listedAs_iff.mp listed).symm
        · rintro rfl
          exact ⟨record, here, listedAs_ofRecord record⟩
      cases infos with
      | nil => simp
      | cons info infos =>
          rw [List.forall₂_cons, same, ih, List.map_cons, List.cons.injEq]

private theorem pathText_item (index : Nat) (steps : List Step) :
    ∃ further, pathText (.item index :: steps) = s!"[{index}]" ++ further :=
  ⟨_, String.join_cons⟩

private theorem parseListing_of_failsFirst (isList : IsList elements body) {index : Nat}
    (fails : FailsFirst elements index) :
    ∃ fault, parseListing body =
      .error (.decoding (.undecodable (Fault.under (.item index) fault))) := by
  obtain ⟨fault, failed⟩ := (records_of_isList isList).2 index fails
  exact ⟨fault, by rw [parseListing, failed]; rfl⟩

private theorem parseListing_of_describes (isList : IsList elements body) {records : List Record}
    (described : List.Forall₂ Describes elements records) :
    parseListing body = .ok (records.map Info.ofRecord) :=
  parseListing_eq_ok.mpr ⟨records, (records_of_isList isList).1 records described, rfl⟩

private theorem describes_or_failsFirst (elements : List Bytes) :
    (∃ records, List.Forall₂ Describes elements records) ∨ ∃ index, FailsFirst elements index := by
  obtain every | ⟨before, element, after, split, earlier, refused⟩ := every_or_first elements
  · exact .inl every
  · exact .inr ⟨_, before, element, after, split, rfl, earlier, refused⟩

private theorem exists_of_forall₂ {α β : Type} {relation : α → β → Prop} {all : List α}
    {others : List β}
    (related : List.Forall₂ relation all others) : ∀ one ∈ all, ∃ other, relation one other := by
  induction related with
  | nil => simp
  | cons here _ ih => exact List.forall_mem_cons.mpr ⟨⟨_, here⟩, ih⟩

/-- A body that is a list is listed element by element, each as it would be in a body of its own. If
one of them is no record there, nothing is listed, and the error is about the first of these. -/
theorem listing_is_elementwise (isText : IsText body)
    (opens : (afterBlanks body).head? = some (code '[')) :
    ∃ elements, IsList elements body ∧ (∀ others, IsList others body → others = elements) ∧
      ((∃ infos, parseListing body = .ok infos) ↔
        ∀ element ∈ elements, ∃ record, Describes element record) ∧
      (∀ infos, parseListing body = .ok infos ↔
        List.Forall₂ (fun element info => ∃ record, Describes element record ∧ ListedAs record info)
          elements infos) ∧
      (∀ error, parseListing body = .error error → ∃ index fault steps further,
        FailsFirst elements index ∧ error = .decoding (.undecodable fault) ∧
          fault.path = .item index :: steps ∧ pathText fault.path = s!"[{index}]" ++ further) := by
  obtain ⟨elements, isList⟩ := isList_iff.mpr ⟨isText, opens⟩
  refine ⟨elements, isList, fun others => IsList.unique isList, ?_⟩
  obtain ⟨records, described⟩ | ⟨index, fails⟩ := describes_or_failsFirst elements
  · have listed := parseListing_of_describes isList described
    refine ⟨⟨fun _ => exists_of_forall₂ described, fun _ => ⟨_, listed⟩⟩,
      fun infos => ?_, fun error failed => nomatch listed.symm.trans failed⟩
    rw [listed, forall₂_normalized described, Except.ok.injEq]
  · obtain ⟨fault, failed⟩ := parseListing_of_failsFirst isList fails
    obtain ⟨before, element, after, split, _, _, refused⟩ := id fails
    have member : element ∈ elements := split ▸ by simp
    have nothing (infos : List Info) : parseListing body ≠ .ok infos :=
      fun listed => nomatch failed.symm.trans listed
    refine ⟨⟨fun ⟨infos, listed⟩ => absurd listed (nothing infos), fun every => ?_⟩,
      fun infos => ⟨fun listed => absurd listed (nothing infos), fun every => ?_⟩,
      fun error also => ?_⟩
    · obtain ⟨record, described⟩ := every element member
      exact absurd described (refused record)
    · obtain ⟨_, record, described, _⟩ := exists_of_forall₂ every element member
      exact absurd described (refused record)
    · obtain rfl := Except.error.inj (failed.symm.trans also)
      obtain ⟨further, path⟩ := pathText_item index fault.path
      exact ⟨index, _, fault.path, further, fails, rfl, rfl, path⟩

/-- A listing whose second element is a number. -/
theorem second_element_fails_first :
    let body := utf8 "[\x7b\"@metadata\":\x7b\"@id\":\"Raven/Databases/foo\"\x7d\x7d, 1]"
    ∃ elements, IsList elements body ∧ FailsFirst elements 1 := by
  intro body
  have accepted : (decodeBody (whole (Json.list Json.value)) body).isOk := by decide +kernel
  have isText : IsText body := by
    cases decoded : decodeBody (whole (Json.list Json.value)) body with
    | error error =>
        rw [decoded] at accepted
        cases accepted
    | ok items => exact ((decodeBody_whole_iff Target.value.list).mp decoded).2
  obtain ⟨elements, isList, _, _, _, fails⟩ := listing_is_elementwise isText (by decide +kernel)
  let refused : Fault := ⟨[.item 1], .wrongType (.integer 1) "struct DatabaseRecord", ⟨1, 47⟩⟩
  have failed : parseListing body = .error (.decoding (.undecodable refused)) := by
    decide +kernel
  obtain ⟨index, fault, steps, _, first, same, path, _⟩ := fails _ failed
  cases same
  obtain rfl : 1 = index := Step.item.inj (List.cons.inj path).1
  exact ⟨elements, isList, first⟩

end DocumentClient.Database
