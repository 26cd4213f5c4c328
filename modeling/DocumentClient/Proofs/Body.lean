import DocumentClient.Proofs.Json.Record
import DocumentClient.Proofs.Outcome

/-!
# What of a body is read

A body is decoded from its front, as far as its first value goes. Main statement:
`answers_are_read_from_front`, what stands behind that value does not matter, to a caller of
`decodeBody` and to the operations that decode the answer to a request.
-/

set_option autoImplicit false

namespace DocumentClient

open Json Json.Reader

variable {α : Type} {decoder : Decoder α} {body : Bytes} {value : α}

theorem decodeBody_eq_ok :
    decodeBody decoder body = .ok value ↔
      ∃ behind, (decoder greatestDepth).run (Cursor.start body) = .ok (value, behind) := by
  unfold decodeBody decode
  cases (decoder greatestDepth).run (Cursor.start body) with
  | error fault =>
      constructor
      · intro decoded
        cases decoded
      · rintro ⟨_, decoded⟩
        cases decoded
  | ok result =>
      constructor
      · intro decoded
        cases decoded
        exact ⟨result.2, rfl⟩
      · rintro ⟨_, decoded⟩
        cases decoded
        rfl

private theorem decodeBody_eq_error {error : Error}
    (failed : decodeBody decoder body = .error error) :
    ∃ fault, (decoder greatestDepth).run (Cursor.start body) = .error fault ∧
      error = .decoding (.undecodable fault) := by
  obtain ⟨fault, found, rfl⟩ := error_of_mapError failed
  exact ⟨fault, error_of_map found, rfl⟩

private theorem decodeBody_whole :
    decodeBody (whole decoder) body = .ok value ↔
      ∃ behind, (decoder greatestDepth).run (Cursor.start body) = .ok (value, behind) ∧
        afterBlanks behind.rest = [] :=
  decodeBody_eq_ok.trans whole_iff

/-- The body begins with a value that decodes to this one when nothing stands behind it. -/
def BeginsWith (decoder : Decoder α) (body : Bytes) (value : α) : Prop :=
  ∃ front rest, body = front ++ rest ∧ FirstValue front rest ∧
    decodeBody (whole decoder) front = .ok value

private theorem decodeBody_iff_beginsWith (target : Target decoder) :
    decodeBody decoder body = .ok value ↔ BeginsWith decoder body value := by
  have lawful := target.lawful greatestDepth
  constructor
  · intro decoded
    obtain ⟨behind, found⟩ := decodeBody_eq_ok.mp decoded
    obtain ⟨front, split, _⟩ := lawful.isLocal found
    obtain ⟨stands, again⟩ := lawful.settles found
    have first : FirstValue front behind.rest := by
      rwa [FirstValue, ← split]
    obtain ⟨last, alone⟩ := again front split [] (.inl rfl) ⟨1, 0⟩
    rw [List.append_nil] at alone
    exact ⟨front, behind.rest, split, first, decodeBody_whole.mpr ⟨_, alone, rfl⟩⟩
  · rintro ⟨front, rest, rfl, first, decoded⟩
    obtain ⟨behind, found, _⟩ := decodeBody_whole.mp decoded
    obtain ⟨last, there⟩ := (lawful.alone first ⟨1, 0⟩ ⟨1, 0⟩ value).mp ⟨behind, found⟩
    exact decodeBody_eq_ok.mpr ⟨_, there⟩

theorem decodeBody_whole_iff (target : Target decoder) :
    decodeBody (whole decoder) body = .ok value ↔ BeginsWith decoder body value ∧ IsText body := by
  have lawful := target.lawful greatestDepth
  rw [← decodeBody_iff_beginsWith target]
  constructor
  · intro decoded
    obtain ⟨behind, found, ended⟩ := decodeBody_whole.mp decoded
    exact ⟨decodeBody_eq_ok.mpr ⟨behind, found⟩, behind.rest, (lawful.settles found).1, ended⟩
  · rintro ⟨decoded, rest, stands, ended⟩
    obtain ⟨behind, found⟩ := decodeBody_eq_ok.mp decoded
    obtain rfl := stands.unique (lawful.settles found).1
    exact decodeBody_whole.mpr ⟨behind, found, ended⟩

/-! ## Answers -/

variable {σ : Type} {settings : Settings} {url : Url} {respond : σ → Http.Request → Http.Reply × σ}
  {start : σ} {headers : TextMap}

/-- What an expected status hands over to the end of a call. -/
theorem result_of_ends {call : Call α} {result : Except Error α} {action : String}
    (found : call.url settings = .ok url)
    (replied : (respond start (call.request url)).1 = .ok ⟨200, headers, body⟩)
    (ends : call.reaction ⟨200, headers, body⟩ =
      .ends (Call.expecting 200 action ⟨200, headers, body⟩ result)) :
    ((call.operation settings).run respond start).result = result := by
  have run := Call.run_operation found respond start
  rw [Call.outcome_of_ends replied ends] at run
  have settled : Call.expecting 200 action ⟨200, headers, body⟩ result = result := if_pos rfl
  exact (congrArg Prod.fst run).trans settled

theorem Database.Metadata.target : Target Metadata.record.decoder := by
  refine .record (List.forall_mem_cons.mpr ⟨?id, List.forall_mem_singleton.mpr ?etag⟩)
  case id => exact Target.text.needed _ _
  case etag => exact Target.text.optional.defaulted _ _

theorem Database.Record.target : Target Record.record.decoder := by
  refine .record (List.forall_mem_cons.mpr ⟨?metadata,
    List.forall_mem_cons.mpr ⟨?lastModified, List.forall_mem_singleton.mpr ?settings⟩⟩)
  case metadata => exact Metadata.target.needed _ _
  case lastModified => exact Target.text.optional.defaulted _ _
  case settings => exact (Target.text.members.map _).defaulted _ _

theorem Database.parseListing_eq_ok {infos : List Info} :
    parseListing body = .ok infos ↔
      ∃ records, decodeBody (Json.list Record.record.decoder) body = .ok records ∧
        records.map Info.ofRecord = infos := by
  constructor
  · exact ok_of_map
  · rintro ⟨records, decoded, rfl⟩
    rw [parseListing, decoded]
    rfl

/-- Whatever stands behind the first value of a body, the body is decoded to what this value alone
decodes to: as an answer to a query or a listing, and as the body of an error. Where nothing but
blanks may stand there, fewer bodies are accepted, those that are one value. -/
theorem answers_are_read_from_front (target : Target decoder) (body : Bytes) :
    (∀ value, decodeBody decoder body = .ok value ↔ BeginsWith decoder body value) ∧
    (∀ error, decodeBody decoder body = .error error → ∃ fault, error = .decoding (.undecodable fault)) ∧
    (∀ value, decodeBody (whole decoder) body = .ok value ↔
      BeginsWith decoder body value ∧ IsText body) ∧
    (∀ error : Error, error.body? = some body → ∀ value,
      error.decodeBody? decoder = some (.ok value) ↔ BeginsWith decoder body value) ∧
    (∀ {σ : Type} (settings : Settings) (state : Query.State) (url : Url)
        (respond : σ → Http.Request → Http.Reply × σ) (start : σ) (headers : TextMap),
      (Call.results state decoder).url settings = .ok url →
      (respond start { method := .get, url }).1 = .ok ⟨200, headers, body⟩ →
      ∀ value, ((Query.results settings state decoder).run respond start).result = .ok value ↔
        BeginsWith decoder body value) ∧
    (∀ {σ : Type} (settings : Settings) (url : Url)
        (respond : σ → Http.Request → Http.Reply × σ) (start : σ) (headers : TextMap),
      Call.list.url settings = .ok url →
      (respond start { method := .get, url }).1 = .ok ⟨200, headers, body⟩ →
      ∀ infos, ((Database.list settings).run respond start).result = .ok infos ↔
        ∃ records, BeginsWith (Json.list Database.Record.record.decoder) body records ∧
          records.map Database.Info.ofRecord = infos) := by
  refine ⟨fun value => decodeBody_iff_beginsWith target, fun error failed => ?_,
    fun value => decodeBody_whole_iff target, fun error kept value => ?_, ?_, ?_⟩
  · obtain ⟨fault, _, same⟩ := decodeBody_eq_error failed
    exact ⟨fault, same⟩
  · rw [Error.decodeBody?, kept, Option.map_some, Option.some.injEq]
    exact decodeBody_iff_beginsWith target
  · intro σ settings state url respond start headers found replied value
    have result := result_of_ends found replied rfl
    change ((Call.results state decoder).operation settings |>.run respond start).result = _ ↔ _
    rw [result]
    exact decodeBody_iff_beginsWith target
  · intro σ settings url respond start headers found replied infos
    have result := result_of_ends found replied rfl
    change (Call.list.operation settings |>.run respond start).result = _ ↔ _
    rw [result, Database.parseListing_eq_ok]
    simp only [decodeBody_iff_beginsWith Database.Record.target.list]

/-- Something behind an empty list. -/
theorem listing_with_rest_is_read :
    BeginsWith (Json.list Database.Record.record.decoder) (utf8 "[]x") [] ∧
      ¬ IsText (utf8 "[]x") := by
  obtain ⟨accepts, _, strict, _⟩ :=
    answers_are_read_from_front Database.Record.target.list (utf8 "[]x")
  have decoded : decodeBody (Json.list Database.Record.record.decoder) (utf8 "[]x") = .ok [] := by
    decide +kernel
  have refused : decodeBody (whole (Json.list Database.Record.record.decoder)) (utf8 "[]x") ≠
      .ok [] := by
    decide +kernel
  have begins := (accepts []).mp decoded
  exact ⟨begins, fun isText => refused ((strict []).mpr ⟨begins, isText⟩)⟩

/-- A body that is decoded is not always one value with blanks around it. -/
theorem decoded_body_goes_on :
    ¬ ∀ {α : Type} (decoder : Decoder α) (body : Bytes) (value : α), Target decoder →
      decodeBody decoder body = .ok value → IsText body := by
  intro claim
  let records := Json.list Database.Record.record.decoder
  have decoded : decodeBody records (utf8 "[]x") = .ok [] := by
    decide +kernel
  have isText := claim records (utf8 "[]x") [] Database.Record.target.list decoded
  have begins := (decodeBody_iff_beginsWith Database.Record.target.list).mp decoded
  have whole := (decodeBody_whole_iff Database.Record.target.list).mpr ⟨begins, isText⟩
  exact absurd whole (by decide +kernel)

end DocumentClient
