import DocumentClient.Proofs.Server
import DocumentClient.Proofs.Wire.Framing
import DocumentClient.Proofs.Wire.Target
import DocumentClient.Transport.Exchange

/-!
# What reaches a server

A request that can be sent is sent in bytes that begin with exactly one head, the request's own,
whatever its URL, its headers and its body hold. Its body follows whole, with nothing behind it,
unless the caller has declared a length.
-/

set_option autoImplicit false

namespace DocumentClient.Wire

/-! ## Messages of requests -/

/-- A header of a request as a server reads it. -/
def seen (header : String × String) : String × Bytes :=
  (Text.lowerCase header.1, trimBytes (utf8 header.2))

private theorem isTokenChar_toLower {char : Char} (token : isTokenChar char = true) :
    isTokenChar char.toLower = true ∧ char.toLower.toLower = char.toLower := by
  have checked := Text.ascii_all (fun char => !isTokenChar char ||
    (isTokenChar char.toLower && char.toLower.toLower == char.toLower)) (by decide)
    (ascii_of_isTokenChar token)
  simpa [token] using checked

private theorem sendable_eq_ok {header : String × String} {sent : String × Bytes}
    (checked : sendable header = .ok sent) :
    sent = (Text.lowerCase header.1, utf8 header.2) ∧ Sendable sent := by
  obtain ⟨name, value⟩ := header
  unfold sendable at checked
  dsimp only at checked
  split at checked
  · cases checked
  · rename_i valid
    split at checked
    · cases checked
    · rename_i validValue
      cases checked
      simp only [Bool.or_eq_true, decide_eq_true_eq, not_or, Bool.not_eq_true, Bool.not_eq_false',
        Nat.not_lt, String.isEmpty_eq_false_iff] at valid
      obtain ⟨⟨present, short⟩, token⟩ := valid
      have token := List.all_eq_true.mp token
      refine ⟨rfl, ?_⟩
      constructor
      case present =>
        intro empty
        rw [Text.lowerCase, ← String.toList_eq_nil_iff, String.toList_ofList,
          List.map_eq_nil_iff, String.toList_eq_nil_iff] at empty
        exact present empty
      case short =>
        rw [Text.lowerCase, ← String.length_toList, String.toList_ofList, List.length_map,
          String.length_toList]
        exact short
      case token =>
        intro char member
        rw [Text.lowerCase, String.toList_ofList] at member
        obtain ⟨char, found, rfl⟩ := List.mem_map.mp member
        exact (isTokenChar_toLower (token char found)).1
      case lower =>
        rw [Text.lowerCase, Text.lowerCase, String.toList_ofList, List.map_map]
        refine congrArg String.ofList (List.map_congr_left fun char member => ?_)
        exact (isTokenChar_toLower (token char member)).2
      case value =>
        exact List.all_eq_true.mp (by simpa using validValue)

private theorem addSendable_eq_ok {headers sent : Headers} {header : String × String}
    (added : addSendable headers header = .ok sent) :
    sent = headers ++ [(Text.lowerCase header.1, utf8 header.2)] ∧
      Sendable (Text.lowerCase header.1, utf8 header.2) := by
  obtain ⟨last, checked, added⟩ := ok_of_bind added
  obtain ⟨rfl, sendable⟩ := sendable_eq_ok checked
  split at added
  · cases added
  · cases added
    exact ⟨rfl, sendable⟩

/-- Headers are added in their order, and all of them can be sent if those before them can. -/
private theorem foldlM_addSendable_eq_ok {entries : List (String × String)} {done sent : Headers}
    (checked : entries.foldlM addSendable done = .ok sent)
    (sendable : ∀ header ∈ done, Sendable header) :
    sent = done ++ entries.map (fun header => (Text.lowerCase header.1, utf8 header.2)) ∧
      ∀ header ∈ sent, Sendable header := by
  induction entries generalizing done with
  | nil =>
      cases checked
      exact ⟨(List.append_nil _).symm, sendable⟩
  | cons header entries ih =>
      rw [List.foldlM_cons] at checked
      obtain ⟨next, added, checked⟩ := ok_of_bind checked
      obtain ⟨rfl, own⟩ := addSendable_eq_ok added
      obtain ⟨whole, all⟩ := ih checked
        (List.forall_mem_append.mpr ⟨sendable, List.forall_mem_singleton.mpr own⟩)
      exact ⟨whole.trans (by simp), all⟩

theorem sendableAll_eq_ok {headers : TextMap} {sent : Headers}
    (checked : sendableAll headers = .ok sent) :
    sent = headers.entries.map (fun header => (Text.lowerCase header.1, utf8 header.2)) ∧
      ∀ header ∈ sent, Sendable header :=
  foldlM_addSendable_eq_ok checked (by simp)

namespace Message

variable {message : Message}

theorem ofRequest_eq_ok {request : Http.Request} (made : ofRequest request = .ok message) :
    message.method = request.method ∧ Target.read request.url.text = .ok message.target ∧
      sendableAll request.headers = .ok message.headers ∧ message.body = request.body.getD [] := by
  obtain ⟨target, read, made⟩ := ok_of_bind made
  obtain ⟨headers, checked, made⟩ := ok_of_bind made
  cases made
  exact ⟨rfl, read, checked, rfl⟩

/-! ## Heads -/

private theorem bytes_eq (message : Message) :
    message.bytes =
      lineBytes (requestLine message.method.text message.target.line ::
        message.framing.1.map headerLine) ++ 13 :: 10 :: message.bodyBytes := by
  have colon : utf8 ": " = [58, 32] := by decide
  have line : message.line = requestLine message.method.text message.target.line := by
    have blank : utf8 " " = [32] := by decide
    have version : utf8 " HTTP/1.1" = 32 :: utf8 "HTTP/1.1" := by decide
    have words : message.line =
        utf8 (message.method.text ++ " " ++ message.target.line ++ " HTTP/1.1") := rfl
    rw [words, requestLine, utf8_append, utf8_append, utf8_append, blank, version]
    simp
  have headers : headerBytes message.framing.1 = lineBytes (message.framing.1.map headerLine) := by
    simp [headerBytes, lineBytes, List.flatMap_map, headerLine, lineEnd, colon]
  have behind : message.bytes = message.line ++ lineEnd ++ headerBytes message.framing.1 ++
      lineEnd ++ message.bodyBytes := rfl
  rw [behind, line, headers]
  simp [lineBytes, lineEnd]

private theorem sendable_withHost {url : Url} (tells : Tells url message.target)
    (sendable : ∀ header ∈ message.headers, Sendable header) :
    ∀ header ∈ message.withHost, Sendable header := by
  rw [withHost]
  split
  · refine List.forall_mem_append.mpr ⟨sendable, List.forall_mem_singleton.mpr ?_⟩
    constructor
    case present => exact (by decide : "host" ≠ "")
    case short => exact (by decide : "host".length ≤ greatestName)
    case token =>
      exact List.all_eq_true.mp (by decide : "host".toList.all isTokenChar = true)
    case lower => exact (by decide : Text.lowerCase "host" = "host")
    case value => exact all_utf8_of_visible isValueByte (by decide) tells.endpoint
  · exact sendable

/-- A message begins with exactly one head, its own. -/
theorem readInbound?_bytes {url : Url} (tells : Tells url message.target)
    (sendable : ∀ header ∈ message.headers, Sendable header) :
    readInbound? message.bytes =
      some (⟨utf8 message.method.text, utf8 message.target.line,
        message.framing.1.map trimmed⟩, message.bodyBytes) := by
  have visible : ∀ char ∈ message.method.text.toList, isVisible char = true := by
    cases message.method <;> exact List.all_eq_true.mp (by decide)
  rw [bytes_eq]
  exact readInbound?_lineBytes visible tells.visible
    (sendable_framing (sendable_withHost tells sendable)) message.bodyBytes

end Message

/-! ## Requests -/

def givenHeaders (request : Http.Request) : Headers :=
  request.headers.entries.map seen

def givenBody (request : Http.Request) : Bytes :=
  request.body.getD []

/-- The name of the host, unless the request has a header for it. -/
def hostHeader (request : Http.Request) (endpoint : String) : Headers :=
  if (valuesOf "host" (givenHeaders request)).isEmpty then [("host", utf8 endpoint)] else []

/-- What a server reads of a request that was sent: the head, and the bytes behind it. -/
structure Delivery (request : Http.Request) (endpoint : String) (inbound : Inbound)
    (behind : Bytes) : Prop where
  method : inbound.method = utf8 request.method.text
  target : inbound.target =
    utf8 (request.url.pathText ++ String.ofList (queryText request.url))
  /-- The headers arrive in some order, in which the values of a name keep their own. -/
  headers : (inbound.headers.filter (!isFraming ·)).Perm
    ((givenHeaders request ++ hostHeader request endpoint).filter (!isFraming ·))
  values : ∀ name, valuesOf name (inbound.headers.filter (!isFraming ·)) =
    valuesOf name ((givenHeaders request ++ hostHeader request endpoint).filter (!isFraming ·))
  /-- Without a declared length the body is whole, and nothing stands behind it. -/
  whole : valuesOf "content-length" (givenHeaders request) = [] →
    givenBody request = [] ∨ valuesOf "transfer-encoding" (givenHeaders request) = [] →
      splitBody? inbound.headers behind = some (givenBody request, [])
  /-- A declared length is believed, even where it is not that of the body. -/
  believed : ∀ length, declaredLength? (givenHeaders request) = some length →
    givenBody request = [] ∨ valuesOf "transfer-encoding" (givenHeaders request) = [] →
      splitBody? inbound.headers behind =
        if length ≤ (givenBody request).length then some ((givenBody request).take length, [])
        else none
  /-- A value that declares no length is replaced, but not in front of an empty body. -/
  replaced : declaredLength? (givenHeaders request) = none → givenBody request ≠ [] →
    valuesOf "transfer-encoding" (givenHeaders request) = [] →
      splitBody? inbound.headers behind = some (givenBody request, [])
  unreadable : declaredLength? (givenHeaders request) = none → givenBody request = [] →
    valuesOf "content-length" (givenHeaders request) ≠ [] →
      splitBody? inbound.headers behind = none
  /-- In chunks the body is whole again, whatever length is declared. -/
  coded : givenBody request ≠ [] → ∀ value : Bytes,
    (valuesOf "transfer-encoding" (givenHeaders request)).getLast? = some value →
      splitBody? inbound.headers behind =
        if value.all isTextByte then some (givenBody request, []) else none

section

variable {request : Http.Request} {message : Message}

private theorem trimmed_headers (made : Message.ofRequest request = .ok message) :
    message.headers.map trimmed = givenHeaders request := by
  obtain ⟨_, _, checked, _⟩ := Message.ofRequest_eq_ok made
  obtain ⟨headers, _⟩ := sendableAll_eq_ok checked
  rw [headers, List.map_map]
  rfl

private theorem valuesOf_given (made : Message.ofRequest request = .ok message) (name : String) :
    valuesOf name (givenHeaders request) = (valuesOf name message.headers).map trimBytes := by
  rw [← trimmed_headers made, valuesOf_trimmed]

private theorem trimmed_withHost {url : Url} (made : Message.ofRequest request = .ok message)
    (tells : Tells url message.target) :
    message.withHost.map trimmed =
      givenHeaders request ++ hostHeader request message.target.endpoint := by
  have solid : trimBytes (utf8 message.target.endpoint) = utf8 message.target.endpoint :=
    trimBytes_of_solid fun byte member => by
      simpa using all_utf8_of_visible (fun byte => !isBlankByte byte) (by decide)
        tells.endpoint byte member
  rw [Message.withHost, hostHeader, valuesOf_given made, List.isEmpty_map]
  split
  · rw [List.map_append, trimmed_headers made]
    simp [trimmed, solid]
  · rw [trimmed_headers made, List.append_nil]

private theorem filter_trimmed (headers : Headers) :
    (headers.map trimmed).filter (!isFraming ·) =
      (headers.filter (!isFraming ·)).map trimmed := by
  rw [List.filter_map]
  rfl

private theorem delivery_of_ofRequest {text : String} (parsed : Url.parse text = .ok request.url)
    (plain : request.url.scheme = "http") (small : (givenBody request).length < Nat.pow 2 64)
    (made : Message.ofRequest request = .ok message) :
    ∃ inbound behind, readInbound? message.bytes = some (inbound, behind) ∧
      Delivery request message.target.endpoint inbound behind := by
  obtain ⟨method, read, checked, body⟩ := Message.ofRequest_eq_ok made
  obtain ⟨_, sendable⟩ := sendableAll_eq_ok checked
  have tells := tells_of_read parsed plain read
  refine ⟨_, _, Message.readInbound?_bytes tells sendable, ?_⟩
  have body : message.body = givenBody request := body
  have readBack : splitBody? (message.framing.1.map trimmed) message.bodyBytes =
      message.readBack :=
    splitBody?_trimmed _ _
  have absent (name : String) : valuesOf name (givenHeaders request) = [] ↔
      valuesOf name message.headers = [] := by
    rw [valuesOf_given made, List.map_eq_nil_iff]
  have declared : declaredLength? (givenHeaders request) = declaredLength? message.headers := by
    rw [← trimmed_headers made, declaredLength?_trimmed]
  have kept : (message.framing.1.map trimmed).filter (!isFraming ·) =
      (givenHeaders request ++ hostHeader request message.target.endpoint).filter
        (!isFraming ·) := by
    rw [filter_trimmed, Message.filter_framing, ← filter_trimmed, trimmed_withHost made tells]
  rw [← body] at small
  constructor
  case method => rw [method]
  case target =>
    have line : message.target.line =
        request.url.pathText ++ String.ofList (queryText request.url) := by
      rw [← String.toList_inj, tells.line, String.toList_append, String.toList_ofList]
    exact congrArg utf8 line
  case headers => exact .of_eq kept
  case values => exact fun name => congrArg (valuesOf name) kept
  case whole =>
    intro noLength uncoded
    rw [absent, ← body] at uncoded
    rw [readBack, ← body]
    exact Message.readBack_of_unframed small uncoded ((absent _).mp noLength)
  case believed =>
    intro length announced uncoded
    rw [absent, ← body] at uncoded
    rw [readBack, ← body]
    exact Message.readBack_of_declared uncoded (declared.symm.trans announced)
  case replaced =>
    intro undeclared present uncoded
    rw [← body] at present
    rw [readBack, ← body]
    exact Message.readBack_of_undeclared present small ((absent _).mp uncoded)
      (declared.symm.trans undeclared)
  case unreadable =>
    intro undeclared empty present
    rw [readBack]
    exact Message.readBack_of_unreadable (body.trans empty) ((absent _).not.mp present)
      (declared.symm.trans undeclared)
  case coded =>
    intro present value found
    rw [valuesOf_given made, List.getLast?_map] at found
    obtain ⟨own, last, rfl⟩ := Option.map_eq_some_iff.mp found
    rw [← body] at present
    rw [readBack, ← body, all_isTextByte_trimBytes]
    exact Message.readBack_of_coded present small last

end

/-- The framing headers of a request do not speak against its body. -/
def Intact (request : Http.Request) : Prop :=
  let headers := givenHeaders request
  if givenBody request = [] then
    valuesOf "content-length" headers = [] ∨ declaredLength? headers = some 0
  else
    match (valuesOf "transfer-encoding" headers).getLast? with
    | some value => value.all isTextByte = true
    | none => ∀ length, declaredLength? headers = some length → length = (givenBody request).length

/-- Whether the body arrives is decided by the framing headers that the caller gave. -/
theorem Delivery.whole_iff_intact {request : Http.Request} {endpoint : String} {inbound : Inbound}
    {behind : Bytes} (delivery : Delivery request endpoint inbound behind) :
    splitBody? inbound.headers behind = some (givenBody request, []) ↔ Intact request := by
  -- codings count only where there is a body, as an empty one is sent without any
  by_cases empty : givenBody request = []
  · rw [Intact, if_pos empty]
    cases declared : declaredLength? (givenHeaders request) with
    | none =>
        by_cases absent : valuesOf "content-length" (givenHeaders request) = []
        · simp [delivery.whole absent (.inl empty), absent]
        · simp [delivery.unreadable declared empty absent, absent]
    | some length =>
        rw [delivery.believed length declared (.inl empty)]
        simp [empty, present_of_declared declared]
  · rw [Intact, if_neg empty]
    cases coding : (valuesOf "transfer-encoding" (givenHeaders request)).getLast? with
    | some value => simp [delivery.coded empty value coding]
    | none =>
        have uncoded := List.getLast?_eq_none_iff.mp coding
        cases declared : declaredLength? (givenHeaders request) with
        | none => simp [delivery.replaced declared empty uncoded]
        | some length =>
            rw [delivery.believed length declared (.inr uncoded)]
            have kept : (givenBody request).take length = givenBody request ↔
                (givenBody request).length ≤ length :=
              ⟨fun same => same ▸ List.length_take_le _ _, List.take_of_length_le⟩
            simp only [Option.ite_none_right_eq_some, Option.some.injEq, Prod.mk.injEq, and_true,
              forall_eq', kept]
            exact le_antisymm_iff.symm

end DocumentClient.Wire

namespace DocumentClient.Transport

open Wire

/-- Either a request is refused and nothing is sent, or one message is sent that a server reads. -/
structure Delivers (request : Http.Request) : Prop where
  refused : ∀ fault, Message.ofRequest request = .error fault →
    ∀ (config : Config) (network : Network),
      reply? config network request = some (.error (.invalidRequest fault))
  sent : ∀ message, Message.ofRequest request = .ok message →
    ∀ (config : Config) (network : Network),
      reply? config network request =
        (network message.target message.bytes).reply? config.timeout
  read : ∀ message, Message.ofRequest request = .ok message →
    ∃ inbound behind, readInbound? message.bytes = some (inbound, behind) ∧
      Delivery request message.target.endpoint inbound behind ∧
      (splitBody? inbound.headers behind = some (givenBody request, []) ↔ Intact request)

private theorem delivers_of_parse {text : String} {request : Http.Request}
    (parsed : Url.parse text = .ok request.url) (plain : request.url.scheme = "http")
    (small : (givenBody request).length < Nat.pow 2 64) : Delivers request := by
  constructor
  case refused =>
    intro fault failed config network
    rw [reply?, message, failed]
  case sent =>
    intro made succeeded config network
    obtain ⟨_, read, _⟩ := Message.ofRequest_eq_ok succeeded
    have tells := tells_of_read parsed plain read
    have spoken : message request = .ok made := by
      simp [message, succeeded, tells.scheme]
    rw [reply?, spoken]
    rfl
  case read =>
    intro made succeeded
    obtain ⟨inbound, behind, found, delivery⟩ :=
      delivery_of_ofRequest parsed plain small succeeded
    exact ⟨inbound, behind, found, delivery, delivery.whole_iff_intact⟩

section

variable {σ : Type} {settings : Settings} {key : String} {upload : Attachment.Upload}
  {respond : σ → Http.Request → Http.Reply × σ} {start : σ} {request : Http.Request}

private theorem eq_of_mem_save {url : Url} (made : (Call.save key upload).url settings = .ok url)
    (member : request ∈ ((Attachment.save settings key upload).run respond start).sent) :
    request = (Call.save key upload).request url :=
  Call.eq_of_mem_sent made (fun _ => ⟨_, rfl⟩) member

private theorem exists_url_of_mem_save (accepted : settings.Accepted)
    (member : request ∈ ((Attachment.save settings key upload).run respond start).sent) :
    ∃ url text, (Call.save key upload).url settings = .ok url ∧ Url.parse text = .ok url ∧
      url.scheme = settings.host.scheme := by
  have member : request ∈ (((Call.save key upload).operation settings).run respond start).sent :=
    member
  obtain ⟨url, made⟩ := Call.exists_url_of_mem_sent member
  have same := Call.sameServer_of_mem_sent accepted member
  obtain rfl := eq_of_mem_save made member
  obtain ⟨_, _, found⟩ := ok_of_bind made
  obtain ⟨text, _, parsed⟩ := ok_of_bind found
  exact ⟨url, text, made, ok_of_mapError parsed, same.scheme⟩

end

/-- A request in the clear is refused or delivered, also where it is the one of an attachment that
is saved, in whatever order its headers are gone through. -/
theorem requests_delivered {σ : Type} (settings : Settings) (key : String)
    (upload : Attachment.Upload) (respond : σ → Http.Request → Http.Reply × σ) (start : σ)
    (request : Http.Request) :
    (∀ text, Url.parse text = .ok request.url → request.url.scheme = "http" →
      (givenBody request).length < Nat.pow 2 64 → Delivers request) ∧
    (settings.Accepted → settings.host.scheme = "http" →
      upload.content.length < Nat.pow 2 64 →
      request ∈ ((Attachment.save settings key upload).run respond start).sent →
        request.method = .put ∧ givenBody request = upload.content ∧
          request.headers = (∅ : TextMap).insertAll upload.headers.entries ∧
          Delivers request ∧ ∀ arrange, Delivers (request.arranged arrange)) := by
  constructor
  · intro text parsed plain small
    exact delivers_of_parse parsed plain small
  · intro accepted plain small member
    obtain ⟨url, text, made, parsed, scheme⟩ := exists_url_of_mem_save accepted member
    obtain rfl := eq_of_mem_save made member
    exact ⟨rfl, rfl, rfl, delivers_of_parse parsed (scheme.trans plain) small,
      fun arrange => delivers_of_parse parsed (scheme.trans plain) small⟩

/-- A request without a body, and an attachment that is saved with metadata of its own. -/
theorem requests_delivered_to_localhost :
    (∃ request message inbound behind,
      Url.parse "http://user@localhost:8080/a b?c=\"#d" = .ok request.url ∧
      Message.ofRequest request = .ok message ∧
      readInbound? message.bytes = some (inbound, behind) ∧
      inbound.target = utf8 "/a%20b?c=%22" ∧
      splitBody? inbound.headers behind = some ([], [])) ∧
    ∀ request ∈ ((Attachment.save Settings.localhost "k" ⟨utf8 "hello", .ofList [("x", " 1")]⟩).run
        (fun (_ : Unit) _ => (.ok { status := 201 }, ())) ()).sent,
      ∃ message inbound behind, Message.ofRequest request = .ok message ∧
        readInbound? message.bytes = some (inbound, behind) ∧
        splitBody? inbound.headers behind = some (utf8 "hello", []) := by
  constructor
  · let url : Url :=
      ⟨"http", some ⟨"user", none, some (.named "localhost"), some 8080⟩,
        .absolute ["a%20b"], some "c=%22", some "d"⟩
    let request : Http.Request := { method := .get, url }
    have parsed : Url.parse "http://user@localhost:8080/a b?c=\"#d" = .ok url := by decide +kernel
    have sendable : (Message.ofRequest request).toOption.isSome := by decide +kernel
    have delivers := (requests_delivered Settings.localhost "k" ⟨[], ∅⟩
      (fun (_ : Unit) _ => (.ok { status := 200 }, ())) () request).1 _ parsed
      (by decide +kernel) (by decide +kernel)
    cases made : Message.ofRequest request with
    | error fault => simp [made, Except.toOption] at sendable
    | ok message =>
        obtain ⟨inbound, behind, read, delivery, _⟩ := delivers.read message made
        refine ⟨request, message, inbound, behind, parsed, made, read, ?_, ?_⟩
        · rw [delivery.target]
          decide +kernel
        · exact delivery.whole (by decide +kernel) (.inl rfl)
  · let upload : Attachment.Upload := ⟨utf8 "hello", .ofList [("x", " 1")]⟩
    let url : Url := { Settings.localhost.host with path := .absolute ["static", "k"] }
    have called : (Call.save "k" upload).url Settings.localhost = .ok url := by decide +kernel
    let saved : Http.Request := (Call.save "k" upload).request url
    have sendable : (Message.ofRequest saved).toOption.isSome := by decide +kernel
    have noLength : valuesOf "content-length" (givenHeaders saved) = [] := by decide +kernel
    have uncoded : valuesOf "transfer-encoding" (givenHeaders saved) = [] := by decide +kernel
    intro request member
    have plain : Settings.localhost.host.scheme = "http" := by decide
    have small : upload.content.length < Nat.pow 2 64 := by decide +kernel
    obtain ⟨_, _, _, delivers, _⟩ := (requests_delivered Settings.localhost "k" upload
      (fun (_ : Unit) _ => (.ok { status := 201 }, ())) () request).2
      Settings.accepted_localhost plain small member
    obtain rfl := eq_of_mem_save called member
    cases made : Message.ofRequest saved with
    | error fault => simp [made, Except.toOption] at sendable
    | ok message =>
        obtain ⟨inbound, behind, read, delivery, _⟩ := delivers.read message made
        exact ⟨message, inbound, behind, rfl, read, delivery.whole noLength (.inr uncoded)⟩

/-- Metadata that declares a length cuts the content off. -/
theorem metadata_cuts_content :
    ¬ ∀ (upload : Attachment.Upload) (message : Message) (request : Http.Request),
      request ∈ ((Attachment.save Settings.localhost "k" upload).run
        (fun (_ : Unit) _ => (.ok { status := 201 }, ())) ()).sent →
      Message.ofRequest request = .ok message →
        ∃ inbound behind, readInbound? message.bytes = some (inbound, behind) ∧
          splitBody? inbound.headers behind = some (upload.content, []) := by
  intro claim
  let upload : Attachment.Upload :=
    Attachment.Upload.withMetadata ⟨utf8 "hello", ∅⟩ "Content-Length" "3"
  let url : Url := { Settings.localhost.host with path := .absolute ["static", "k"] }
  let request : Http.Request := (Call.save "k" upload).request url
  have parsed : Url.parse "http://localhost:8080/static/k" = .ok url := by decide +kernel
  have sent : request ∈ ((Attachment.save Settings.localhost "k" upload).run
      (fun (_ : Unit) _ => (.ok { status := 201 }, ())) ()).sent := by
    decide +kernel
  have sendable : (Message.ofRequest request).toOption.isSome := by decide +kernel
  have declared : declaredLength? (givenHeaders request) = some 3 := by decide +kernel
  cases made : Message.ofRequest request with
  | error fault => simp [made, Except.toOption] at sendable
  | ok message =>
      obtain ⟨inbound, behind, read, whole⟩ := claim upload message request sent made
      obtain ⟨other, rest, again, delivery⟩ :=
        delivery_of_ofRequest parsed (by decide +kernel) (by decide +kernel) made
      obtain ⟨rfl, rfl⟩ := Prod.mk.inj (Option.some.inj (read.symm.trans again))
      have cut := delivery.believed 3 declared (.inr (by decide +kernel))
      rw [whole] at cut
      exact absurd cut (by decide +kernel)

end DocumentClient.Transport
