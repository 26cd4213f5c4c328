import DocumentClient.Proofs.Attachment.Headers
import DocumentClient.Transport.Exchange

/-!
# Metadata of an answer

What is read from an answer besides its body. A header that serves the transport is no metadata in
any spelling, and every other header is, under the name that the answer has for it. So names are in
lower case exactly if the answer has them so, as every answer from a connection does.
-/

set_option autoImplicit false

namespace DocumentClient

theorem Text.lowerCase_lowerCase (text : String) : lowerCase (lowerCase text) = lowerCase text :=
  lowerCase_eq_self fun _ => isUpper_of_mem_lowerCase

/-! ## Answers from a connection -/

namespace Wire

private theorem lower_of_readHeader? {line : Bytes} {header : String × Bytes}
    (read : readHeader? line = some header) : Text.lowerCase header.1 = header.1 := by
  unfold readHeader? at read
  split at read
  · cases read
  · dsimp only at read
    split at read
    · cases read
    · cases read
      exact Text.lowerCase_lowerCase _

private theorem lower_of_mapM {lines : List Bytes} {headers : Headers}
    (read : lines.mapM readHeader? = some headers) :
    ∀ header ∈ headers, Text.lowerCase header.1 = header.1 := by
  induction lines generalizing headers with
  | nil =>
      cases read
      simp
  | cons line lines ih =>
      rw [List.mapM_cons] at read
      obtain ⟨first, own, read⟩ := Option.bind_eq_some_iff.mp read
      obtain ⟨more, others, read⟩ := Option.bind_eq_some_iff.mp read
      cases read
      exact List.forall_mem_cons.mpr ⟨lower_of_readHeader? own, ih others⟩

private theorem lower_of_read? {lines : List Bytes} {head : Head}
    (read : Head.read? lines = some head) :
    ∀ header ∈ head.headers, Text.lowerCase header.1 = header.1 := by
  obtain ⟨first, _, read⟩ := Option.bind_eq_some_iff.mp read
  obtain ⟨line, _, read⟩ := Option.bind_eq_some_iff.mp read
  obtain ⟨headers, others, read⟩ := Option.bind_eq_some_iff.mp read
  cases read
  unfold readHeaders? at others
  split at others
  · cases others
  · exact lower_of_mapM others

private theorem lower_of_readHead? {bytes behind : Bytes} {head : Head}
    (read : readHead? bytes = some (head, behind)) :
    ∀ header ∈ head.headers, Text.lowerCase header.1 = header.1 := by
  fun_induction readHead? bytes with
  | case1 | case2 => cases read
  | case3 _ _ _ _ _ _ _ ih => exact ih read
  | case4 _ lines _ _ found own _ =>
      cases read
      exact lower_of_read? own

private theorem exists_mem_of_mem_received {headers : Headers} {name : String}
    (member : name ∈ (received headers).keys) : ∃ header ∈ headers, header.1 = name := by
  rw [received, TextMap.ofList, TextMap.keys_insertAll, List.mem_eraseDups] at member
  have given := (List.mem_append.mp member).resolve_left List.not_mem_nil
  obtain ⟨entry, found, rfl⟩ := List.mem_map.mp given
  obtain ⟨header, sent, taken⟩ := List.mem_filterMap.mp found
  unfold receivable? at taken
  split at taken
  · cases taken
    exact ⟨header, sent, rfl⟩
  · cases taken

end Wire

namespace Transport

variable {status time timeout : Nat} {headers : Wire.Headers} {body : BodyTimeline}

theorem Timeline.answered_of_reply? {timeline : Timeline} {response : Http.Response}
    (replied : timeline.reply? timeout = some (.ok response)) :
    ∃ status headers time body, timeline = .answered status headers time body ∧
      response.headers = Wire.received headers := by
  cases timeline with
  | silent => cases replied
  | broken fault time => cases Option.some.inj replied
  | answered status headers time body =>
      refine ⟨status, headers, time, body, rfl, ?_⟩
      simp only [reply?] at replied
      split at replied
      · cases replied
      · cases body with
        | whole =>
            cases replied
            rfl
        | cutShort | endless => cases replied

theorem Timeline.lower_of_ofBytes {bytes : Bytes} {moment : Nat}
    (answered : Timeline.ofBytes bytes moment = .answered status headers time body) :
    ∀ header ∈ headers, Text.lowerCase header.1 = header.1 := by
  unfold ofBytes at answered
  split at answered
  · cases answered
  · rename_i head behind read
    split at answered
    · cases answered
    · cases answered
      exact Wire.lower_of_readHead? read

theorem Peer.lower_of_timeline {peer : Peer} {scheme : Option String}
    (answered : peer.timeline scheme = .answered status headers time body) :
    ∀ header ∈ headers, Text.lowerCase header.1 = header.1 := by
  unfold timeline at answered
  split at answered
  · cases peer with
    | sending bytes => exact Timeline.lower_of_ofBytes answered
    | absent | silent | closing => cases answered
  · cases peer <;> cases answered
  · cases answered

/-- Whoever answers over a connection, the names of the headers arrive in lower case. -/
theorem lower_of_reply? {config : Config} {peer : Peer} {request : Http.Request}
    {response : Http.Response}
    (replied : reply? config (.ofPeer peer) request = some (.ok response)) :
    ∀ name ∈ response.headers.keys, Text.lowerCase name = name := by
  unfold reply? at replied
  split at replied
  · cases replied
  · obtain ⟨status, headers, time, body, answered, arrived⟩ :=
      Timeline.answered_of_reply? replied
    intro name member
    rw [arrived] at member
    obtain ⟨header, sent, rfl⟩ := Wire.exists_mem_of_mem_received member
    exact Peer.lower_of_timeline answered header sent

end Transport

namespace Attachment

/-- Metadata as it is wanted of an answer: names in lower case, nothing that serves the transport,
and everything else. -/
structure Normalized (headers metadata : TextMap) : Prop where
  lower : ∀ name ∈ metadata.keys, Text.lowerCase name = name
  apart : ∀ name ∈ metadata.keys, Text.lowerCase name ∉ transportHeaders
  complete : ∀ name value, headers.get? name = some value →
    Text.lowerCase name ∉ transportHeaders → metadata.get? (Text.lowerCase name) = some value

private theorem mem_keys_metadata {response : Http.Response} {name : String} :
    name ∈ (ofResponse response).metadata.keys ↔
      name ∈ response.headers.keys ∧ Text.lowerCase name ∉ transportHeaders := by
  simp only [TextMap.mem_keys_iff, get?_metadata_ofResponse]
  by_cases noise : Text.lowerCase name ∈ transportHeaders <;> simp [noise]

private theorem normalized_iff (response : Http.Response) :
    Normalized response.headers (ofResponse response).metadata ↔
      ∀ name ∈ response.headers.keys, Text.lowerCase name ∉ transportHeaders →
        Text.lowerCase name = name := by
  constructor
  · intro normalized name present kept
    exact normalized.lower name (mem_keys_metadata.mpr ⟨present, kept⟩)
  · intro lower
    constructor
    case lower =>
      intro name member
      obtain ⟨present, kept⟩ := mem_keys_metadata.mp member
      exact lower name present kept
    case apart => exact fun name member => (mem_keys_metadata.mp member).2
    case complete =>
      intro name value found kept
      have same := lower name (TextMap.mem_keys_iff.mpr ⟨value, found⟩) kept
      rw [get?_metadata_ofResponse, same, if_neg kept, found]

/-- Fetching an attachment sends one request, if its key and the selected database are acceptable.
An answer with its status is handed back with its body, and with all its headers but those that serve
the transport, under the names that it has for them. That is what is wanted of metadata exactly if
these names are in lower case, which they are in every answer from a connection. -/
theorem metadata_as_spelled {σ : Type} (settings : Settings) (key : String)
    (respond : σ → Http.Request → Http.Reply × σ) (start : σ) :
    let run := (get settings key).run respond start
    (settings.Accepted → (Call.get key).Acceptable settings → ∃ asked, run.sent = [asked]) ∧
      ∀ asked ∈ run.sent, ∀ response, (respond start asked).1 = .ok response →
        response.status = 200 →
        ∃ metadata, run.result = .ok ⟨response.body, metadata⟩ ∧
          (∀ name value, metadata.get? name = some value ↔
            Text.lowerCase name ∉ transportHeaders ∧ response.headers.get? name = some value) ∧
          (Normalized response.headers metadata ↔
            ∀ name ∈ response.headers.keys, Text.lowerCase name ∉ transportHeaders →
              Text.lowerCase name = name) ∧
          ∀ config peer, Transport.reply? config (.ofPeer peer) asked = some (.ok response) →
            Normalized response.headers metadata := by
  intro run
  constructor
  · intro accepted acceptable
    obtain ⟨url, made⟩ := Call.url_of_acceptable accepted acceptable
    have only := (congrArg Prod.snd (Call.run_operation made respond start)).trans
      (Call.sent_of_ends (fun _ => ⟨_, rfl⟩) respond start url)
    exact ⟨_, only⟩
  · intro asked member response replied answered
    have member : asked ∈ (((Call.get key).operation settings).run respond start).sent := member
    obtain ⟨url, made⟩ := Call.exists_url_of_mem_sent member
    obtain rfl := Call.eq_of_mem_sent made (fun _ => ⟨_, rfl⟩) member
    have reacts : (Call.get key).reaction response = .ends (.ok (ofResponse response)) :=
      congrArg Call.Reaction.ends (Call.expecting_of_status answered _ _)
    have result := congrArg Prod.fst ((Call.run_operation made respond start).trans
      (Call.outcome_of_ends replied reacts))
    refine ⟨(ofResponse response).metadata, result, fun name value => ?_,
      normalized_iff response, fun config peer arrived => ?_⟩
    · rw [get?_metadata_ofResponse]
      by_cases noise : Text.lowerCase name ∈ transportHeaders <;> simp [noise]
    · exact (normalized_iff response).mpr fun name present _ =>
        Transport.lower_of_reply? arrived name present

/-- In an answer of mixed spellings each name stays as it is, but for that of the date. -/
theorem spelling_of_answer_stays :
    let response : Http.Response :=
      { status := 200
        headers := .ofList [("X-Owner", "ayende"), ("DATE", "today"), ("x-kind", "image")]
        body := [7] }
    ∃ metadata, ((get Settings.localhost "k").run (fun (_ : Unit) _ => (.ok response, ())) ()).result =
        .ok ⟨[7], metadata⟩ ∧
      metadata.get? "X-Owner" = some "ayende" ∧ metadata.get? "x-kind" = some "image" ∧
        metadata.get? "DATE" = none ∧ ¬ Normalized response.headers metadata := by
  intro response
  let respond (_ : Unit) (_ : Http.Request) : Http.Reply × Unit := (.ok response, ())
  obtain ⟨one, each⟩ := metadata_as_spelled Settings.localhost "k" respond ()
  have acceptable : (Call.get "k").Acceptable Settings.localhost :=
    ⟨by simp [Settings.Usable, Call.scope, Settings.localhost],
      (by decide : PathSegment.AcceptablePath "k")⟩
  obtain ⟨asked, sent⟩ := one Settings.accepted_localhost acceptable
  obtain ⟨metadata, result, entries, normalized, _⟩ :=
    each asked (sent ▸ List.mem_singleton_self asked) response rfl rfl
  refine ⟨metadata, result, ?_, ?_, ?_, fun wanted => ?_⟩
  · exact (entries "X-Owner" "ayende").mpr (by decide)
  · exact (entries "x-kind" "image").mpr (by decide)
  · refine Option.eq_none_iff_forall_ne_some.mpr fun value found => ?_
    exact ((entries "DATE" value).mp found).1 (by decide)
  · exact absurd (normalized.mp wanted "X-Owner" (by decide) (by decide)) (by decide)

/-- A name that is answered with a capital letter is handed back with it. -/
theorem capital_letters_stay :
    ¬ ∀ response : Http.Response, response.status = 200 →
      (response.headers.keys.map Text.lowerCase).Nodup →
      ∃ metadata, ((get Settings.localhost "k").run
          (fun (_ : Unit) _ => (.ok response, ())) ()).result = .ok ⟨response.body, metadata⟩ ∧
        Normalized response.headers metadata := by
  intro claim
  let response : Http.Response := { status := 200, headers := .ofList [("X-Owner", "ayende")] }
  obtain ⟨metadata, result, normalized⟩ := claim response rfl (by decide)
  have read : ((get Settings.localhost "k").run (fun (_ : Unit) _ => (.ok response, ())) ()).result =
      .ok ⟨[], .ofList [("X-Owner", "ayende")]⟩ := by
    decide +kernel
  cases result.symm.trans read
  exact absurd (normalized.lower "X-Owner" (by decide)) (by decide)

end Attachment

end DocumentClient
