import DocumentClient.Proofs.Attachment.RoundTrip
import DocumentClient.Proofs.Query.Equalities
import DocumentClient.Proofs.Wire.Delivery

/-!
# Spellings of headers

What a request sends that is made by any steps. Setting a header again replaces the value that was
set in the same spelling, and leaves those of other spellings. The wire does not tell spellings
apart, so a header has as many values there as it was spelled in ways.
-/

set_option autoImplicit false

namespace DocumentClient.Http

open Attachment (LastGiven)
open Query (lastOfEach)

namespace Request

/-- One step in the making of a request. -/
inductive Step where
  | header (name value : String)
  | headers (pairs : List (String × String))
  | body (body : Bytes)
  | json (datum : Datum)

def step (request : Request) : Step → Except Error Request
  | .header name value => .ok (request.header name value)
  | .headers pairs => .ok (request.addHeaders pairs)
  | .body body => .ok (request.withBody body)
  | .json datum => request.json datum

/-- The request behind some steps. A step that fails changes nothing, and the next one is taken. -/
def steps (request : Request) (steps : List Step) : Request :=
  steps.foldl (fun request step => (request.step step).toOption.getD request) request

/-- The headers that a step sets, in their order. A datum that cannot be written sets none. -/
def Step.sets : Step → List (String × String)
  | .header name value => [(name, value)]
  | .headers pairs => pairs
  | .body _ => []
  | .json datum =>
    match encodeBody datum with
    | .ok _ => [("Content-Type", "application/json")]
    | .error _ => []

private theorem headers_step (request : Request) (step : Step) :
    ((request.step step).toOption.getD request).headers = request.headers.insertAll step.sets := by
  cases step with
  | header | headers | body => rfl
  | json datum =>
      rw [Request.step, json, Step.sets]
      cases encodeBody datum <;> rfl

private theorem headers_steps (request : Request) (steps : List Step) :
    (request.steps steps).headers = request.headers.insertAll (steps.flatMap Step.sets) := by
  induction steps generalizing request with
  | nil => rfl
  | cons step steps ih =>
      have later := ih ((request.step step).toOption.getD request)
      rw [headers_step] at later
      rw [List.flatMap_cons]
      exact later.trans List.foldl_append.symm

private theorem url_step (request : Request) (step : Step) :
    ((request.step step).toOption.getD request).url = request.url := by
  cases step with
  | header | headers | body => rfl
  | json datum =>
      rw [Request.step, json]
      cases encodeBody datum <;> rfl

private theorem url_steps (request : Request) (steps : List Step) :
    (request.steps steps).url = request.url := by
  induction steps generalizing request with
  | nil => rfl
  | cons step steps ih => exact (ih _).trans (url_step request step)

end Request

/-! ## Spellings -/

/-- All that was set for a header was set in one spelling. -/
def OneSpelling (sets : List (String × String)) (name : String) : Prop :=
  ∀ first ∈ sets, ∀ second ∈ sets, Text.lowerCase first.1 = name →
    Text.lowerCase second.1 = name → first.1 = second.1

/-- Each spelling of a header with the value that was last set in it. -/
def lastOfSpellings (sets : List (String × String)) (name : String) : List (String × String) :=
  (lastOfEach sets).filter fun set => Text.lowerCase set.1 = name

section

variable {sets before after : List (String × String)} {name spelling value : String}

private theorem mem_lastOfSpellings {set : String × String} :
    set ∈ lastOfSpellings sets name ↔ set ∈ lastOfEach sets ∧ Text.lowerCase set.1 = name := by
  simp [lastOfSpellings, List.mem_filter]

private theorem exists_mem_lastOfEach {set : String × String} (member : set ∈ sets) :
    ∃ last, (set.1, last) ∈ lastOfEach sets := by
  have named : set.1 ∈ (sets.map (·.1)).eraseDups := by
    rw [List.mem_eraseDups]
    exact List.mem_map_of_mem member
  exact ⟨_, List.mem_map_of_mem named⟩

private theorem exists_mem_of_mem_lastOfEach {set : String × String}
    (member : set ∈ lastOfEach sets) :
    ∃ value, (set.1, value) ∈ sets := by
  obtain ⟨name, named, rfl⟩ := List.mem_map.mp member
  rw [List.mem_eraseDups] at named
  obtain ⟨set, found, rfl⟩ := List.mem_map.mp named
  exact ⟨set.2, found⟩

private theorem mem_lastOfSpellings_of_lastGiven (given : LastGiven sets name value) :
    ∃ spelling, (spelling, value) ∈ lastOfSpellings sets name := by
  obtain ⟨before, spelling, after, rfl, named, last⟩ := given
  have found : (before ++ (spelling, value) :: after).reverse.lookup spelling = some value := by
    refine List.lookup_eq_some_iff.mpr ⟨after.reverse, before.reverse, by simp, ?_⟩
    intro set member
    refine bne_iff_ne.mpr fun same => ?_
    exact last set (List.mem_reverse.mp member) (same ▸ named)
  refine ⟨spelling, mem_lastOfSpellings.mpr ⟨List.mem_map.mpr ⟨spelling, by simp, ?_⟩, named⟩⟩
  rw [found, Option.getD_some]

private theorem eq_singleton_of_mem {set : String × String}
    (single : (lastOfSpellings sets name).length ≤ 1) (member : set ∈ lastOfSpellings sets name) :
    lastOfSpellings sets name = [set] := by
  obtain ⟨only, same⟩ := List.length_eq_one_iff.mp
    (Nat.le_antisymm single (List.length_pos_of_mem member))
  rw [same] at member ⊢
  rw [List.mem_singleton.mp member]

/-- A header has one value at most exactly if it was not set in two spellings. -/
theorem length_lastOfSpellings_le_one_iff :
    (lastOfSpellings sets name).length ≤ 1 ↔ OneSpelling sets name := by
  constructor
  · intro single first here second there named also
    obtain ⟨_, here⟩ := exists_mem_lastOfEach here
    obtain ⟨_, there⟩ := exists_mem_lastOfEach there
    have only := eq_singleton_of_mem single (mem_lastOfSpellings.mpr ⟨here, named⟩)
    have same := only ▸ mem_lastOfSpellings.mpr ⟨there, also⟩
    exact (Prod.mk.inj (List.mem_singleton.mp same)).1.symm
  · intro oneSpelling
    -- The spellings are apart, and each of them is the first one.
    have apart : ((lastOfSpellings sets name).map (·.1)).Nodup :=
      (Query.nodup_lastOfEach sets).sublist (List.filter_sublist.map _)
    cases found : lastOfSpellings sets name with
    | nil => exact Nat.zero_le 1
    | cons first rest =>
        have spelled : ∀ set ∈ first :: rest, set.1 = first.1 := by
          have own (set : String × String) (member : set ∈ first :: rest) :
              (∃ value, (set.1, value) ∈ sets) ∧ Text.lowerCase set.1 = name := by
            obtain ⟨last, named⟩ := mem_lastOfSpellings.mp (found ▸ member)
            exact ⟨exists_mem_of_mem_lastOfEach last, named⟩
          intro set member
          obtain ⟨⟨value, here⟩, named⟩ := own set member
          obtain ⟨⟨other, there⟩, also⟩ := own first List.mem_cons_self
          exact oneSpelling (set.1, value) here (first.1, other) there named also
        have repeated : (first :: rest).map (·.1) =
            List.replicate (first :: rest).length first.1 := by
          refine List.eq_replicate_iff.mpr ⟨List.length_map _, ?_⟩
          simpa using spelled
        rw [found, repeated] at apart
        exact List.nodup_replicate.mp apart

/-- Behind the last value of a header it has one spelling if it was not spelled otherwise before. -/
theorem oneSpelling_iff_before
    (last : ∀ set ∈ after, Text.lowerCase set.1 ≠ Text.lowerCase spelling) :
    OneSpelling (before ++ (spelling, value) :: after) (Text.lowerCase spelling) ↔
      ∀ set ∈ before, Text.lowerCase set.1 = Text.lowerCase spelling → set.1 = spelling := by
  constructor
  · intro oneSpelling set member named
    exact oneSpelling set (by simp [member]) (spelling, value) (by simp) named rfl
  · intro earlier
    have spelled : ∀ set ∈ before ++ (spelling, value) :: after,
        Text.lowerCase set.1 = Text.lowerCase spelling → set.1 = spelling := by
      intro set member named
      rcases List.mem_append.mp member with here | there
      · exact earlier set here named
      · rcases List.mem_cons.mp there with rfl | behind
        · rfl
        · exact absurd named (last set behind)
    intro first here second there named also
    exact (spelled first here named).trans (spelled second there also).symm

end

/-! ## What is sent -/

private theorem length_namesOf_append_le (headers : Wire.Headers) (header : String × Bytes) :
    (Wire.namesOf (headers ++ [header])).length ≤ (Wire.namesOf headers).length + 1 := by
  rw [Wire.namesOf, List.map_append, List.eraseDups_append, List.length_append]
  refine Nat.add_le_add_left ?_ _
  by_cases known : header.1 ∈ headers.map (·.1)
  · simp [List.removeAll, known]
  · simp [List.removeAll, known, List.eraseDups_cons]

/-- Where there is room for further headers, they are added exactly if each of them can be sent. -/
private theorem exists_foldlM_addSendable_iff {entries : List (String × String)}
    {done : Wire.Headers}
    (room : (Wire.namesOf done).length + entries.length ≤ Wire.greatestNames) :
    (∃ sent, entries.foldlM Wire.addSendable done = .ok sent) ↔
      ∀ header ∈ entries, ∃ sent, Wire.sendable header = .ok sent := by
  -- A header takes room for one name at most, so there is room for each of the others behind it.
  induction entries generalizing done with
  | nil => exact iff_of_true ⟨done, rfl⟩ (by simp)
  | cons header entries ih =>
      rw [List.length_cons] at room
      rw [List.foldlM_cons, List.forall_mem_cons]
      cases checked : Wire.sendable header with
      | error fault => simp [Wire.addSendable, checked, bind, Except.bind]
      | ok sent =>
          have added : Wire.addSendable done header = .ok (done ++ [sent]) := by
            rw [Wire.addSendable, checked]
            exact if_neg (by omega)
          have grown := length_namesOf_append_le done sent
          have roomBehind : (Wire.namesOf (done ++ [sent])).length + entries.length ≤
              Wire.greatestNames := by
            omega
          have others := ih roomBehind
          rw [added]
          exact others.trans ⟨fun all => ⟨⟨sent, rfl⟩, all⟩, fun all => all.2⟩

private theorem exists_sendableAll_iff {headers : TextMap}
    (room : headers.entries.length ≤ Wire.greatestNames) :
    (∃ sent, Wire.sendableAll headers = .ok sent) ↔
      ∀ header ∈ headers.entries, ∃ sent, Wire.sendable header = .ok sent :=
  exists_foldlM_addSendable_iff (by simpa [Wire.namesOf] using room)

private theorem exists_ofRequest_iff {request : Request}
    (room : request.headers.entries.length ≤ Wire.greatestNames) :
    (∃ message, Wire.Message.ofRequest request = .ok message) ↔
      (∃ target, Wire.Target.read request.url.text = .ok target) ∧
        ∀ header ∈ request.headers.entries, ∃ sent, Wire.sendable header = .ok sent := by
  rw [← exists_sendableAll_iff room]
  constructor
  · rintro ⟨message, made⟩
    obtain ⟨_, read, checked, _⟩ := Wire.Message.ofRequest_eq_ok made
    exact ⟨⟨_, read⟩, _, checked⟩
  · rintro ⟨⟨target, read⟩, headers, checked⟩
    rw [Wire.Message.ofRequest, read, checked]
    exact ⟨_, rfl⟩

private theorem valuesOf_ofRequest {request : Request} {message : Wire.Message}
    {sets : List (String × String)} (headers : request.headers.entries.Perm (lastOfEach sets))
    (made : Wire.Message.ofRequest request = .ok message) (name : String) :
    (Wire.valuesOf name message.headers).Perm ((lastOfSpellings sets name).map (utf8 ·.2)) := by
  obtain ⟨_, _, checked, _⟩ := Wire.Message.ofRequest_eq_ok made
  obtain ⟨sent, _⟩ := Wire.sendableAll_eq_ok checked
  rw [sent, Wire.valuesOf, List.filter_map, List.map_map]
  exact (headers.filter _).map _

/-- A request is sent with the values that were last set in each spelling of a header, if its URL
and these values can be sent and there is room for them. So a value that is set replaces the earlier
ones exactly if all were set in one spelling, as the step for data does where the kind of content
was spelled like there before. In which order the headers are gone through makes no difference. -/
theorem header_replaced_in_same_spelling (method : Method) (url : Url)
    (steps : List Request.Step) (arrange : TextMap.Arrangement) :
    let request := (({ method, url } : Request).steps steps).arranged arrange
    let sets := steps.flatMap Request.Step.sets
    ((lastOfEach sets).length ≤ Wire.greatestNames →
      ((∃ message, Wire.Message.ofRequest request = .ok message) ↔
        (∃ target, Wire.Target.read url.text = .ok target) ∧
          ∀ set ∈ lastOfEach sets, ∃ header, Wire.sendable set = .ok header)) ∧
    ∀ message, Wire.Message.ofRequest request = .ok message →
      (∀ name, (Wire.valuesOf name message.headers).Perm
        ((lastOfSpellings sets name).map (utf8 ·.2))) ∧
      (∀ name, (Wire.valuesOf name message.headers).length ≤ 1 ↔ OneSpelling sets name) ∧
      (∀ name value, LastGiven sets name value →
        utf8 value ∈ Wire.valuesOf name message.headers ∧
          (Wire.valuesOf name message.headers = [utf8 value] ↔ OneSpelling sets name)) ∧
      ∀ before datum after, steps = before ++ .json datum :: after →
        (∃ body, encodeBody datum = .ok body) →
        (∀ set ∈ after.flatMap Request.Step.sets, Text.lowerCase set.1 ≠ "content-type") →
          (Wire.valuesOf "content-type" message.headers = [utf8 "application/json"] ↔
            ∀ set ∈ before.flatMap Request.Step.sets,
              Text.lowerCase set.1 = "content-type" → set.1 = "Content-Type") := by
  intro request sets
  have headers : request.headers.entries.Perm (lastOfEach sets) := by
    have kept : (({ method, url } : Request).steps steps).headers.entries = lastOfEach sets := by
      rw [Request.headers_steps]
      exact Query.entries_ofList sets
    exact kept ▸ arrange.perm _
  have target : request.url = url := Request.url_steps _ steps
  constructor
  · intro room
    rw [exists_ofRequest_iff (headers.length_eq.trans_le room), target]
    simp only [headers.mem_iff]
  · intro message made
    have values (name : String) := valuesOf_ofRequest headers made name
    have atMostOne (name : String) :
        (Wire.valuesOf name message.headers).length ≤ 1 ↔ OneSpelling sets name := by
      rw [(values name).length_eq, List.length_map, length_lastOfSpellings_le_one_iff]
    have replaced (name value : String) (given : LastGiven sets name value) :
        utf8 value ∈ Wire.valuesOf name message.headers ∧
          (Wire.valuesOf name message.headers = [utf8 value] ↔ OneSpelling sets name) := by
      obtain ⟨spelling, member⟩ := mem_lastOfSpellings_of_lastGiven given
      rw [(values name).mem_iff, ← length_lastOfSpellings_le_one_iff]
      refine ⟨List.mem_map.mpr ⟨_, member, rfl⟩, fun only => ?_, fun single => ?_⟩
      · have length := (values name).length_eq
        rw [only, List.length_map] at length
        exact Nat.le_of_eq length.symm
      · have sent := values name
        rw [eq_singleton_of_mem single member] at sent
        exact List.perm_singleton.mp sent
    refine ⟨values, atMostOne, replaced, ?_⟩
    rintro before datum after rfl ⟨body, written⟩ last
    have cut : sets = before.flatMap Request.Step.sets ++
        ("Content-Type", "application/json") :: after.flatMap Request.Step.sets := by
      simp [sets, Request.Step.sets, written]
    have lower : Text.lowerCase "Content-Type" = "content-type" := by decide
    rw [(replaced _ _ ⟨_, _, _, cut, lower, last⟩).2, cut, ← lower]
    exact oneSpelling_iff_before (lower ▸ last)

/-- A kind of content that was set in the spelling of the step for data is replaced by it, and so is
a value that could not have been sent. -/
theorem data_replaces_content_type :
    let steps : List Request.Step :=
      [.header "Content-Type" "text/\n", .headers [("ETag", "1"), ("Etag", "2"), ("ETag", "3")],
        .json (.text "v")]
    let request := ({ method := .put, url := Settings.localhost.host } : Request).steps steps
    ∃ message, Wire.Message.ofRequest (request.arranged .stored) = .ok message ∧
      Wire.valuesOf "content-type" message.headers = [utf8 "application/json"] ∧
      (Wire.valuesOf "etag" message.headers).Perm [utf8 "2", utf8 "3"] := by
  intro steps request
  obtain ⟨sendable, sent⟩ :=
    header_replaced_in_same_spelling .put Settings.localhost.host steps .stored
  have last : lastOfEach (steps.flatMap Request.Step.sets) =
      [("Content-Type", "application/json"), ("ETag", "3"), ("Etag", "2")] := by
    decide +kernel
  have reached : ∃ target, Wire.Target.read Settings.localhost.host.text = .ok target :=
    ⟨⟨some "http", "localhost:8080", "/"⟩, by decide +kernel⟩
  have valid : ∀ set ∈ lastOfEach (steps.flatMap Request.Step.sets),
      ∃ header, Wire.sendable set = .ok header := by
    rw [last]
    simp only [List.forall_mem_cons]
    exact ⟨⟨_, rfl⟩, ⟨_, rfl⟩, ⟨_, rfl⟩, by simp⟩
  obtain ⟨message, made⟩ := (sendable (by rw [last]; decide)).mpr ⟨reached, valid⟩
  obtain ⟨values, _, _, data⟩ := sent message made
  have kind := data [.header "Content-Type" "text/\n",
    .headers [("ETag", "1"), ("Etag", "2"), ("ETag", "3")]] (.text "v") [] rfl ⟨_, rfl⟩ (by simp)
  have spelled : lastOfSpellings (steps.flatMap Request.Step.sets) "etag" =
      [("ETag", "3"), ("Etag", "2")] := by
    rw [lastOfSpellings, last]
    decide +kernel
  refine ⟨message, made, kind.mpr (by decide), ?_⟩
  have both := values "etag"
  rw [spelled] at both
  exact both.trans (.swap _ _ _)

/-- Another spelling of a header keeps its value. -/
theorem other_spelling_is_sent_too :
    ¬ ∀ (steps : List Request.Step) (arrange : TextMap.Arrangement) (message : Wire.Message),
      Wire.Message.ofRequest
          ((({ method := .put, url := Settings.localhost.host } : Request).steps steps).arranged
            arrange) = .ok message →
        ∀ name, (Wire.valuesOf name message.headers).length ≤ 1 := by
  intro claim
  let steps : List Request.Step := [.header "content-type" "text/plain", .json (.text "v")]
  let request := (({ method := .put, url := Settings.localhost.host } : Request).steps
    steps).arranged .stored
  have sent : (Wire.Message.ofRequest request).toOption.map
      (fun message => (Wire.valuesOf "content-type" message.headers).length) = some 2 := by
    decide +kernel
  cases made : Wire.Message.ofRequest request with
  | error fault => simp [made, Except.toOption] at sent
  | ok message =>
      have single := claim steps .stored message made "content-type"
      rw [made] at sent
      have two : (Wire.valuesOf "content-type" message.headers).length = 2 := Option.some.inj sent
      exact absurd (two ▸ single) (by decide)

end DocumentClient.Http
