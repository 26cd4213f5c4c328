import DocumentClient.Proofs.Outcome

/-!
# Attachments there and back

What a client reads from an answer that repeats what it has saved. The content comes back, and so
does all metadata but what is named like a header of the transport. Nothing else comes with it but
the kind of content, if no metadata has given one.
-/

set_option autoImplicit false

namespace DocumentClient.Attachment

/-- An upload with metadata that is added one by one. -/
def Upload.ofCalls (content : Bytes) (calls : List (String × String)) : Upload :=
  calls.foldl (fun upload call => upload.withMetadata call.1 call.2) { content }

/-- The last of all calls that give the metadata of a name, in whatever spelling, gives it this
value. -/
def LastGiven (calls : List (String × String)) (name value : String) : Prop :=
  ∃ before spelling after, calls = before ++ (spelling, value) :: after ∧
    Text.lowerCase spelling = name ∧ ∀ call ∈ after, Text.lowerCase call.1 ≠ name

def lowered (call : String × String) : String × String :=
  (Text.lowerCase call.1, call.2)

/-! ## What is sent -/

theorem foldl_withMetadata (calls : List (String × String)) (upload : Upload) :
    calls.foldl (fun upload call => upload.withMetadata call.1 call.2) upload =
      { upload with metadata := upload.metadata.insertAll (calls.map lowered) } := by
  induction calls generalizing upload with
  | nil => rfl
  | cons call calls ih => exact ih (upload.withMetadata call.1 call.2)

theorem content_ofCalls (content : Bytes) (calls : List (String × String)) :
    (Upload.ofCalls content calls).content = content :=
  congrArg Upload.content (foldl_withMetadata calls { content })

private theorem lastGiven_iff {calls : List (String × String)} {name value : String} :
    LastGiven calls name value ↔ (calls.map lowered).reverse.lookup name = some value := by
  rw [List.lookup_eq_some_iff, ← List.map_reverse]
  constructor
  · rintro ⟨before, spelling, after, rfl, rfl, last⟩
    refine ⟨after.reverse.map lowered, before.reverse.map lowered, by simp [lowered], ?_⟩
    intro pair member
    obtain ⟨call, later, rfl⟩ := List.mem_map.mp member
    exact bne_iff_ne.mpr (Ne.symm (last call (List.mem_reverse.mp later)))
  · rintro ⟨later, earlier, same, last⟩
    obtain ⟨after, rest, cut, rfl, behind⟩ := List.map_eq_append_iff.mp same
    obtain ⟨⟨spelling, given⟩, before, rfl, call, _⟩ := List.map_eq_cons_iff.mp behind
    obtain ⟨named, rfl⟩ := Prod.mk.inj call
    refine ⟨before.reverse, spelling, after.reverse, ?_, named, ?_⟩
    · simpa using congrArg List.reverse cut
    · intro call member
      have other := last (lowered call) (List.mem_map_of_mem (List.mem_reverse.mp member))
      exact Ne.symm (bne_iff_ne.mp other)

theorem get?_metadata_eq_some_iff {content : Bytes} {calls : List (String × String)}
    {name value : String} :
    (Upload.ofCalls content calls).metadata.get? name = some value ↔ LastGiven calls name value := by
  rw [Upload.ofCalls, foldl_withMetadata, TextMap.get?_insertAll, lastGiven_iff]
  exact iff_of_eq (congrArg (· = some value) Option.or_none)

private theorem get?_headers (upload : Upload) (name : String) :
    upload.headers.get? name = (upload.metadata.get? name).or
      (if name = contentTypeName then some Http.ContentType.octets.text else none) := by
  rw [Upload.headers, TextMap.get?_insertAll_entries, TextMap.ofList, TextMap.get?_insertAll,
    List.reverse_singleton, TextMap.lookup_entry, List.lookup_nil]
  exact congrArg _ Option.or_none

/-- What goes out is the metadata, and a kind of content where there is none in it. -/
theorem get?_headers_ofCalls_eq_some_iff {content : Bytes} {calls : List (String × String)}
    {name value : String} :
    (Upload.ofCalls content calls).headers.get? name = some value ↔
      LastGiven calls name value ∨
        name = contentTypeName ∧ value = Http.ContentType.octets.text ∧
          ∀ given, ¬ LastGiven calls name given := by
  have absent : (Upload.ofCalls content calls).metadata.get? name = none ↔
      ∀ given, ¬ LastGiven calls name given := by
    rw [Option.eq_none_iff_forall_ne_some]
    exact forall_congr' fun given => get?_metadata_eq_some_iff.not
  rw [get?_headers, Option.or_eq_some_iff, get?_metadata_eq_some_iff, absent]
  refine or_congr_right ?_
  by_cases named : name = contentTypeName
  · rw [if_pos named, Option.some_inj, and_iff_right named]
    exact and_comm.trans (and_congr_left' eq_comm)
  · simp [named]

/-! ## What is read -/

theorem get?_metadata_ofResponse (response : Http.Response) (name : String) :
    (ofResponse response).metadata.get? name =
      if Text.lowerCase name ∈ transportHeaders then none else response.headers.get? name := by
  rw [ofResponse, TextMap.get?_filterKeys]
  by_cases noise : Text.lowerCase name ∈ transportHeaders <;> simp [noise]

private theorem get?_metadata_of_repeated {upload : Upload} {response : Http.Response}
    (repeated : response.headers = (∅ : TextMap).insertAll upload.headers.entries)
    (name value : String) :
    (ofResponse response).metadata.get? name = some value ↔
      Text.lowerCase name ∉ transportHeaders ∧ upload.headers.get? name = some value := by
  have same : response.headers.get? name = upload.headers.get? name := by
    rw [repeated, TextMap.get?_insertAll_entries]
    exact Option.or_none
  rw [get?_metadata_ofResponse, same]
  by_cases noise : Text.lowerCase name ∈ transportHeaders <;> simp [noise]

/-- An attachment comes back from an answer that repeats what was sent: all its content, all its
metadata but what is named like a header of the transport, and a kind of content in any case. -/
theorem metadata_comes_back {σ τ : Type} (settings : Settings) (key : String) (content : Bytes)
    (calls : List (String × String)) (respond : σ → Http.Request → Http.Reply × σ) (start : σ)
    (answer : τ → Http.Request → Http.Reply × τ) (state : τ) {put : Http.Request}
    (sent : put ∈ ((save settings key (.ofCalls content calls)).run respond start).sent)
    (repeated : (answer state { method := .get, url := put.url }).1 =
      .ok { status := 200, headers := put.headers, body := put.body.getD [] }) :
    let run := (get settings key).run answer state
    put.method = .put ∧ run.sent = [{ method := .get, url := put.url }] ∧
      ∃ metadata, run.result = .ok ⟨content, metadata⟩ ∧
        ∀ name value, metadata.get? name = some value ↔
          Text.lowerCase name ∉ transportHeaders ∧
            (LastGiven calls name value ∨
              name = contentTypeName ∧ value = Http.ContentType.octets.text ∧
                ∀ given, ¬ LastGiven calls name given) := by
  let upload := Upload.ofCalls content calls
  have sent : put ∈ (((Call.save key upload).operation settings).run respond start).sent := sent
  obtain ⟨url, made⟩ := Call.exists_url_of_mem_sent sent
  obtain rfl := Call.eq_of_mem_sent made (fun _ => ⟨_, rfl⟩) sent
  have asked : (Call.get key).url settings = .ok url := made
  let response : Http.Response :=
    { status := 200, headers := (∅ : TextMap).insertAll upload.headers.entries,
      body := upload.content }
  have replied : (answer state ((Call.get key).request url)).1 = .ok response := repeated
  obtain ⟨result, handed⟩ := Prod.mk.inj
    ((Call.run_operation asked answer state).trans (Call.outcome_of_ends replied rfl))
  have whole : ofResponse response = ⟨content, (ofResponse response).metadata⟩ :=
    congrArg (Attachment.mk · _) (content_ofCalls content calls)
  refine ⟨rfl, handed, _, result.trans (congrArg Except.ok whole), fun name value => ?_⟩
  rw [get?_metadata_of_repeated rfl, get?_headers_ofCalls_eq_some_iff]

/-- A server that repeats the last upload. -/
def echo (kept : Option Http.Request) (request : Http.Request) :
    Http.Reply × Option Http.Request :=
  match request.method, kept with
  | .put, _ => (.ok { status := 201 }, some request)
  | .get, some put =>
    (.ok { status := 200, headers := put.headers, body := put.body.getD [] }, kept)
  | _, _ => (.ok { status := 404 }, kept)

/-- Of two spellings of a name the later one counts, and a kind of content that is given stays. -/
theorem latest_spelling_comes_back :
    let calls := [("Owner", "a"), ("OWNER", "b"), ("Content-Type", "image/png"), ("Date", "today")]
    let saved := (save Settings.localhost "k" (.ofCalls [1, 2] calls)).run echo none
    ∃ metadata, ((get Settings.localhost "k").run echo saved.state).result =
        .ok ⟨[1, 2], metadata⟩ ∧
      metadata.get? "owner" = some "b" ∧ metadata.get? "content-type" = some "image/png" ∧
        metadata.get? "date" = none := by
  intro calls saved
  let url : Url := { Settings.localhost.host with path := .absolute ["static", "k"] }
  let put := (Call.save "k" (.ofCalls [1, 2] calls)).request url
  have sent : put ∈ saved.sent := by decide +kernel
  have repeated : (echo saved.state { method := .get, url := put.url }).1 =
      .ok { status := 200, headers := put.headers, body := put.body.getD [] } := by decide +kernel
  obtain ⟨_, _, metadata, result, back⟩ := metadata_comes_back Settings.localhost "k" [1, 2] calls
    echo none echo saved.state sent repeated
  have owner : LastGiven calls "owner" "b" :=
    ⟨[("Owner", "a")], "OWNER", _, rfl, by decide, by decide⟩
  have kind : LastGiven calls "content-type" "image/png" :=
    ⟨[("Owner", "a"), ("OWNER", "b")], "Content-Type", _, rfl, by decide, by decide⟩
  refine ⟨metadata, result, ?_, ?_, ?_⟩
  · exact (back "owner" "b").mpr ⟨by decide, .inl owner⟩
  · exact (back "content-type" "image/png").mpr ⟨by decide, .inl kind⟩
  · refine Option.eq_none_iff_forall_ne_some.mpr fun value found => ?_
    exact ((back "date" value).mp found).1 (by decide)

/-- Metadata that is called like a header of the transport stays behind. -/
theorem date_does_not_come_back :
    ¬ ∀ (settings : Settings) (key : String) (content : Bytes) (calls : List (String × String))
        (put : Http.Request),
      let saved := (save settings key (.ofCalls content calls)).run echo none
      put ∈ saved.sent →
      (echo saved.state { method := .get, url := put.url }).1 =
        .ok { status := 200, headers := put.headers, body := put.body.getD [] } →
      ∃ metadata, ((get settings key).run echo saved.state).result = .ok ⟨content, metadata⟩ ∧
        ∀ name value, LastGiven calls name value → metadata.get? name = some value := by
  intro claim
  let calls := [("Date", "today")]
  let url : Url := { Settings.localhost.host with path := .absolute ["static", "k"] }
  let put := (Call.save "k" (.ofCalls [] calls)).request url
  obtain ⟨metadata, result, all⟩ :=
    claim Settings.localhost "k" [] calls put (by decide +kernel) (by decide +kernel)
  have given : LastGiven calls "date" "today" :=
    ⟨[], "Date", [], rfl, by decide, by simp⟩
  have kept := all "date" "today" given
  have read : ((get Settings.localhost "k").run echo
      ((save Settings.localhost "k" (.ofCalls [] calls)).run echo none).state).result.toOption.map
        (fun attachment => attachment.metadata.get? "date") = some none := by decide +kernel
  rw [result] at read
  simp [Except.toOption, kept] at read

end DocumentClient.Attachment
