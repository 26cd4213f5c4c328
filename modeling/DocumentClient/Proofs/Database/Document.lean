import DocumentClient.Proofs.Database.Directory
import DocumentClient.Proofs.Database.Elementwise
import DocumentClient.Proofs.Json.Writer

/-!
# The document of a database read back

A database is created by putting a document, and listed by reading this document with what the
server knows about it. Main statement: `document_is_read_back`, whatever the name, the document is
read as the record of the database, and nothing of the name is lost on the way.
-/

set_option autoImplicit false

namespace DocumentClient.Database

open Json
open PathSegment (Acceptable)

variable {name : String} {body : Bytes}

private theorem alone_map {α β : Type} {decoder : Decoder α} {levels : Nat} {element : Bytes}
    {value : α} (alone : Alone (decoder levels) element value) (change : α → β) :
    Alone (decoder.map change levels) element (change value) := by
  obtain ⟨behind, found⟩ := alone
  exact ⟨behind, Reader.run_bind_eq_ok.mpr ⟨value, behind, found, rfl⟩⟩

/-! ## What the server knows -/

theorem Metadata.alone_iff {block : Bytes} {metadata : Metadata} {levels : Nat} :
    Alone (Metadata.record.decoder (levels + 1)) block metadata ↔
      decodeBody Metadata.record.decoder block = .ok metadata := by
  rw [decodeBody_eq_ok, greatestDepth, Metadata.decoder_levels levels 126]
  rfl

def metadataMembers (metadata : Metadata) : List (String × String) :=
  ("@id", writeText metadata.id) :: metadata.etag.toList.map fun etag => ("@etag", writeText etag)

/-- The metadata of a document as an object. -/
def metadataText (metadata : Metadata) : String :=
  objectText (metadataMembers metadata)

private theorem closed_metadataMembers (metadata : Metadata) :
    ∀ member ∈ metadataMembers metadata, Closed (utf8 member.2) := by
  refine List.forall_mem_cons.mpr ⟨closed_writeText metadata.id, ?_⟩
  intro member inside
  obtain ⟨etag, _, rfl⟩ := List.mem_map.mp inside
  exact closed_writeText etag

private theorem takesMember_id (id : String) (levels : Nat) :
    TakesMember (Metadata.record.takeChange levels [] "@id") (utf8 (writeText id))
      fun metadata => { metadata with id } :=
  Json.Record.takesMember_takeChange rfl (by simp) (Target.text.needed "@id" _)
    (alone_map (alone_writeText id levels) _)

private theorem takesMember_etag (etag : String) (levels : Nat) :
    TakesMember (Metadata.record.takeChange levels ["@id"] "@etag") (utf8 (writeText etag))
      fun metadata => { metadata with etag := some etag } :=
  Json.Record.takesMember_takeChange rfl (by decide) (Target.text.optional.defaulted "@etag" _)
    (alone_map (alone_optional_writeText etag levels) _)

private theorem decode_metadataText (metadata : Metadata) :
    decodeBody Metadata.record.decoder (utf8 (metadataText metadata)) = .ok metadata := by
  have object := isObject_written (closed_metadataMembers metadata)
  refine (@Metadata.alone_iff _ _ 0).mp ?_
  obtain ⟨id, etag⟩ := metadata
  cases etag with
  | none =>
      have becomes : Metadata.record.Becomes 0 ([], {}) [("@id", utf8 (writeText id))]
          (["@id"], ⟨id, none⟩) := .more (takesMember_id id 0) (.done _)
      have complete : Metadata.record.missing? ["@id"] = none := by decide
      exact Json.Record.alone_of_isObject object becomes complete
  | some etag =>
      have becomes : Metadata.record.Becomes 0 ([], {})
          [("@id", utf8 (writeText id)), ("@etag", utf8 (writeText etag))]
          (["@etag", "@id"], ⟨id, some etag⟩) :=
        .more (takesMember_id id 0) (.more (takesMember_etag etag 0) (.done _))
      have complete : Metadata.record.missing? ["@etag", "@id"] = none := by decide
      exact Json.Record.alone_of_isObject object becomes complete

/-! ## Settings -/

def settingsText (name : String) : String :=
  objectText [(directorySetting, writeText (dataDirectory name))]

private theorem closed_settingsText (name : String) : Closed (utf8 (settingsText name)) :=
  closed_objectText (List.forall_mem_singleton.mpr (closed_writeText (dataDirectory name)))

private theorem isObject_settings (name : String) :
    IsObject [(directorySetting, utf8 (writeText (dataDirectory name)))] (utf8 (settingsText name)) :=
  isObject_written (List.forall_mem_singleton.mpr (closed_writeText (dataDirectory name)))

private theorem alone_settingsText (name : String) (levels : Nat) :
    Alone (textMap (levels + 1)) (utf8 (settingsText name))
      (TextMap.ofList [(directorySetting, dataDirectory name)]) := by
  have members : Alone (Json.members Json.text (levels + 1)) (utf8 (settingsText name))
      [(directorySetting, dataDirectory name)] := by
    refine members_of_isObject (lawful_text levels) (Target.text.skipsBlanks levels)
      (isObject_settings name) (List.forall₂_cons.mpr ⟨⟨rfl, ?_⟩, .nil⟩)
    dsimp only
    exact alone_writeText (dataDirectory name) levels
  exact alone_map members TextMap.ofList

/-! ## The document -/

private theorem documentText_eq (name : String) :
    Call.documentText name = objectText [("Settings", settingsText name)] :=
  rfl

private theorem isObject_document (name : String) :
    IsObject [("Settings", utf8 (settingsText name))] (utf8 (Call.documentText name)) := by
  rw [documentText_eq]
  exact isObject_written (List.forall_mem_singleton.mpr (closed_settingsText name))

/-! ## The document with what the server knows -/

variable {id : String} {etag : Option String} {block : Bytes}

private theorem takesMember_metadata {metadata : Metadata}
    (described : decodeBody Metadata.record.decoder block = .ok metadata) (seen : List String)
    (fresh : "@metadata" ∉ seen) (levels : Nat) :
    TakesMember (Record.record.takeChange (levels + 1) seen "@metadata") block
      fun record => { record with metadata } :=
  Json.Record.takesMember_takeChange rfl fresh (Metadata.target.needed "@metadata" _)
    (alone_map (Metadata.alone_iff.mpr described) _)

private theorem takesMember_settings (name : String) (seen : List String)
    (fresh : "Settings" ∉ seen) (levels : Nat) :
    TakesMember (Record.record.takeChange (levels + 1) seen "Settings") (utf8 (settingsText name))
      fun record =>
        { record with settings := TextMap.ofList [(directorySetting, dataDirectory name)] } :=
  Json.Record.takesMember_takeChange rfl fresh ((Target.text.members.map _).defaulted "Settings" _)
    (alone_map (alone_settingsText name levels) _)

/-- The record of a database that was created with this name. -/
def ownRecord (name : String) (metadata : Metadata) : Record where
  metadata
  settings := TextMap.ofList [(directorySetting, dataDirectory name)]

private theorem decode_added {metadata : Metadata}
    (described : decodeBody Metadata.record.decoder block = .ok metadata)
    {front back : List (String × Bytes)}
    (members : [("Settings", utf8 (settingsText name))] = front ++ back) {added : Bytes}
    (object : IsObject (front ++ ("@metadata", block) :: back) added) :
    decodeBody Record.record.decoder added = .ok (ownRecord name metadata) := by
  have whole {seen : List String} {members : List (String × Bytes)} (object : IsObject members added)
      (becomes : Record.record.Becomes 126 ([], {}) members (seen, ownRecord name metadata))
      (complete : Record.record.missing? seen = none) :
      decodeBody Record.record.decoder added = .ok (ownRecord name metadata) :=
    decodeBody_eq_ok.mpr (Json.Record.alone_of_isObject object becomes complete)
  obtain ⟨rfl, rfl⟩ | ⟨rfl, rfl⟩ := List.append_eq_singleton_iff.mp members.symm
  · have becomes : Record.record.Becomes 126 ([], {})
        [("@metadata", block), ("Settings", utf8 (settingsText name))]
        (["Settings", "@metadata"], ownRecord name metadata) :=
      .more (takesMember_metadata described [] (by simp) 125)
        (.more (takesMember_settings name ["@metadata"] (by decide) 125) (.done _))
    exact whole object becomes (by decide)
  · have becomes : Record.record.Becomes 126 ([], {})
        [("Settings", utf8 (settingsText name)), ("@metadata", block)]
        (["@metadata", "Settings"], ownRecord name metadata) :=
      .more (takesMember_settings name [] (by simp) 125)
        (.more (takesMember_metadata described ["Settings"] (by decide) 125) (.done _))
    exact whole object becomes (by decide)

/-- A body that is read as the record of a database with this name, wherever among its members the
server adds what it knows about the document, and with whatever blanks. -/
structure IsReadBack (name : String) (body : Bytes) (members : List (String × Bytes)) : Prop where
  object : IsObject members body
  addable (id : String) (etag : Option String) : ∃ block added,
    decodeBody Metadata.record.decoder block = .ok ⟨id, etag⟩ ∧
      IsObject (("@metadata", block) :: members) added
  read {front back : List (String × Bytes)} {block added : Bytes} {id : String}
      {etag : Option String} : members = front ++ back →
    decodeBody Metadata.record.decoder block = .ok ⟨id, etag⟩ →
    IsObject (front ++ ("@metadata", block) :: back) added →
      ∃ record, decodeBody Record.record.decoder added = .ok record ∧
        record.settings.entries = [("Raven/DataDir", "~/Tenants/" ++ name)] ∧
        (Info.ofRecord record).id = id ∧ (Info.ofRecord record).etag = etag ∧
        (Info.ofRecord record).lastModified = none ∧
        (Info.ofRecord record).dataDirectory = some ("~/Tenants/" ++ name)

private theorem isReadBack_document (name : String) :
    IsReadBack name (utf8 (Call.documentText name)) [("Settings", utf8 (settingsText name))] where
  object := isObject_document name
  addable id etag := by
    have closed : ∀ member ∈ [("@metadata", metadataText ⟨id, etag⟩), ("Settings", settingsText name)],
        Closed (utf8 member.2) := by
      refine List.forall_mem_cons.mpr ⟨?_, List.forall_mem_singleton.mpr (closed_settingsText name)⟩
      exact closed_objectText (closed_metadataMembers ⟨id, etag⟩)
    exact ⟨_, _, decode_metadataText ⟨id, etag⟩, isObject_written closed⟩
  read members described object := by
    refine ⟨_, decode_added described members object, rfl, rfl, rfl, rfl, ?_⟩
    exact (TextMap.get?_insert ∅ directorySetting (dataDirectory name) directorySetting).trans
      (if_pos rfl)

/-- An acceptable name is put where no database is found, and whatever is put is read back. -/
theorem document_is_read_back {settings : Settings} (accepted : settings.Accepted)
    (acceptable : Acceptable name) :
    ∃ url, (Call.create name).url settings = .ok url ∧
      ∀ {σ : Type} (respond : σ → Http.Request → Http.Reply × σ) (start : σ),
        let sent := ((create settings name).run respond start).sent
        (∀ response, (respond start { method := .get, url }).1 = .ok response →
          response.status = 404 → ∃ request ∈ sent, request.method = .put) ∧
        ∀ request ∈ sent, request.method = .put →
          ∃ body members, request.body = some body ∧ IsReadBack name body members := by
  obtain ⟨url, made⟩ := exists_documentUrl accepted acceptable
  have called : (Call.create name).url settings = .ok url := made
  refine ⟨url, called, fun respond start => ⟨fun response replied missing => ?_,
    fun request member put => ?_⟩⟩
  · have creates : (Call.create name).reaction response = .creates name () := if_pos missing
    have sent : ((create settings name).run respond start).sent =
        ((Call.create name).outcome respond start url).2 :=
      congrArg Prod.snd (Call.run_operation called respond start)
    rw [sent]
    exact ⟨_, Call.creation_mem_outcome replied creates, rfl⟩
  · obtain ⟨body, same, encoded⟩ :=
      @document_of_mem_sent name settings _ _ List.mem_cons_self _ _ _ member put
    obtain rfl := Except.ok.inj ((Call.encodeBody_document name).symm.trans encoded)
    exact ⟨_, _, same, isReadBack_document name⟩

/-- A name with a quote, a backslash, a line feed and a character outside the basic plane. -/
theorem special_name_is_read_back :
    let name := "\"\\\n😀"
    ∃ request ∈ ((create Settings.localhost name).run Operation.scripted
        [.ok { status := 404 }, .ok { status := 201 }]).sent, request.method = .put ∧
      ∃ body members, request.body = some body ∧ IsReadBack name body members := by
  intro name
  obtain ⟨url, _, run⟩ :=
    document_is_read_back Settings.accepted_localhost (by decide : Acceptable name)
  obtain ⟨exists_put, read⟩ :=
    run Operation.scripted [.ok { status := 404 }, .ok { status := 201 }]
  obtain ⟨request, member, put⟩ := exists_put { status := 404 } rfl rfl
  exact ⟨request, member, put, read request member put⟩

end DocumentClient.Database
