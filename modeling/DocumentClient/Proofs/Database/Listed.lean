import DocumentClient.Proofs.Database.Registry

/-!
# Databases by their listed names

A database is listed under what follows the last slash of its id. For a name without a slash that is
the name, and what is listed can be asked for and removed. A name with a slash, which is as
acceptable, is listed like another database, if there can be one that is called so.
-/

set_option autoImplicit false

namespace DocumentClient.Database

open PathSegment (Acceptable)

variable {settings : Settings} {name : String} {url : Url}

/-! ## Ids -/

def documentId (name : String) : String :=
  idStart ++ "/" ++ name

private theorem decode_documentPath {path : String} (named : documentPath name = .ok path) :
    Percent.decode (utf8 path) = utf8 ("docs/" ++ documentId name) := by
  by_cases acceptable : Acceptable name
  · have plain : ∀ byte ∈ utf8 s!"docs/{idStart}/", byte ≠ 37 := by decide +kernel
    rw [documentPath, PathSegment.encode_of_acceptable acceptable] at named
    obtain rfl := Except.ok.inj named
    rw [utf8_append, Percent.decode_append plain, PathSegment.decode_written, ← utf8_append]
    exact congrArg utf8 (String.toList_inj.mp (by simp [documentId, idStart, toString]))
  · obtain ⟨misuse, failed⟩ := documentPath_of_not_acceptable acceptable
    cases named.symm.trans failed

private theorem name_of_documentId {record : Record} (own : record.metadata.id = documentId name) :
    (Info.ofRecord record).name = Text.afterLast '/' name := by
  rw [Info.ofRecord, own, documentId]
  exact Text.afterLast_append idStart name

/-! ## What a name reaches -/

/-- Whoever replies, asking for a database by this name and removing it are about this URL. -/
structure Reaches (settings : Settings) (name : String) (url : Url) : Prop where
  contains {σ : Type} (respond : σ → Http.Request → Http.Reply × σ) (start : σ) :
    ((Database.contains settings name).run respond start).sent = [{ method := .get, url }]
  remove {σ : Type} (respond : σ → Http.Request → Http.Reply × σ) (start : σ) :
    ((Database.remove settings name).run respond start).sent = [{ method := .delete, url }]

private theorem contains_ends (name : String) (response : Http.Response) :
    ∃ result, (Call.contains name).reaction response = .ends result := by
  unfold Call.reaction Call.whether
  split <;> exact ⟨_, rfl⟩

private theorem reaches_iff :
    Reaches settings name url ↔ (Endpoint.database name).urlFor settings = .ok url := by
  constructor
  · intro reaches
    -- Any replies will do: what is asked for shows the URL.
    have sent := reaches.contains Operation.scripted []
    have member : { method := .get, url } ∈
        (((Call.contains name).operation settings).run Operation.scripted []).sent :=
      sent ▸ List.mem_singleton_self _
    obtain ⟨another, made⟩ := Call.exists_url_of_mem_sent member
    have same := Call.eq_of_mem_sent made (contains_ends name) member
    obtain rfl : url = another := congrArg Http.Request.url same
    exact made
  · intro made
    constructor
    case contains =>
      intro σ respond start
      have called : (Call.contains name).url settings = .ok url := made
      exact (congrArg Prod.snd (Call.run_operation called respond start)).trans
        (Call.sent_of_ends (contains_ends name) respond start url)
    case remove =>
      intro σ respond start
      have called : (Call.drop name).url settings = .ok url := made
      exact (congrArg Prod.snd (Call.run_operation called respond start)).trans
        (Call.sent_of_ends (fun _ => ⟨_, rfl⟩) respond start url)

/-! ## Listings -/

/-- A listed name by which a database is found again: its own, which reaches its document, and which
no other database without a slash in its name is listed under. -/
structure Finds (settings : Settings) (name listed : String) (url : Url) : Prop where
  own : listed = name
  reaches : Reaches settings listed url
  alone (other : String) (record : Record) : record.metadata.id = documentId other →
    '/' ∉ other.toList → (Info.ofRecord record).name = listed → other = name

/-- A listed name that is taken for another one: a database called so is listed likewise, and
whatever the listed name reaches is not the document that was listed. -/
structure Misleads (settings : Settings) (name listed : String) (url : Url) : Prop where
  foreign : listed ≠ name
  shared (record : Record) : record.metadata.id = documentId listed →
    (Info.ofRecord record).name = listed
  elsewhere : settings.host.query = none → settings.host.fragment = none →
    ∀ another, Reaches settings listed another → another.text ≠ url.text

/-- A database is listed under the last piece of its name. It is found again by that if there is no
slash in its name, and otherwise the listed name misleads. -/
theorem listed_under_last_piece (accepted : settings.Accepted) (acceptable : Acceptable name)
    {record : Record} (own : record.metadata.id = documentId name) :
    let listed := (Info.ofRecord record).name
    listed = Text.afterLast '/' name ∧
      ∃ path url, documentPath name = .ok path ∧
        Percent.decode (utf8 path) = utf8 ("docs/" ++ documentId name) ∧
        (Call.create name).url settings = .ok url ∧
        ('/' ∉ name.toList → Finds settings name listed url) ∧
        ('/' ∈ name.toList → Misleads settings name listed url) := by
  intro listed
  have last : listed = Text.afterLast '/' name := name_of_documentId own
  have whole {text : String} (plain : '/' ∉ text.toList) : Text.afterLast '/' text = text :=
    Text.afterLast_eq_self_iff.mpr plain
  obtain ⟨url, made⟩ := exists_documentUrl accepted acceptable
  obtain ⟨path, named, _⟩ := ok_of_bind made
  refine ⟨last, path, url, named, decode_documentPath named, made, fun plain => ?_,
    fun slashed => ?_⟩
  · have same : listed = name := last.trans (whole plain)
    constructor
    case own => exact same
    case reaches => exact same ▸ reaches_iff.mpr made
    case alone =>
      intro other another id otherPlain alike
      rw [← whole otherPlain, ← name_of_documentId id, alike, same]
  · have foreign : listed ≠ name := by
      rw [last]
      exact fun same => Text.afterLast_eq_self_iff.mp same slashed
    constructor
    case foreign => exact foreign
    case shared =>
      intro another id
      have plain : '/' ∉ listed.toList := last ▸ Text.separator_not_mem_afterLast '/' name
      rw [name_of_documentId id, whole plain]
    case elsewhere =>
      intro noQuery noFragment another reaches same
      exact foreign
        (eq_of_text_eq accepted noQuery noFragment (reaches_iff.mp reaches) made same)

/-- Two databases that are listed alike. -/
theorem foo_listed_twice :
    let plain : Record := { metadata := { id := "Raven/Databases/foo" } }
    let nested : Record := { metadata := { id := "Raven/Databases/tenants/foo" } }
    (Info.ofRecord plain).name = "foo" ∧ (Info.ofRecord nested).name = "foo" ∧
      ∃ url another, (Call.create "foo").url Settings.localhost = .ok url ∧
        (Call.create "tenants/foo").url Settings.localhost = .ok another ∧
        Reaches Settings.localhost "foo" url ∧ url.text ≠ another.text := by
  intro plain nested
  obtain ⟨_, _, url, _, _, made, finds, _⟩ := listed_under_last_piece Settings.accepted_localhost
    (by decide : Acceptable "foo") (by decide : plain.metadata.id = documentId "foo")
  obtain ⟨last, _, another, _, _, otherMade, _, misleads⟩ :=
    listed_under_last_piece Settings.accepted_localhost (by decide : Acceptable "tenants/foo")
      (by decide : nested.metadata.id = documentId "tenants/foo")
  have found := finds (by decide)
  have reaches : Reaches Settings.localhost "foo" url := found.own ▸ found.reaches
  have listed : (Info.ofRecord nested).name = "foo" := last.trans (by decide)
  rw [listed] at misleads
  exact ⟨found.own, listed, url, another, made, otherMade, reaches,
    (misleads (by decide)).elsewhere rfl rfl url reaches⟩

/-- An acceptable name is not always the one that it is listed under. -/
theorem name_with_slash_not_listed :
    ¬ ∀ (name : String) (record : Record), Acceptable name →
      record.metadata.id = documentId name → (Info.ofRecord record).name = name := by
  intro claim
  let record : Record := { metadata := { id := "Raven/Databases/tenants/foo" } }
  have named := claim "tenants/foo" record (by decide) (by decide)
  exact absurd named (by decide)

end DocumentClient.Database
