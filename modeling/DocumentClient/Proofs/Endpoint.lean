import DocumentClient.Attachment
import DocumentClient.Database.Requests
import DocumentClient.Proofs.Query.Compiled

/-!
# Endpoints

What a client addresses by names. Behind a plain host a name never changes the endpoint: either it
is refused, or the URL holds exactly that name at its place, and no query but the compiled one.
-/

set_option autoImplicit false

namespace DocumentClient

open PathSegment (AcceptablePath written)

namespace Attachment

theorem path_of_acceptable {key : String} (acceptable : AcceptablePath key) :
    path key = .ok (Text.join "/" (("static" :: Text.piecesOf '/' key).map written)) := by
  have fixed : written "static" = "static" := by decide
  have present : (Text.piecesOf '/' key).map written ≠ [] := by
    simp [Text.piecesOf_ne_nil]
  rw [path, PathSegment.encodePath_of_acceptable acceptable, List.map_cons, fixed,
    Text.join_cons _ _ present]
  rfl

theorem path_of_not_acceptable {key : String} (refused : ¬ AcceptablePath key) :
    ∃ misuse, path key = .error (.validation misuse) := by
  obtain ⟨misuse, failed⟩ := PathSegment.encodePath_of_not_acceptable refused "attachment key"
  rw [path, failed]
  exact ⟨misuse, rfl⟩

end Attachment

namespace Database

theorem documentPath_of_acceptable {name : String} (acceptable : PathSegment.Acceptable name) :
    documentPath name = .ok (Text.join "/" (["docs", "Raven", "Databases", name].map written)) := by
  have fixed : ["docs", "Raven", "Databases"].map written = ["docs", "Raven", "Databases"] := by
    decide
  rw [documentPath, PathSegment.encode_of_acceptable acceptable]
  change _ = Except.ok (Text.join "/"
    (["docs", "Raven", "Databases"].map written ++ [written name]))
  rw [fixed]
  exact congrArg Except.ok (String.toList_inj.mp (by simp [idStart, toString]))

theorem documentPath_of_not_acceptable {name : String}
    (refused : ¬ PathSegment.Acceptable name) :
    ∃ misuse, documentPath name = .error (.validation misuse) := by
  obtain ⟨misuse, failed⟩ := PathSegment.encode_of_not_acceptable refused "database name"
  rw [documentPath, failed]
  exact ⟨misuse, rfl⟩

end Database

/-- What a client addresses: the attachment of a key, the document of a database, or a query that
has been started at an index, or at none, and built in some steps. -/
inductive Endpoint where
  | attachment (key : String)
  | database (name : String)
  | query (index : Option String) (steps : List Query.Step)

namespace Endpoint

def path : Endpoint → Except Error String
  | .attachment key => Attachment.path key
  | .database name => Database.documentPath name
  | .query index steps => ((Query.State.start index).steps steps).compile.map Query.Compiled.text

def scope (settings : Settings) : Endpoint → Settings
  | .database _ => Database.scope settings
  | _ => settings

def urlFor (settings : Settings) (endpoint : Endpoint) : Except Error Url := do
  (endpoint.scope settings).urlFor (← endpoint.path)

/-! ## What is meant -/

/-- The database in which it is looked up. -/
def selected (settings : Settings) : Endpoint → Option String
  | .database _ => none
  | _ => settings.database

/-- The names that lead to it. The empty text names neither an index nor a collection. -/
def names : Endpoint → List String
  | .attachment key => "static" :: Text.piecesOf '/' key
  | .database name => ["docs", "Raven", "Databases", name]
  | .query index steps =>
    match index.filter (· ≠ ""), (Query.lastCollection? steps).filter (· ≠ "") with
    | some name, _ => "indexes" :: Text.piecesOf '/' name
    | none, some collection => ["indexes", "dynamic", collection]
    | none, none => ["indexes", "dynamic"]

/-- What a caller may name. A query without a name has to ask for something. -/
def Named : Endpoint → Prop
  | .attachment key => AcceptablePath key
  | .database name => PathSegment.Acceptable name
  | .query index steps =>
    match index.filter (· ≠ ""), (Query.lastCollection? steps).filter (· ≠ "") with
    | some name, _ => AcceptablePath name
    | none, some collection => PathSegment.Acceptable collection
    | none, none => ((Query.State.start index).steps steps).parameters ≠ []

def queryString? : Endpoint → Option String
  | .query index steps => ((Query.State.start index).steps steps).queryString?
  | _ => none

def allNames (settings : Settings) (endpoint : Endpoint) : List String :=
  (match endpoint.selected settings with
    | some name => ["databases", name]
    | none => []) ++ endpoint.names

def Acceptable (settings : Settings) (endpoint : Endpoint) : Prop :=
  (∀ database ∈ endpoint.selected settings, PathSegment.Acceptable database) ∧ endpoint.Named

end Endpoint

/-- A URL on the server of the host: behind the path of the host, without the slashes at its end,
there are segments that stand for the names, one for each, and no query but this one. -/
structure LeadsTo (host url : Url) (names : List String) (query : Option String) : Prop where
  scheme : url.scheme = host.scheme
  authority : url.authority = host.authority
  path : ∃ segments : List String,
    url.pathText.toList =
      host.pathText.toList.rdropWhile (· == '/') ++ Url.behindSlashes segments ∧
    (∀ segment ∈ segments, '/' ∉ segment.toList) ∧
    segments.map (fun segment => Percent.decode (utf8 segment)) = names.map utf8
  query : url.query = query
  fragment : url.fragment = none

namespace LeadsTo

variable {host first second : Url} {names others : List String}

private theorem toList_text {authority : Url.Authority} (named : host.authority = some authority)
    (leads : LeadsTo host first names none) :
    first.text.toList =
      (host.scheme ++ "://" ++ authority.text).toList ++ first.pathText.toList := by
  rw [Url.text, Url.separator, leads.scheme, leads.authority, leads.query, leads.fragment, named]
  simp

/-- URLs that lead to different names behind one host differ in writing. -/
theorem names_eq (named : host.authority ≠ none) (leads : LeadsTo host first names none)
    (other : LeadsTo host second others none) (same : first.text = second.text) :
    names = others := by
  obtain ⟨authority, named⟩ := Option.ne_none_iff_exists'.mp named
  obtain ⟨segments, path, apart, decoded⟩ := leads.path
  obtain ⟨more, otherPath, otherApart, otherDecoded⟩ := other.path
  have paths := congrArg String.toList same
  rw [leads.toList_text named, other.toList_text named, List.append_cancel_left_eq, path,
    otherPath, List.append_cancel_left_eq] at paths
  have segmentsSame := Url.behindSlashes_inj apart otherApart paths
  subst segmentsSame
  have utf8Injective : Function.Injective utf8 := fun _ _ => utf8_inj.mp
  exact List.map_injective_iff.mpr utf8Injective (decoded.symm.trans otherDecoded)

end LeadsTo

namespace Endpoint

variable {settings : Settings}

private theorem usable_scope (settings : Settings) (endpoint : Endpoint) :
    (endpoint.scope settings).Usable ↔
      ∀ name ∈ endpoint.selected settings, PathSegment.Acceptable name := by
  cases endpoint <;> exact Iff.rfl

private theorem query_eq_names (index : Option String) (steps : List Query.Step) :
    (Endpoint.query index steps).names = ((Query.State.start index).steps steps).names ∧
      ((Endpoint.query index steps).Named ↔
        ((Query.State.start index).steps steps).Acceptable) := by
  have target := Query.target_start_steps index steps
  simp only [names, Named, Query.State.names, Query.State.Acceptable, target]
  cases index.filter (· ≠ "") with
  | some name => exact ⟨rfl, Iff.rfl⟩
  | none =>
      dsimp only
      cases (Query.lastCollection? steps).filter (· ≠ "") with
      | some collection => exact ⟨rfl, Iff.rfl⟩
      | none => exact ⟨rfl, Iff.rfl⟩

instance (endpoint : Endpoint) : Decidable endpoint.Named :=
  match endpoint with
  | .attachment key => inferInstanceAs (Decidable (AcceptablePath key))
  | .database name => inferInstanceAs (Decidable (PathSegment.Acceptable name))
  | .query index steps => decidable_of_iff _ (query_eq_names index steps).2.symm

instance (settings : Settings) (endpoint : Endpoint) : Decidable (endpoint.Acceptable settings) :=
  have : Decidable (∀ name ∈ endpoint.selected settings, PathSegment.Acceptable name) :=
    decidable_of_iff _ (usable_scope settings endpoint)
  inferInstanceAs (Decidable (_ ∧ _))

private theorem path_of_not_named {endpoint : Endpoint} (refused : ¬ endpoint.Named) :
    ∃ misuse, endpoint.path = .error (.validation misuse) := by
  cases endpoint with
  | attachment key => exact Attachment.path_of_not_acceptable refused
  | database name => exact Database.documentPath_of_not_acceptable refused
  | query index steps =>
      rw [(query_eq_names index steps).2] at refused
      obtain ⟨misuse, failed⟩ := Query.State.compile_of_not_acceptable refused
      rw [path, failed]
      exact ⟨misuse, rfl⟩

private theorem acceptable_names {endpoint : Endpoint} (named : endpoint.Named) :
    ∀ name ∈ endpoint.names, PathSegment.Acceptable name := by
  cases endpoint with
  | attachment key => exact List.forall_mem_cons.mpr ⟨by decide, named⟩
  | database name =>
      have fixed : ∀ name ∈ ["docs", "Raven", "Databases"], PathSegment.Acceptable name := by
        decide
      exact List.forall_mem_append.mpr ⟨fixed, List.forall_mem_singleton.mpr named⟩
  | query index steps =>
      obtain ⟨sameNames, sameNamed⟩ := query_eq_names index steps
      rw [sameNames]
      exact Query.State.acceptable_names (sameNamed.mp named)

theorem path_of_named {endpoint : Endpoint} (named : endpoint.Named) :
    ∃ text, endpoint.path = .ok text ∧
      Settings.Written text (endpoint.names.map written) endpoint.queryString? := by
  have unasked : ∀ text ∈ (none : Option String), ∀ char ∈ text.toList,
      Percent.Kept (Url.inQuery true) char := by
    simp
  cases endpoint with
  | attachment key =>
      exact ⟨_, Attachment.path_of_acceptable named,
        Settings.written_of_acceptable (by simp [names]) (acceptable_names named) unasked
          (List.append_nil _).symm⟩
  | database name =>
      exact ⟨_, Database.documentPath_of_acceptable named,
        Settings.written_of_acceptable (by simp [names]) (acceptable_names named) unasked
          (List.append_nil _).symm⟩
  | query index steps =>
      obtain ⟨sameNames, sameNamed⟩ := query_eq_names index steps
      have acceptable := sameNamed.mp named
      refine ⟨((Query.State.start index).steps steps).compiled.text, ?_, ?_⟩
      · rw [path, Query.State.compile_of_acceptable acceptable]
        rfl
      · rw [sameNames]
        exact Query.State.written_compiled acceptable

private theorem host_scope (settings : Settings) (endpoint : Endpoint) :
    (endpoint.scope settings).host = settings.host := by
  cases endpoint <;> rfl

private theorem allNames_map_written (settings : Settings) (endpoint : Endpoint) :
    (endpoint.allNames settings).map written =
      (endpoint.scope settings).scopeSegments ++ endpoint.names.map written := by
  have fixed : written "databases" = "databases" := by decide
  have selected : endpoint.selected settings = (endpoint.scope settings).database := by
    cases endpoint <;> rfl
  rw [allNames, List.map_append, selected, Settings.scopeSegments]
  cases (endpoint.scope settings).database with
  | none => rfl
  | some name => rw [List.map_cons, fixed]; rfl

private theorem acceptable_allNames {endpoint : Endpoint}
    (acceptable : endpoint.Acceptable settings) :
    ∀ name ∈ endpoint.allNames settings, PathSegment.Acceptable name := by
  refine List.forall_mem_append.mpr ⟨?_, acceptable_names acceptable.2⟩
  split
  · rename_i name selected
    simpa using ⟨by decide, acceptable.1 name selected⟩
  · simp

private theorem urlFor_of_not_acceptable {endpoint : Endpoint}
    (refused : ¬ endpoint.Acceptable settings) :
    ∃ misuse, endpoint.urlFor settings = .error (.validation misuse) := by
  by_cases named : endpoint.Named
  · have unusable : ¬ (endpoint.scope settings).Usable := by
      rw [usable_scope]
      exact fun usable => refused ⟨usable, named⟩
    obtain ⟨text, found, _⟩ := path_of_named named
    obtain ⟨misuse, failed⟩ := Settings.urlFor_of_not_usable unusable text
    exact ⟨misuse, by rw [urlFor, found]; exact failed⟩
  · obtain ⟨misuse, failed⟩ := path_of_not_named named
    exact ⟨misuse, by rw [urlFor, failed]; rfl⟩

theorem urlFor_of_acceptable {endpoint : Endpoint} (accepted : settings.Accepted)
    (noQuery : settings.host.query = none) (noFragment : settings.host.fragment = none)
    (acceptable : endpoint.Acceptable settings) :
    ∃ url, endpoint.urlFor settings = .ok url ∧
      LeadsTo settings.host url (endpoint.allNames settings) endpoint.queryString? := by
  obtain ⟨number, authority, segments, canonical⟩ := Settings.canonical_of_accepted accepted
  obtain ⟨text, found, inPlace⟩ := path_of_named acceptable.2
  have usable := (usable_scope settings endpoint).mpr acceptable.1
  have resolved := Settings.urlFor_of_written ((host_scope settings endpoint).symm ▸ canonical)
    ((host_scope settings endpoint).symm ▸ noQuery)
    ((host_scope settings endpoint).symm ▸ noFragment) usable inPlace
  rw [List.append_assoc, ← allNames_map_written settings endpoint,
    host_scope settings endpoint] at resolved
  refine ⟨_, by rw [urlFor, found]; exact resolved, ?_⟩
  exact {
    scheme := rfl
    authority := canonical.named.symm
    path := by
      refine ⟨(endpoint.allNames settings).map written, ?_, ?_, ?_⟩
      · rw [Url.toList_pathText canonical.path,
          Settings.rdropWhile_behindSlashes canonical.settled, ← Url.behindSlashes_append]
        exact Url.toList_pathText rfl
      · intro text found
        obtain ⟨name, member, rfl⟩ := List.mem_map.mp found
        exact (Url.settled_written (acceptable_allNames acceptable name member)).slash_not_mem
      · rw [List.map_map]
        refine List.map_congr_left fun name _ => ?_
        rw [Function.comp_apply, PathSegment.decode_written]
    query := rfl
    fragment := rfl }

theorem leadsTo_of_urlFor {endpoint : Endpoint} {url : Url} (accepted : settings.Accepted)
    (noQuery : settings.host.query = none) (noFragment : settings.host.fragment = none)
    (made : endpoint.urlFor settings = .ok url) :
    endpoint.Acceptable settings ∧
      LeadsTo settings.host url (endpoint.allNames settings) endpoint.queryString? := by
  by_cases acceptable : endpoint.Acceptable settings
  · obtain ⟨found, resolved, leads⟩ := urlFor_of_acceptable accepted noQuery noFragment acceptable
    cases made.symm.trans resolved
    exact ⟨acceptable, leads⟩
  · obtain ⟨misuse, failed⟩ := urlFor_of_not_acceptable acceptable
    cases made.symm.trans failed

/-- Behind a plain host a URL is made exactly for acceptable names, and it leads to them. -/
theorem urlFor_leadsTo (accepted : settings.Accepted) (noQuery : settings.host.query = none)
    (noFragment : settings.host.fragment = none) (endpoint : Endpoint) :
    ((∃ url, endpoint.urlFor settings = .ok url) ↔ endpoint.Acceptable settings) ∧
      ∀ url, endpoint.urlFor settings = .ok url →
        LeadsTo settings.host url (endpoint.allNames settings) endpoint.queryString? := by
  by_cases acceptable : endpoint.Acceptable settings
  · obtain ⟨url, made, leads⟩ := urlFor_of_acceptable accepted noQuery noFragment acceptable
    constructor
    · exact ⟨fun _ => acceptable, fun _ => ⟨url, made⟩⟩
    · intro other found
      cases made.symm.trans found
      exact leads
  · obtain ⟨misuse, failed⟩ := urlFor_of_not_acceptable acceptable
    have never (url : Url) : endpoint.urlFor settings ≠ .ok url := by
      rw [failed]
      exact nofun
    constructor
    · constructor
      · intro made
        obtain ⟨url, found⟩ := made
        exact absurd found (never url)
      · intro named
        exact absurd named acceptable
    · intro url found
      exact absurd found (never url)

theorem attachment_leadsTo :
    ∃ settings url, Settings.ofHost "http://localhost:8080/raven//" = .ok settings ∧
      (Endpoint.attachment "%2e%2e/..\\é?").urlFor (settings.withDatabase "a/b") = .ok url ∧
      LeadsTo settings.host url ["databases", "a/b", "static", "%2e%2e", "..\\é?"] none := by
  let host : Url := { Settings.localhost.host with path := .absolute ["raven", "", ""] }
  have read : Settings.ofHost "http://localhost:8080/raven//" = .ok ⟨host, none⟩ := by
    decide +kernel
  have accepted : Settings.Accepted ⟨host, some "a/b"⟩ := ⟨_, _, read, rfl⟩
  obtain ⟨made, leads⟩ := urlFor_leadsTo accepted rfl rfl (.attachment "%2e%2e/..\\é?")
  obtain ⟨url, found⟩ := made.mpr (by decide +kernel)
  exact ⟨⟨host, none⟩, url, read, found, leads url found⟩

/-- An empty collection is no refused name, but none: the query then looks into all documents. -/
theorem empty_collection_not_refused :
    ¬ ∀ (settings : Settings) (collection : String) (steps : List Query.Step),
      settings.Accepted → settings.host.query = none → settings.host.fragment = none →
        ((∃ url, (Endpoint.query none (.collection collection :: steps)).urlFor settings =
            .ok url) ↔
          settings.Usable ∧ PathSegment.Acceptable collection) := by
  intro claim
  have made : (Endpoint.query none [.collection "", .take 5]).urlFor Settings.localhost =
      .ok { Settings.localhost.host with
        path := .absolute ["indexes", "dynamic"]
        query := some "pageSize=5" } := by
    decide +kernel
  have named := ((claim _ "" [.take 5] Settings.accepted_localhost rfl rfl).mp ⟨_, made⟩).2
  exact absurd named (by decide)

end Endpoint

end DocumentClient
