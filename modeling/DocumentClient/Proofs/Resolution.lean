import DocumentClient.Proofs.Url.Tail
import DocumentClient.Settings

/-!
# Resolving relative paths

Whatever relative path is resolved, only the selected database can be refused, and the URL names the
server of the host. Behind a host without query and fragment, segments that are settled stay the
last segments of the path.
-/

set_option autoImplicit false

namespace DocumentClient

namespace Settings

/-- The host was read from a text, in which a domain name beyond ASCII has its ASCII form: the host
of such a name is the one of its ASCII form. Any database may be selected, or none. -/
def Accepted (settings : Settings) : Prop :=
  ∃ text accepted, ofHost text = .ok accepted ∧ settings.host = accepted.host

/-- The selected database, if there is one, has an acceptable name. -/
def Usable (settings : Settings) : Prop :=
  ∀ database ∈ settings.database, PathSegment.Acceptable database

instance (settings : Settings) : Decidable settings.Usable :=
  match found : settings.database with
  | none => isTrue (by simp [Usable, found])
  | some database => decidable_of_iff (PathSegment.Acceptable database) (by simp [Usable, found])

def scopeSegments (settings : Settings) : List String :=
  match settings.database with
  | none => []
  | some database => ["databases", PathSegment.written database]

/-- The segments of a path without the empty ones at its end. -/
def ownSegments (segments : List String) : List String :=
  segments.rdropWhile (· == "")

def localhost : Settings where
  host :=
    ⟨"http", some ⟨"", none, some (.named "localhost"), some 8080⟩, .absolute [""], none, none⟩

theorem ofHost_localhost : ofHost "http://localhost:8080" = .ok localhost := by
  decide +kernel

theorem accepted_localhost : localhost.Accepted :=
  ⟨_, _, ofHost_localhost, rfl⟩

theorem accepted_of_host_eq {settings other : Settings} (accepted : settings.Accepted)
    (same : other.host = settings.host) : other.Accepted := by
  obtain ⟨text, original, read, host⟩ := accepted
  exact ⟨text, original, read, same.trans host⟩

private theorem parse_of_accepted {settings : Settings} (accepted : settings.Accepted) :
    ∃ text, Url.parse text = .ok settings.host ∧
      (settings.host.scheme = "http" ∨ settings.host.scheme = "https") := by
  obtain ⟨text, original, read, same⟩ := accepted
  unfold ofHost at read
  split at read
  · cases read
  · rename_i url parsed
    split at read
    · rename_i web
      cases read
      rw [same]
      exact ⟨text, parsed, web⟩
    · cases read

theorem canonical_of_accepted {settings : Settings} (accepted : settings.Accepted) :
    ∃ number authority segments, settings.host.Canonical number authority segments := by
  obtain ⟨text, parsed, web⟩ := parse_of_accepted accepted
  exact Url.canonical_of_parse parsed web

theorem settledTail_of_accepted {settings : Settings} (accepted : settings.Accepted) :
    settings.host.SettledTail := by
  obtain ⟨text, parsed, web⟩ := parse_of_accepted accepted
  exact Url.settledTail_of_parse parsed web

theorem authority_of_accepted {settings : Settings} (accepted : settings.Accepted) :
    settings.host.authority ≠ none := by
  obtain ⟨number, authority, segments, canonical⟩ := canonical_of_accepted accepted
  rw [canonical.named]
  exact Option.some_ne_none authority

/-! ## The composed text -/

open Url

variable {settings : Settings} {number : Nat} {authority : Authority} {segments : List String}

def tailText (url : Url) : List Char :=
  (url.query.map fun query => '?' :: query.toList).getD [] ++
    (url.fragment.map fun fragment => '#' :: fragment.toList).getD []

private theorem toList_text_of_parts {url : Url} (named : url.authority = some authority)
    (path : url.path = .absolute segments) :
    url.text.toList =
      front url.scheme authority ++ (behindSlashes segments ++ tailText url) := by
  have separator : url.separator = "" := by
    rw [Url.separator, named]
  have pathText := toList_pathText path
  rw [Url.text, separator, named, tailText, front]
  cases url.query <;> cases url.fragment <;> simp [pathText]

theorem toList_text {url : Url} (canonical : url.Canonical number authority segments) :
    url.text.toList =
      front url.scheme authority ++ (behindSlashes segments ++ tailText url) :=
  toList_text_of_parts canonical.named canonical.path

private theorem rdropWhile_front {url : Url} (canonical : url.Canonical number authority segments)
    (rest : List Char) :
    (front url.scheme authority ++ rest).rdropWhile (· == '/') =
      front url.scheme authority ++ rest.rdropWhile (· == '/') := by
  rcases List.eq_nil_or_concat authority.text.toList with empty | ⟨init, last, text⟩
  · exact absurd empty (authorityText_ne_nil canonical.canonical)
  · have inside : isAuthorityChar last = true := by
      refine isAuthorityChar_of_mem_text canonical.canonical ?_
      simp [text]
    have notSlash : ¬ (last == '/') = true := by
      rw [beq_iff_eq]
      intro same
      subst same
      exact absurd inside (by decide)
    have shape (rest : List Char) : front url.scheme authority ++ rest =
        (url.scheme.toList ++ "://".toList ++ init) ++ last :: rest := by
      simp [front, text]
    rw [shape, Text.rdropWhile_append_cons (· == '/') notSlash, shape]

theorem rdropWhile_behindSlashes (settled : ∀ segment ∈ segments, Settled segment) :
    (behindSlashes segments).rdropWhile (· == '/') = behindSlashes (ownSegments segments) := by
  -- From the end: an empty segment is one slash more to drop, and any other ends in something else.
  induction segments using List.reverseRecOn with
  | nil => rfl
  | append_singleton segments last ih =>
      have earlier := ih fun segment member => settled segment (List.mem_append_left _ member)
      by_cases empty : last = ""
      · have own : ownSegments (segments ++ [last]) = ownSegments segments :=
          List.rdropWhile_concat_pos _ _ _ (by simp [empty])
        have text : behindSlashes (segments ++ [last]) = behindSlashes segments ++ ['/'] := by
          simp [behindSlashes, empty]
        rw [own, ← earlier, text, List.rdropWhile_concat_pos _ _ _ rfl]
      · have own : ownSegments (segments ++ [last]) = segments ++ [last] :=
          List.rdropWhile_concat_neg _ _ _ (by simpa using empty)
        rcases List.eq_nil_or_concat last.toList with none | ⟨init, char, chars⟩
        · exact absurd (String.toList_eq_nil_iff.mp none) empty
        · have notSlash : ¬ (char == '/') = true :=
            (settled last (by simp)).not_slash (by simp [chars])
          have text : behindSlashes (segments ++ [last]) =
              (behindSlashes segments ++ '/' :: init) ++ [char] := by
            simp [behindSlashes, chars]
          rw [own, text, List.rdropWhile_concat_neg (· == '/') _ _ notSlash]

theorem toList_root (canonical : settings.host.Canonical number authority segments) :
    settings.root.toList = front settings.host.scheme authority ++
      (behindSlashes segments ++ tailText settings.host).rdropWhile (· == '/') := by
  rw [root, String.toList_ofList, toList_text canonical]
  exact rdropWhile_front canonical _

private theorem toList_root_of_plain (canonical : settings.host.Canonical number authority segments)
    (noQuery : settings.host.query = none) (noFragment : settings.host.fragment = none) :
    settings.root.toList =
      front settings.host.scheme authority ++ behindSlashes (ownSegments segments) := by
  rw [toList_root canonical, tailText, noQuery, noFragment]
  simp [rdropWhile_behindSlashes canonical.settled]

private theorem compose_of_usable (usable : settings.Usable) (path : String) :
    ∃ text, settings.compose path = .ok text ∧
      text.toList = settings.root.toList ++ behindSlashes settings.scopeSegments ++
        '/' :: (relative path).toList := by
  unfold compose
  split
  · rename_i unselected
    exact ⟨_, rfl, by simp [behindSlashes, scopeSegments, unselected]⟩
  · rename_i database selected
    rw [PathSegment.encode_of_acceptable (usable database selected)]
    exact ⟨_, rfl, by simp [behindSlashes, scopeSegments, selected]⟩

private theorem compose_of_not_usable (unusable : ¬ settings.Usable) (path : String) :
    ∃ misuse, settings.compose path = .error misuse := by
  unfold compose
  split
  · rename_i unselected
    exact absurd (by simp [Usable, unselected]) unusable
  · rename_i database selected
    have refused : ¬ PathSegment.Acceptable database := by
      intro acceptable
      exact unusable (by simpa [Usable, selected] using acceptable)
    obtain ⟨misuse, failed⟩ := PathSegment.encode_of_not_acceptable refused "database name"
    rw [failed]
    exact ⟨misuse, rfl⟩

/-! ## Resolution -/

theorem urlFor_of_not_usable (unusable : ¬ settings.Usable) (path : String) :
    ∃ misuse, settings.urlFor path = .error (.validation misuse) := by
  obtain ⟨misuse, failed⟩ := compose_of_not_usable unusable path
  rw [urlFor, failed]
  exact ⟨misuse, rfl⟩

theorem urlFor_of_composed {path text : String} {url : Url}
    (composed : settings.compose path = .ok text) (parsed : Url.parse text = .ok url) :
    settings.urlFor path = .ok url := by
  rw [urlFor, composed]
  change (Url.parse text).mapError Error.invalidUrl = _
  rw [parsed]
  rfl

private theorem parse_of_urlFor {path text : String} {url : Url}
    (composed : settings.compose path = .ok text) (found : settings.urlFor path = .ok url) :
    Url.parse text = .ok url := by
  rw [urlFor, composed] at found
  change (Url.parse text).mapError Error.invalidUrl = _ at found
  exact ok_of_mapError found

private theorem urlFor_of_text {path text : String} {rest : List Char}
    (canonical : settings.host.Canonical number authority segments)
    (composed : settings.compose path = .ok text)
    (shape : text.toList = front settings.host.scheme authority ++ '/' :: rest) :
    settings.urlFor path =
      .ok (behindFront settings.host.scheme number authority (stripEnd rest)) := by
  have parsed := parse_front canonical rest
  rw [← shape, String.ofList_toList] at parsed
  exact urlFor_of_composed composed parsed

/-- Every path leads to the server of the host, unless the selected database is refused. -/
theorem urlFor_of_usable (canonical : settings.host.Canonical number authority segments)
    (usable : settings.Usable) (path : String) :
    ∃ rest, settings.urlFor path =
      .ok (behindFront settings.host.scheme number authority rest) := by
  obtain ⟨text, composed, shape⟩ := compose_of_usable usable path
  have slashed : ∃ rest,
      (behindSlashes segments ++ tailText settings.host).rdropWhile (· == '/') ++
        (behindSlashes settings.scopeSegments ++ '/' :: (relative path).toList) = '/' :: rest := by
    have trimmed : (behindSlashes segments ++ tailText settings.host).rdropWhile (· == '/') <+:
        behindSlashes segments ++ tailText settings.host := List.rdropWhile_prefix _ _
    rw [behindSlashes_eq_cons canonical.present, List.cons_append] at trimmed
    -- Either all of it was slashes, and the slash of the relative path follows the authority.
    rcases List.prefix_cons_iff.mp trimmed with nothing | ⟨more, found, _⟩
    · rw [behindSlashes_eq_cons canonical.present, List.cons_append, nothing]
      cases settings.scopeSegments <;> exact ⟨_, rfl⟩
    · rw [behindSlashes_eq_cons canonical.present, List.cons_append, found]
      exact ⟨_, rfl⟩
  obtain ⟨rest, slashed⟩ := slashed
  rw [toList_root canonical, List.append_assoc, List.append_assoc, slashed] at shape
  exact ⟨_, urlFor_of_text canonical composed shape⟩

/-! ## Behind a plain host -/

def queryText (query : Option String) : List Char :=
  (query.map fun text => '?' :: text.toList).getD []

/-- What stands behind a plain host: segments, and a query string that needs no escape. -/
structure Written (path : String) (more : List String) (query : Option String) : Prop where
  text : path.toList = List.intercalate ['/'] (more.map String.toList) ++ queryText query
  first : more.head?.all (· ≠ "") = true
  present : more ≠ []
  settled : ∀ segment ∈ more, Settled segment
  kept : ∀ text ∈ query, ∀ char ∈ text.toList, Percent.Kept (inQuery true) char

theorem written_of_acceptable {names : List String} (present : names ≠ [])
    (acceptable : ∀ name ∈ names, PathSegment.Acceptable name) {query : Option String}
    (kept : ∀ text ∈ query, ∀ char ∈ text.toList, Percent.Kept (inQuery true) char)
    {path : String}
    (text : path.toList =
      (Text.join "/" (names.map PathSegment.written)).toList ++ queryText query) :
    Written path (names.map PathSegment.written) query where
  text := by rw [text, Text.toList_join]; rfl
  first := by
    cases names with
    | nil => exact absurd rfl present
    | cons name names =>
        have filled := PathSegment.written_ne_empty (acceptable name List.mem_cons_self)
        simpa using filled
  present := by simpa using present
  settled := by
    intro text found
    obtain ⟨name, member, rfl⟩ := List.mem_map.mp found
    exact settled_written (acceptable name member)
  kept := kept

private theorem queryText_eq_tailOf (query : Option String) :
    queryText query = tailOf (query.map String.toList) none := by
  cases query <;> simp [queryText, tailOf]

theorem head_of_written {path : String} {more : List String} {query : Option String}
    (written : Written path more query) :
    ∃ char others, path.toList = char :: others ∧ ¬ (char == '/') = true := by
  cases more with
  | nil => exact absurd rfl written.present
  | cons segment more =>
      have filled : segment ≠ "" := by simpa using written.first
      cases chars : segment.toList with
      | nil => exact absurd (String.toList_eq_nil_iff.mp chars) filled
      | cons char rest =>
          have notSlash : ¬ (char == '/') = true :=
            (written.settled segment List.mem_cons_self).not_slash (by simp [chars])
          have leading : ∃ others, path.toList = char :: others := by
            rw [written.text]
            cases more <;> simp [chars]
          obtain ⟨others, text⟩ := leading
          exact ⟨char, others, text, notSlash⟩

theorem relative_of_written {path : String} {more : List String} {query : Option String}
    (written : Written path more query) : relative path = path := by
  obtain ⟨char, others, text, notSlash⟩ := head_of_written written
  rw [relative, text, List.dropWhile_cons, if_neg notSlash, ← text, String.ofList_toList]

theorem settled_scopeSegments (usable : settings.Usable) :
    ∀ segment ∈ settings.scopeSegments, Settled segment := by
  unfold scopeSegments
  split
  · simp
  · rename_i database selected
    simp only [List.mem_cons, List.not_mem_nil, or_false]
    intro segment member
    rcases member with rfl | rfl
    · exact ⟨List.all_eq_true.mp (by decide), by decide, by decide⟩
    · exact settled_written (usable database selected)

private theorem compose_of_written (canonical : settings.host.Canonical number authority segments)
    (noQuery : settings.host.query = none) (noFragment : settings.host.fragment = none)
    (usable : settings.Usable) {path : String} {more : List String} {query : Option String}
    (written : Written path more query) :
    ∃ text, settings.compose path = .ok text ∧
      text.toList = front settings.host.scheme authority ++
        behindSlashes (ownSegments segments ++ settings.scopeSegments ++ more) ++
          queryText query := by
  obtain ⟨text, composed, shape⟩ := compose_of_usable usable path
  refine ⟨text, composed, ?_⟩
  rw [shape, toList_root_of_plain canonical noQuery noFragment, relative_of_written written,
    written.text, ← List.cons_append, ← behindSlashes_eq_cons written.present,
    behindSlashes_append, behindSlashes_append]
  simp only [List.append_assoc]

/-- Behind a plain host, settled segments stay the last segments of the path, and the query string
is the query. -/
theorem urlFor_of_written (canonical : settings.host.Canonical number authority segments)
    (noQuery : settings.host.query = none) (noFragment : settings.host.fragment = none)
    (usable : settings.Usable) {path : String} {more : List String} {query : Option String}
    (written : Written path more query) :
    settings.urlFor path =
      .ok ⟨settings.host.scheme, some authority,
        .absolute (ownSegments segments ++ settings.scopeSegments ++ more), query, none⟩ := by
  obtain ⟨text, composed, whole⟩ :=
    compose_of_written canonical noQuery noFragment usable written
  have settled : ∀ segment ∈ ownSegments segments ++ settings.scopeSegments ++ more,
      Settled segment := by
    simp only [List.mem_append]
    intro segment member
    rcases member with (member | member) | member
    · exact canonical.settled segment ((List.rdropWhile_prefix _ _).mem member)
    · exact settled_scopeSegments usable segment member
    · exact written.settled segment member
  have present : ownSegments segments ++ settings.scopeSegments ++ more ≠ [] := by
    simp [written.present]
  have kept : ∀ chars ∈ query.map String.toList, ∀ char ∈ chars,
      Percent.Kept (inQuery true) char := by
    intro chars found
    obtain ⟨own, asked, rfl⟩ := Option.map_eq_some_iff.mp found
    exact written.kept own asked
  have solid : ∀ char ∈ tailOf (query.map String.toList) none, isBlank char = false := by
    intro char member
    rcases mem_tailOf member with rfl | rfl | ⟨chars, found, inside⟩ | ⟨_, absent, _⟩
    · decide
    · decide
    · exact not_isBlank_of_kept (by decide) (kept chars found char inside)
    · cases absent
  rw [queryText_eq_tailOf] at whole
  have parsed := parse_behindSlashes canonical settled present solid
    (fun chars found => hash_not_mem_of_kept (kept chars found)) whole
  rw [urlFor_of_composed composed parsed]
  have unescaped : (query.map String.toList).map (escape (inQuery true)) = query := by
    cases query with
    | none => rfl
    | some text => exact congrArg some (escape_of_kept (written.kept text rfl))
  rw [unescaped]
  rfl

/-- Reading the composed text then changes nothing of it. -/
theorem urlFor_keeps_text (canonical : settings.host.Canonical number authority segments)
    (noQuery : settings.host.query = none) (noFragment : settings.host.fragment = none)
    (usable : settings.Usable) {path : String} {more : List String} {query : Option String}
    (written : Written path more query) :
    ∃ url text, settings.urlFor path = .ok url ∧ settings.compose path = .ok text ∧
      Url.parse text = .ok url ∧ url.text = text := by
  obtain ⟨text, composed, whole⟩ :=
    compose_of_written canonical noQuery noFragment usable written
  have found := urlFor_of_written canonical noQuery noFragment usable written
  refine ⟨_, text, found, composed, parse_of_urlFor composed found, ?_⟩
  rw [← String.toList_inj, whole, toList_text_of_parts rfl rfl, tailText, queryText]
  simp

end Settings

end DocumentClient
