import DocumentClient.Proofs.Server

/-!
# Hosts as roots

Where a plain path goes. Behind a host without query and fragment it is the end of the URL's path. A
host with a query or a fragment is accepted too, but its text goes on with the last of them: the
path of the URL is then the host's own, and the relative path belongs to the query or the fragment.
-/

set_option autoImplicit false

namespace DocumentClient.Settings

open Url

/-- A character that no part of a URL escapes and no segment gives a meaning to. -/
def isPlain (char : Char) : Bool :=
  char.isAlphanum || char == '-' || char == '_' || char == '~'

def PlainPath (path : String) : Prop :=
  ∀ segment ∈ Text.piecesOf '/' path, segment ≠ "" ∧ ∀ char ∈ segment.toList, isPlain char = true

instance (path : String) : Decidable (PlainPath path) :=
  decidable_of_iff
    ((Text.piecesOf '/' path).all fun segment => segment != "" && segment.toList.all isPlain)
    (by simp [PlainPath])

/-- What a relative path adds to a root. -/
def behindRoot (settings : Settings) (path : String) : String :=
  match settings.database with
  | none => "/" ++ path
  | some database => "/databases/" ++ PathSegment.written database ++ "/" ++ path

def withoutSlashes (text : String) : String :=
  String.ofList (text.toList.rdropWhile (· == '/'))

variable {settings : Settings} {number : Nat} {authority : Authority} {segments : List String}
  {path : String}

/-! ## Plain paths -/

private theorem ascii_of_isPlain {char : Char} (plain : isPlain char = true) :
    char.toNat < 128 := by
  simp only [isPlain, Bool.or_eq_true, beq_iff_eq] at plain
  rcases plain with ((plain | rfl) | rfl) | rfl
  · exact Text.ascii_of_isAlphanum plain
  · decide
  · decide
  · decide

private theorem written_of_plain {segment : String}
    (plain : ∀ char ∈ segment.toList, isPlain char = true) :
    PathSegment.written segment = segment := by
  have kept : ∀ char ∈ segment.toList, Percent.Kept PathSegment.escaped char := by
    intro char member
    have ascii := ascii_of_isPlain (plain char member)
    have checked := Text.ascii_all (fun char => !isPlain char || !PathSegment.escaped char)
      (by decide) ascii
    exact ⟨ascii, by simpa [plain char member] using checked⟩
  rw [PathSegment.written, Percent.encode, Percent.encodeChars_eq_self kept, String.ofList_toList]

private theorem acceptable_of_plain {segment : String} (present : segment ≠ "")
    (plain : ∀ char ∈ segment.toList, isPlain char = true) : PathSegment.Acceptable segment := by
  refine ⟨present, ?_, ?_⟩
  · rintro rfl
    exact absurd (plain '.' (by decide)) (by decide)
  · rintro rfl
    exact absurd (plain '.' (by decide)) (by decide)

theorem written_piecesOf_of_plain (plain : PlainPath path) :
    Written path (Text.piecesOf '/' path) none := by
  have unescaped : (Text.piecesOf '/' path).map PathSegment.written = Text.piecesOf '/' path :=
    (List.map_congr_left fun segment member => written_of_plain (plain segment member).2).trans
      (List.map_id _)
  have text : path.toList =
      (Text.join "/" ((Text.piecesOf '/' path).map PathSegment.written)).toList ++
        queryText none := by
    rw [unescaped, Text.join_piecesOf]
    exact (List.append_nil _).symm
  have written := written_of_acceptable (Text.piecesOf_ne_nil '/' path)
    (fun segment member => acceptable_of_plain (plain segment member).1 (plain segment member).2)
    (by simp) text
  rwa [unescaped] at written

private theorem toList_behindRoot (settings : Settings) (path : String) :
    (settings.behindRoot path).toList =
      behindSlashes (settings.scopeSegments ++ Text.piecesOf '/' path) := by
  have relative : behindSlashes (Text.piecesOf '/' path) = '/' :: path.toList := by
    rw [behindSlashes_eq_cons (Text.piecesOf_ne_nil '/' path)]
    change '/' :: List.intercalate "/".toList _ = _
    rw [← Text.toList_join, Text.join_piecesOf]
  rw [behindSlashes_append, relative, behindRoot, scopeSegments]
  cases settings.database with
  | none => simp [behindSlashes]
  | some database => simp [behindSlashes]

/-- Some character of a plain path is no slash, so adding the path to a text changes the text. -/
theorem withoutSlashes_append_ne (settings : Settings) (plain : PlainPath path) (text : String) :
    withoutSlashes text ++ settings.behindRoot path ≠ text := by
  obtain ⟨char, others, chars, notSlash⟩ := head_of_written (written_piecesOf_of_plain plain)
  have shape : ∃ leading, (settings.behindRoot path).toList = leading ++ char :: others := by
    unfold behindRoot
    cases settings.database with
    | none => exact ⟨['/'], by simp [chars]⟩
    | some database =>
        exact ⟨("/databases/" ++ PathSegment.written database ++ "/").toList, by simp [chars]⟩
  obtain ⟨leading, shape⟩ := shape
  intro same
  have whole := congrArg String.toList same
  rw [String.toList_append, withoutSlashes, String.toList_ofList, shape,
    ← List.append_assoc] at whole
  have trimmed := congrArg (List.rdropWhile (· == '/')) whole
  rw [Text.rdropWhile_append_cons (· == '/') notSlash] at trimmed
  have lengths := congrArg List.length trimmed
  simp only [List.length_append, List.length_cons] at lengths
  omega

private theorem slash_or_segmentChar_behindRoot (usable : settings.Usable) (plain : PlainPath path)
    {char : Char} (member : char ∈ (settings.behindRoot path).toList) :
    char = '/' ∨ isSegmentChar char = true := by
  have written := written_piecesOf_of_plain plain
  have settled : ∀ segment ∈ settings.scopeSegments ++ Text.piecesOf '/' path,
      Settled segment := by
    intro segment member
    rcases List.mem_append.mp member with member | member
    · exact settled_scopeSegments usable segment member
    · exact written.settled segment member
  rw [toList_behindRoot, behindSlashes_eq_cons (by simp [written.present])] at member
  rcases List.mem_cons.mp member with slash | member
  · exact .inl slash
  · exact slash_or_segmentChar settled member

theorem compose_behindRoot (usable : settings.Usable) {more : List String} {query : Option String}
    (written : Written path more query) :
    settings.compose path = .ok (settings.root ++ settings.behindRoot path) := by
  have relative := relative_of_written written
  unfold compose behindRoot
  cases selected : settings.database with
  | none => simp [relative, String.append_assoc]
  | some database =>
      have encoded := PathSegment.encode_of_acceptable (usable database selected) "database name"
      simp [relative, encoded, bind, Except.bind, String.append_assoc]

private theorem compose_of_plain (usable : settings.Usable) (plain : PlainPath path) :
    settings.compose path = .ok (settings.root ++ settings.behindRoot path) :=
  compose_behindRoot usable (written_piecesOf_of_plain plain)

/-! ## Hosts with a query or a fragment -/

private theorem tailText_eq_tailOf (url : Url) :
    tailText url = tailOf (url.query.map String.toList) (url.fragment.map String.toList) := by
  rw [tailText, tailOf]
  cases url.query <;> cases url.fragment <;> rfl

private theorem toList_root_of_fragment
    (canonical : settings.host.Canonical number authority segments)
    {fragment : String} (found : settings.host.fragment = some fragment) :
    settings.root.toList = front settings.host.scheme authority ++ behindSlashes segments ++
      tailOf (settings.host.query.map String.toList) (some (withoutSlashes fragment).toList) := by
  rw [toList_root canonical, tailText_eq_tailOf, found, withoutSlashes, String.toList_ofList]
  simp only [tailOf, Option.map_some, Option.getD_some]
  rw [← List.append_assoc, Text.rdropWhile_append_cons (· == '/') (by decide)]
  simp only [List.append_assoc]

private theorem toList_root_of_query (canonical : settings.host.Canonical number authority segments)
    {query : String} (found : settings.host.query = some query)
    (noFragment : settings.host.fragment = none) :
    settings.root.toList = front settings.host.scheme authority ++ behindSlashes segments ++
      tailOf (some (withoutSlashes query).toList) none := by
  rw [toList_root canonical, tailText_eq_tailOf, found, noFragment, withoutSlashes,
    String.toList_ofList]
  simp only [tailOf, Option.map_some, Option.map_none, Option.getD_some, Option.getD_none,
    List.append_nil]
  rw [Text.rdropWhile_append_cons (· == '/') (by decide)]
  simp only [List.append_assoc]

private theorem escape_append (escaped : Percent.EscapeSet) (first second : List Char) :
    escape escaped (first ++ second) = escape escaped first ++ escape escaped second := by
  simp [escape, Percent.encodeChars, String.ofList_append]

private theorem mem_of_mem_withoutSlashes {text : String} {char : Char}
    (member : char ∈ (withoutSlashes text).toList) : char ∈ text.toList := by
  rw [withoutSlashes, String.toList_ofList] at member
  exact (List.rdropWhile_prefix _ _).mem member

private theorem not_isBlank_behindRoot (usable : settings.Usable) (plain : PlainPath path)
    {char : Char} (member : char ∈ (settings.behindRoot path).toList) : isBlank char = false := by
  rcases slash_or_segmentChar_behindRoot usable plain member with rfl | inside
  · decide
  · exact not_isBlank_of_isSegmentChar inside

private theorem kept_behindRoot (usable : settings.Usable) (plain : PlainPath path) {char : Char}
    (member : char ∈ (settings.behindRoot path).toList) : Percent.Kept inFragment char := by
  rcases slash_or_segmentChar_behindRoot usable plain member with rfl | inside
  · exact ⟨by decide, by decide⟩
  · have ascii := (kept_of_isSegmentChar inside).1
    have checked := Text.ascii_all (fun char => !isSegmentChar char || !inFragment char)
      (by decide) ascii
    exact ⟨ascii, by simpa [inside] using checked⟩

private theorem hash_not_mem_behindRoot (usable : settings.Usable) (plain : PlainPath path) :
    '#' ∉ (settings.behindRoot path).toList := by
  intro member
  rcases slash_or_segmentChar_behindRoot usable plain member with same | inside
  · exact absurd same (by decide)
  · exact absurd inside (by decide)

/-- Behind a fragment a plain path belongs to the fragment, and nothing else changes. -/
theorem urlFor_of_fragment (canonical : settings.host.Canonical number authority segments)
    (settled : settings.host.SettledTail) (usable : settings.Usable) (plain : PlainPath path)
    {fragment : String} (found : settings.host.fragment = some fragment) :
    settings.urlFor path = .ok { settings.host with
      fragment := some (withoutSlashes fragment ++ settings.behindRoot path) } := by
  have queryKept : ∀ chars ∈ settings.host.query.map String.toList, ∀ char ∈ chars,
      Percent.Kept (inQuery true) char := by
    intro chars member
    obtain ⟨query, asked, rfl⟩ := Option.map_eq_some_iff.mp member
    exact settled.query query asked
  have fragmentKept : ∀ char ∈ (withoutSlashes fragment ++ settings.behindRoot path).toList,
      Percent.Kept inFragment char := by
    intro char member
    rw [String.toList_append] at member
    rcases List.mem_append.mp member with member | member
    · exact settled.fragment fragment found char (mem_of_mem_withoutSlashes member)
    · exact kept_behindRoot usable plain member
  have solid : ∀ char ∈ tailOf (settings.host.query.map String.toList)
      (some (withoutSlashes fragment ++ settings.behindRoot path).toList),
      isBlank char = false := by
    intro char member
    rcases mem_tailOf member with rfl | rfl | ⟨chars, asked, inside⟩ | ⟨chars, same, inside⟩
    · decide
    · decide
    · exact not_isBlank_of_kept (by decide) (queryKept chars asked char inside)
    · obtain rfl := Option.some.inj same
      exact not_isBlank_of_kept (by decide) (fragmentKept char inside)
  refine urlFor_of_composed (compose_of_plain usable plain) ?_
  refine (parse_behindSlashes canonical canonical.settled canonical.present solid
    (fun chars asked => hash_not_mem_of_kept (queryKept chars asked)) ?_).trans ?_
  · rw [String.toList_append, toList_root_of_fragment canonical found]
    simp [tailOf]
  · have query : (settings.host.query.map String.toList).map (escape (inQuery true)) =
        settings.host.query := by
      cases asked : settings.host.query with
      | none => rfl
      | some query => exact congrArg some (escape_of_kept (settled.query query asked))
    rw [query, Option.map_some, escape_of_kept fragmentKept, ← canonical.named, ← canonical.path]

/-- Behind a query without a fragment it belongs to the query. -/
theorem urlFor_of_query (canonical : settings.host.Canonical number authority segments)
    (settled : settings.host.SettledTail) (usable : settings.Usable) (plain : PlainPath path)
    {query : String} (found : settings.host.query = some query)
    (noFragment : settings.host.fragment = none) :
    settings.urlFor path = .ok { settings.host with
      query := some (withoutSlashes query ++
        escape (inQuery true) (settings.behindRoot path).toList) } := by
  have kept : ∀ char ∈ (withoutSlashes query).toList, Percent.Kept (inQuery true) char :=
    fun char member => settled.query query found char (mem_of_mem_withoutSlashes member)
  have solid : ∀ char ∈ tailOf
      (some ((withoutSlashes query).toList ++ (settings.behindRoot path).toList)) none,
      isBlank char = false := by
    intro char member
    rcases mem_tailOf member with rfl | rfl | ⟨chars, same, inside⟩ | ⟨_, absent, _⟩
    · decide
    · decide
    · obtain rfl := Option.some.inj same
      rcases List.mem_append.mp inside with inside | inside
      · exact not_isBlank_of_kept (by decide) (kept char inside)
      · exact not_isBlank_behindRoot usable plain inside
    · cases absent
  have noHash : ∀ chars ∈ some ((withoutSlashes query).toList ++
      (settings.behindRoot path).toList), '#' ∉ chars := by
    intro chars same member
    obtain rfl := Option.some.inj same
    rcases List.mem_append.mp member with member | member
    · exact hash_not_mem_of_kept kept member
    · exact hash_not_mem_behindRoot usable plain member
  refine urlFor_of_composed (compose_of_plain usable plain) ?_
  refine (parse_behindSlashes canonical canonical.settled canonical.present solid noHash
    ?_).trans ?_
  · rw [String.toList_append, toList_root_of_query canonical found noFragment]
    simp [tailOf]
  · have fragment : none = settings.host.fragment := noFragment.symm
    rw [Option.map_some, escape_append, escape_of_kept kept, ← canonical.named, ← canonical.path,
      Option.map_none, fragment]

/-- Behind neither of them it is the end of the path. -/
theorem urlFor_of_plainHost (canonical : settings.host.Canonical number authority segments)
    (usable : settings.Usable) (plain : PlainPath path) (noQuery : settings.host.query = none)
    (noFragment : settings.host.fragment = none) :
    ∃ url, settings.urlFor path = .ok url ∧
      url.pathText = withoutSlashes settings.host.pathText ++ settings.behindRoot path ∧
      url.query = none ∧ url.fragment = none := by
  have found := urlFor_of_written canonical noQuery noFragment usable
    (written_piecesOf_of_plain plain)
  refine ⟨_, found, ?_, rfl, rfl⟩
  rw [← String.toList_inj, String.toList_append, toList_pathText rfl, withoutSlashes,
    String.toList_ofList, toList_pathText canonical.path,
    rdropWhile_behindSlashes canonical.settled, toList_behindRoot, List.append_assoc,
    behindSlashes_append]

/-- A plain path is the end of the URL's path exactly where the host has neither a query nor a
fragment. Otherwise the path is the host's own, and the relative path ends up in the last of the
two. -/
theorem urlFor_of_plainPath (accepted : settings.Accepted) (usable : settings.Usable)
    (plain : PlainPath path) :
    ∃ url, settings.urlFor path = .ok url ∧ SameServer settings.host url ∧
      (url.pathText = withoutSlashes settings.host.pathText ++ settings.behindRoot path ↔
        settings.host.query = none ∧ settings.host.fragment = none) ∧
      (settings.host.query = none → settings.host.fragment = none →
        url.query = none ∧ url.fragment = none) ∧
      (∀ query ∈ settings.host.query, settings.host.fragment = none →
        url = { settings.host with
          query := some (withoutSlashes query ++
            escape (inQuery true) (settings.behindRoot path).toList) }) ∧
      (∀ fragment ∈ settings.host.fragment,
        url = { settings.host with
          fragment := some (withoutSlashes fragment ++ settings.behindRoot path) }) := by
  obtain ⟨number, authority, segments, canonical⟩ := canonical_of_accepted accepted
  have settled := settledTail_of_accepted accepted
  obtain ⟨url, found, same⟩ := urlFor_of_accepted accepted usable path
  have kept (text : String) :
      text ≠ withoutSlashes text ++ settings.behindRoot path :=
    (withoutSlashes_append_ne settings plain text).symm
  refine ⟨url, found, same, ?_⟩
  cases fragmentFound : settings.host.fragment with
  | some fragment =>
      have made := urlFor_of_fragment canonical settled usable plain fragmentFound
      obtain rfl := Except.ok.inj (found.symm.trans made)
      refine ⟨?_, ?_, ?_, ?_⟩
      · constructor
        · intro ends
          exact absurd ends (kept settings.host.pathText)
        · intro absent
          cases absent.2
      · intro _ absent
        cases absent
      · intro _ _ absent
        cases absent
      · intro other member
        cases member
        rfl
  | none =>
      cases queryFound : settings.host.query with
      | some query =>
          have made := urlFor_of_query canonical settled usable plain queryFound fragmentFound
          obtain rfl := Except.ok.inj (found.symm.trans made)
          refine ⟨?_, ?_, ?_, ?_⟩
          · constructor
            · intro ends
              exact absurd ends (kept settings.host.pathText)
            · intro absent
              cases absent.1
          · intro absent
            cases absent
          · intro other member _
            cases member
            rfl
          · intro _ absent
            cases absent
      | none =>
          obtain ⟨made, resolved, path, query, fragment⟩ :=
            urlFor_of_plainHost canonical usable plain queryFound fragmentFound
          obtain rfl := Except.ok.inj (found.symm.trans resolved)
          refine ⟨?_, ?_, ?_, ?_⟩
          · constructor
            · intro _
              exact ⟨rfl, rfl⟩
            · intro _
              exact path
          · intro _ _
            exact ⟨query, fragment⟩
          · intro _ absent
            cases absent
          · intro _ absent
            cases absent

/-- The relative path goes on with the query of the host. -/
theorem path_behind_query :
    ∃ host url, ofHost "http://localhost:8080/raven//?tenant=1/" = .ok ⟨host, none⟩ ∧
      (Settings.mk host (some "it's")).urlFor "docs/a-1" = .ok url ∧
      url.pathText = "/raven//" ∧ url.query = some "tenant=1/databases/it%27s/docs/a-1" := by
  let host : Url := { localhost.host with
    path := .absolute ["raven", "", ""]
    query := some "tenant=1/" }
  have read : ofHost "http://localhost:8080/raven//?tenant=1/" = .ok ⟨host, none⟩ := by
    decide +kernel
  have accepted : Accepted ⟨host, some "it's"⟩ := ⟨_, _, read, rfl⟩
  have usable : Usable ⟨host, some "it's"⟩ := by decide +kernel
  have plain : PlainPath "docs/a-1" := by decide +kernel
  obtain ⟨url, found, _, _, _, behindQuery, _⟩ := urlFor_of_plainPath accepted usable plain
  obtain rfl := behindQuery "tenant=1/" rfl rfl
  refine ⟨host, _, read, found, ?_, ?_⟩
  · decide +kernel
  · decide +kernel

/-- An accepted host with a query is no root: its path does not go on with the relative path. -/
theorem host_with_query_not_root :
    ¬ ∀ (settings : Settings) (path : String), settings.Accepted → settings.Usable →
      PlainPath path → ∃ url, settings.urlFor path = .ok url ∧
        url.pathText = withoutSlashes settings.host.pathText ++ settings.behindRoot path := by
  intro claim
  let host : Url := { localhost.host with
    path := .absolute ["raven"]
    query := some "tenant=1" }
  have read : ofHost "http://localhost:8080/raven?tenant=1" = .ok ⟨host, none⟩ := by
    decide +kernel
  have made : urlFor ⟨host, none⟩ "docs/a" = .ok { host with query := some "tenant=1/docs/a" } := by
    decide +kernel
  obtain ⟨url, found, ends⟩ := claim ⟨host, none⟩ "docs/a" ⟨_, _, read, rfl⟩ (by decide +kernel)
    (by decide +kernel)
  obtain rfl := Except.ok.inj (made.symm.trans found)
  exact absurd ends (by decide +kernel)

end DocumentClient.Settings
