import DocumentClient.Proofs.Resolution
import DocumentClient.Proofs.Wire.Inbound
import DocumentClient.Wire.Target

/-!
# Targets of URLs

A URL of the web that the wire takes is taken apart where it was put together: its scheme, its
authority, and its path with its query. What stands in the request line are visible characters, and
so is the name of the host.
-/

set_option autoImplicit false

namespace DocumentClient.Wire

open Url

/-! ## Path and query -/

def queryText (url : Url) : List Char :=
  (url.query.map fun query => '?' :: query.toList).getD []

private theorem isVisible_of_isSegmentChar {char : Char} (inside : isSegmentChar char = true) :
    isVisible char = true := by
  have checked := Text.ascii_all (fun char => !isSegmentChar char || isVisible char)
    (by decide) (kept_of_isSegmentChar inside).1
  simpa [inside] using checked

private theorem isVisible_of_kept {char : Char} (kept : Percent.Kept (inQuery true) char) :
    isVisible char = true ∧ char ≠ '#' := by
  have checked := Text.ascii_all
    (fun char => inQuery true char || (isVisible char && char != '#')) (by decide) kept.1
  simpa [kept.2] using checked

section

variable {url : Url} {number : Nat} {authority : Authority} {segments : List String}

private theorem visible_of_mem_behindSlashes (canonical : url.Canonical number authority segments)
    {char : Char} (member : char ∈ behindSlashes segments) :
    isVisible char = true ∧ char ≠ '#' := by
  rw [behindSlashes, List.mem_flatMap] at member
  obtain ⟨segment, found, inside⟩ := member
  rcases List.mem_cons.mp inside with rfl | inside
  · exact ⟨by decide, by decide⟩
  · have inside := (canonical.settled segment found).chars char inside
    refine ⟨isVisible_of_isSegmentChar inside, ?_⟩
    intro same
    subst same
    exact absurd inside (by decide)

private theorem visible_of_mem_queryText (settled : url.SettledTail) {char : Char}
    (member : char ∈ queryText url) : isVisible char = true ∧ char ≠ '#' := by
  rw [queryText] at member
  cases asked : url.query with
  | none => simp [asked] at member
  | some query =>
      simp only [asked, Option.map_some, Option.getD_some, List.mem_cons] at member
      rcases member with rfl | member
      · exact ⟨by decide, by decide⟩
      · exact isVisible_of_kept (settled.query query asked char member)

/-! ## Taking a URL apart -/

private theorem splitScheme_front (canonical : url.Canonical number authority segments)
    (rest : List Char) :
    splitScheme (front url.scheme authority ++ rest) =
      .ok (some url.scheme, authority.text.toList ++ rest) := by
  have letters : ∀ char ∈ url.scheme.toList, isSchemeChar char = true := by
    rw [← List.all_eq_true]
    rcases canonical.scheme with ⟨same, _⟩ | ⟨same, _⟩ <;> rw [same] <;> decide
  have short : ¬ greatestScheme < url.scheme.toList.length := by
    rcases canonical.scheme with ⟨same, _⟩ | ⟨same, _⟩ <;> rw [same] <;> decide
  have shape : front url.scheme authority ++ rest =
      url.scheme.toList ++ ':' :: '/' :: '/' :: (authority.text.toList ++ rest) := by
    simp [front]
  rw [splitScheme, shape, List.takeWhile_append_of_pos letters,
    List.dropWhile_append_of_pos letters, List.takeWhile_cons_of_neg (by decide),
    List.dropWhile_cons_of_neg (by decide), List.append_nil]
  exact (if_neg short).trans (by rw [String.ofList_toList])

/-- The characters behind the path and the query. -/
def fragmentText (url : Url) : List Char :=
  (url.fragment.map fun fragment => '#' :: fragment.toList).getD []

private theorem tailText_eq (url : Url) :
    Settings.tailText url = queryText url ++ fragmentText url :=
  rfl

private theorem endsAuthority_eq_false {char : Char} (inside : isAuthorityChar char = true) :
    endsAuthority char = false := by
  simp only [isAuthorityChar, Url.endsAuthority, isSlash, endsPath, Bool.and_eq_true,
    Bool.not_eq_true', Bool.or_eq_false_iff] at inside
  simp [endsAuthority, inside]

private theorem takeWhile_authority (canonical : url.Canonical number authority segments)
    (rest : List Char) :
    (authority.text.toList ++ (behindSlashes segments ++ rest)).takeWhile (!endsAuthority ·) =
        authority.text.toList ∧
      (authority.text.toList ++ (behindSlashes segments ++ rest)).dropWhile (!endsAuthority ·) =
        behindSlashes segments ++ rest := by
  have inside : ∀ char ∈ authority.text.toList, (!endsAuthority char) = true := by
    intro char member
    rw [endsAuthority_eq_false (isAuthorityChar_of_mem_text canonical.canonical member)]
    rfl
  rw [List.takeWhile_append_of_pos inside, List.dropWhile_append_of_pos inside,
    behindSlashes_eq_cons canonical.present]
  simp [endsAuthority]

private theorem takeWhile_path (canonical : url.Canonical number authority segments)
    (settled : url.SettledTail) :
    (behindSlashes segments ++ (queryText url ++ fragmentText url)).takeWhile (· != '#') =
      behindSlashes segments ++ queryText url := by
  have noHash : ∀ char ∈ behindSlashes segments ++ queryText url, (char != '#') = true := by
    intro char member
    rcases List.mem_append.mp member with member | member
    · simpa using (visible_of_mem_behindSlashes canonical member).2
    · simpa using (visible_of_mem_queryText settled member).2
  have ends : (fragmentText url).takeWhile (· != '#') = [] := by
    rw [fragmentText]
    cases url.fragment <;> rfl
  rw [← List.append_assoc, List.takeWhile_append_of_pos noHash, ends, List.append_nil]

/-- What a URL of the web is taken apart into. -/
theorem read_eq_ok (canonical : url.Canonical number authority segments)
    (settled : url.SettledTail) {target : Target} (read : Target.read url.text = .ok target) :
    target.scheme = some url.scheme ∧ target.authority = authority.text ∧
      checkAuthority authority.text.toList = .ok () ∧
      target.path.toList = url.pathText.toList ++ queryText url := by
  obtain ⟨taken, dropped⟩ := takeWhile_authority canonical (queryText url ++ fragmentText url)
  unfold Target.read at read
  rw [Settings.toList_text canonical, splitScheme_front canonical] at read
  split at read
  · cases read
  · obtain ⟨_, found, read⟩ := ok_of_bind read
    cases found
    dsimp only at read
    rw [tailText_eq, taken, dropped, takeWhile_path canonical settled] at read
    split at read
    · cases read
    · obtain ⟨_, checked, read⟩ := ok_of_bind read
      split at read
      · cases read
      · cases read
        refine ⟨rfl, String.ofList_toList, checked, ?_⟩
        rw [String.toList_ofList, toList_pathText canonical.path]

end

/-! ## Visible characters -/

private theorem isVisible_of_isTargetChar {char : Char} (inside : isTargetChar char = true) :
    isVisible char = true := by
  rw [isTargetChar, Bool.or_eq_true] at inside
  rcases inside with letterOrDigit | listed
  · have checked := Text.ascii_all (fun char => !char.isAlphanum || isVisible char)
      (by decide) (Text.ascii_of_isAlphanum letterOrDigit)
    simpa [letterOrDigit] using checked
  · have all : "!#$&'()*+,-./:;=?@[]_~".toList.all isVisible = true := by decide
    exact List.all_eq_true.mp all char (List.contains_iff_mem.mp listed)

private theorem isVisible_of_step {scan next : Scan} {char : Char}
    (step : scan.step char = .ok next) :
    isVisible char = true := by
  unfold Scan.step at step
  split at step
  case h_6 =>
    split at step
    · rename_i inside
      exact isVisible_of_isTargetChar inside
    · cases step
  all_goals decide

private theorem isVisible_of_foldlM {chars : List Char} {scan last : Scan}
    (scanned : chars.foldlM Scan.step scan = .ok last) : ∀ char ∈ chars, isVisible char = true := by
  induction chars generalizing scan with
  | nil => simp
  | cons char chars ih =>
      rw [List.foldlM_cons] at scanned
      obtain ⟨next, step, scanned⟩ := ok_of_bind scanned
      exact List.forall_mem_cons.mpr ⟨isVisible_of_step step, ih scanned⟩

private theorem isVisible_of_checkAuthority {chars : List Char}
    (checked : checkAuthority chars = .ok ()) :
    ∀ char ∈ chars, isVisible char = true := by
  obtain ⟨last, scanned, _⟩ := ok_of_bind checked
  exact isVisible_of_foldlM scanned

private theorem mem_of_mem_endpoint {target : Target} {char : Char}
    (member : char ∈ target.endpoint.toList) : char ∈ target.authority.toList := by
  rw [Target.endpoint, Text.afterLast, String.toList_ofList] at member
  cases last : (Text.pieces '@' target.authority.toList).getLast? with
  | none => simp [last] at member
  | some piece =>
      rw [last, Option.getD_some] at member
      exact Text.mem_of_mem_pieces (List.mem_of_getLast? last) member

/-- What a server is told by the target of a URL in the clear. -/
structure Tells (url : Url) (target : Target) : Prop where
  scheme : target.scheme = some "http"
  line : target.line.toList = url.pathText.toList ++ queryText url
  visible : ∀ char ∈ target.line.toList, isVisible char = true
  endpoint : ∀ char ∈ target.endpoint.toList, isVisible char = true

theorem tells_of_read {url : Url} {text : String} (parsed : Url.parse text = .ok url)
    (plain : url.scheme = "http") {target : Target} (read : Target.read url.text = .ok target) :
    Tells url target := by
  obtain ⟨number, authority, segments, canonical⟩ := Url.canonical_of_parse parsed (.inl plain)
  have settled := Url.settledTail_of_parse parsed (.inl plain)
  obtain ⟨scheme, named, checked, path⟩ := read_eq_ok canonical settled read
  have written : url.pathText.toList = behindSlashes segments := toList_pathText canonical.path
  have line : target.line = target.path := by
    rw [Target.line, path, written, behindSlashes_eq_cons canonical.present]
    rfl
  constructor
  case scheme => exact plain ▸ scheme
  case line => rw [line, path]
  case visible =>
    intro char member
    rw [line, path, written] at member
    rcases List.mem_append.mp member with member | member
    · exact (visible_of_mem_behindSlashes canonical member).1
    · exact (visible_of_mem_queryText settled member).1
  case endpoint =>
    intro char member
    have member := mem_of_mem_endpoint member
    rw [named] at member
    exact isVisible_of_checkAuthority checked char member

end DocumentClient.Wire
