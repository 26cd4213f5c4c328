import DocumentClient.Proofs.PathSegment
import DocumentClient.Url.Parts

/-!
# Paths that are read back

A segment is settled when reading a path leaves it as it is. Reading yields settled segments only,
the written form of an acceptable name is settled, and settled segments behind slashes are read
back one by one.
-/

set_option autoImplicit false

namespace DocumentClient.Url

/-! ## Settled segments -/

/-- A character that a path keeps inside a segment. -/
def isSegmentChar (char : Char) : Bool :=
  decide (char.toNat < 128) && !inPath char && !isSlash true char

structure Settled (segment : String) : Prop where
  chars : ∀ char ∈ segment.toList, isSegmentChar char = true
  notDot : isDot segment = false
  notDoubleDot : isDoubleDot segment = false

private theorem settled_empty : Settled "" :=
  ⟨by simp, by decide, by decide⟩

theorem kept_of_isSegmentChar {char : Char} (inside : isSegmentChar char = true) :
    Percent.Kept inPath char := by
  simp only [isSegmentChar, Bool.and_eq_true, decide_eq_true_eq, Bool.not_eq_true'] at inside
  exact ⟨inside.1.1, inside.1.2⟩

private theorem not_isSlash_of_isSegmentChar {char : Char} (inside : isSegmentChar char = true) :
    isSlash true char = false := by
  simp only [isSegmentChar, Bool.and_eq_true, Bool.not_eq_true'] at inside
  exact inside.2

theorem not_endsPath_of_isSegmentChar {char : Char} (inside : isSegmentChar char = true) :
    endsPath char = false := by
  have checked := Text.ascii_all (fun char => !isSegmentChar char || !endsPath char)
    (by decide) (kept_of_isSegmentChar inside).1
  simpa [inside] using checked

theorem not_isBlank_of_isSegmentChar {char : Char} (inside : isSegmentChar char = true) :
    isBlank char = false := by
  have checked := Text.ascii_all (fun char => !isSegmentChar char || !isBlank char)
    (by decide) (kept_of_isSegmentChar inside).1
  simpa [inside] using checked

theorem Settled.slash_not_mem {segment : String} (settled : Settled segment) :
    '/' ∉ segment.toList := by
  intro member
  exact absurd (settled.chars '/' member) (by decide)

theorem Settled.not_slash {segment : String} (settled : Settled segment) {char : Char}
    (member : char ∈ segment.toList) : ¬ (char == '/') = true := by
  intro slash
  rw [beq_iff_eq.mp slash] at member
  exact settled.slash_not_mem member

theorem Settled.escape_toList {segment : String} (settled : Settled segment) :
    escape inPath segment.toList = segment := by
  rw [escape, Percent.encodeChars_eq_self fun char member =>
    kept_of_isSegmentChar (settled.chars char member), String.ofList_toList]

/-! ## Written names -/

private theorem decode_of_isDot {segment : String} (dot : isDot segment = true) :
    Percent.decode (utf8 segment) = utf8 "." := by
  simp only [isDot, Bool.or_eq_true, beq_iff_eq] at dot
  rcases dot with (rfl | rfl) | rfl <;> decide

private theorem decode_of_isDoubleDot {segment : String} (dots : isDoubleDot segment = true) :
    Percent.decode (utf8 segment) = utf8 ".." := by
  simp only [isDoubleDot, List.any_cons, List.any_nil, Bool.or_false, Bool.or_eq_true,
    beq_iff_eq] at dots
  rcases dots with (rfl | rfl | rfl) | (rfl | rfl | rfl) | rfl | rfl | rfl <;> decide

theorem isSegmentChar_of_mem_written {name : String} {char : Char}
    (member : char ∈ (PathSegment.written name).toList) : isSegmentChar char = true := by
  rw [PathSegment.written, Percent.encode, String.toList_ofList] at member
  exact Percent.encodeChars_all isSegmentChar (by decide) member

/-- No written form stands for a dot segment, since it stands for its name. -/
theorem settled_written {name : String} (acceptable : PathSegment.Acceptable name) :
    Settled (PathSegment.written name) := by
  refine ⟨fun _ => isSegmentChar_of_mem_written, ?_, ?_⟩
  · refine Bool.eq_false_iff.mpr fun dot => acceptable.2.1 ?_
    rw [← utf8_inj, ← PathSegment.decode_written, decode_of_isDot dot]
  · refine Bool.eq_false_iff.mpr fun dots => acceptable.2.2 ?_
    rw [← utf8_inj, ← PathSegment.decode_written, decode_of_isDoubleDot dots]

/-! ## Dot segments -/

private theorem resolveDots_of_settled {segments : List String}
    (settled : ∀ segment ∈ segments, Settled segment) (done : List String) :
    resolveDots done segments = done ++ segments := by
  induction segments generalizing done with
  | nil => simp [resolveDots]
  | cons segment segments ih =>
      have first := settled segment List.mem_cons_self
      rw [resolveDots, first.notDot, first.notDoubleDot]
      simp only [Bool.false_eq_true, ↓reduceIte]
      rw [ih fun other member => settled other (List.mem_cons_of_mem _ member)]
      simp

private theorem settled_resolveDots {segments done : List String}
    (settled : ∀ segment ∈ done, Settled segment)
    (chars : ∀ segment ∈ segments, ∀ char ∈ segment.toList, isSegmentChar char = true) :
    ∀ segment ∈ resolveDots done segments, Settled segment := by
  have closed {kept : List String} (keeps : ∀ segment ∈ kept, Settled segment) :
      ∀ segment ∈ kept ++ [""], Settled segment := by
    simp only [List.mem_append, List.mem_singleton]
    intro segment member
    rcases member with member | empty
    · exact keeps segment member
    · rw [empty]
      exact settled_empty
  have shorter {done : List String} (keeps : ∀ segment ∈ done, Settled segment) :
      ∀ segment ∈ if done.getLast?.any standsForDrive then done else done.dropLast,
        Settled segment := by
    intro segment member
    split at member
    · exact keeps segment member
    · exact keeps segment (List.dropLast_subset done member)
  -- What is done so far stays settled: a dot segment adds nothing but an empty one.
  fun_induction resolveDots done segments with
  | case1 done => exact settled
  | case2 => exact closed (shorter settled)
  | case3 done segment rest _ kept _ ih =>
      exact ih (shorter settled) fun other member => chars other (List.mem_cons_of_mem _ member)
  | case4 done segment rest _ _ _ => exact closed settled
  | case5 done segment rest _ _ _ ih =>
      exact ih settled fun other member => chars other (List.mem_cons_of_mem _ member)
  | case6 done segment rest notDoubleDot notDot ih =>
      apply ih
      · simp only [List.mem_append, List.mem_singleton]
        intro other member
        rcases member with member | rfl
        · exact settled other member
        · exact ⟨chars other List.mem_cons_self, Bool.eq_false_iff.mpr notDot,
            Bool.eq_false_iff.mpr notDoubleDot⟩
      · exact fun other member => chars other (List.mem_cons_of_mem _ member)

private theorem resolveDots_ne_nil {segments : List String} (present : segments ≠ [])
    (done : List String) : resolveDots done segments ≠ [] := by
  fun_induction resolveDots done segments with
  | case1 => exact absurd rfl present
  | case2 => simp
  | case3 _ _ rest _ _ more ih => exact ih (by simpa using more)
  | case4 => simp
  | case5 _ _ rest _ _ more ih => exact ih (by simpa using more)
  | case6 done segment rest _ _ ih =>
      cases rest with
      | nil => simp [resolveDots]
      | cons next rest => exact ih (by simp)

/-! ## Reading paths -/

theorem readSegments_ne_nil (special : Bool) (chars : List Char) :
    readSegments special chars ≠ [] :=
  resolveDots_ne_nil (by simp [rawSegments, Text.pieces_ne_nil]) []

theorem settled_readSegments {chars : List Char} {segment : String}
    (member : segment ∈ readSegments true chars) : Settled segment := by
  refine settled_resolveDots (fun _ absent => absurd absent List.not_mem_nil) ?_ segment member
  intro raw found char inside
  simp only [rawSegments, List.mem_map] at found
  obtain ⟨piece, found, rfl⟩ := found
  rw [escape, String.toList_ofList] at inside
  rcases Percent.mem_encodeChars inside with ⟨source, kept⟩ | escaped
  · have notSlash : isSlash true char = false := by
      have origin := Text.mem_of_mem_pieces found source
      obtain ⟨original, _, slashed⟩ := List.mem_map.mp origin
      have apart : char ≠ '/' := by
        intro same
        subst same
        exact Text.separator_not_mem_pieces found source
      split at slashed
      · exact absurd slashed.symm apart
      · rename_i notSlash
        subst slashed
        exact Bool.eq_false_iff.mpr notSlash
    simp [isSegmentChar, kept.1, kept.2, notSlash]
  · have checked := Text.ascii_all (fun char => !Percent.isEscapeChar char || isSegmentChar char)
      (by decide) (Percent.ascii_of_isEscapeChar escaped)
    simpa [escaped] using checked

def behindSlashes (segments : List String) : List Char :=
  segments.flatMap fun segment => '/' :: segment.toList

theorem toList_pathText {url : Url} {segments : List String}
    (path : url.path = .absolute segments) : url.pathText.toList = behindSlashes segments := by
  rw [pathText, path, Path.text, behindSlashes, String.toList_join, List.flatMap_map]
  simp

theorem behindSlashes_append (first second : List String) :
    behindSlashes (first ++ second) = behindSlashes first ++ behindSlashes second :=
  List.flatMap_append

theorem behindSlashes_eq_cons {segments : List String} (present : segments ≠ []) :
    behindSlashes segments =
      '/' :: List.intercalate ['/'] (segments.map String.toList) := by
  induction segments with
  | nil => exact absurd rfl present
  | cons segment segments ih =>
      cases segments with
      | nil => simp [behindSlashes]
      | cons next segments =>
          rw [behindSlashes, List.flatMap_cons, ← behindSlashes, ih (by simp)]
          simp

private theorem pieces_behindSlashes {segments : List String}
    (apart : ∀ segment ∈ segments, '/' ∉ segment.toList) :
    Text.pieces '/' (behindSlashes segments) = [] :: segments.map String.toList := by
  cases segments with
  | nil => rfl
  | cons segment segments =>
      have apart : ∀ chars ∈ (segment :: segments).map String.toList, '/' ∉ chars := by
        intro chars found
        obtain ⟨segment, member, rfl⟩ := List.mem_map.mp found
        exact apart segment member
      rw [behindSlashes_eq_cons (by simp), Text.pieces_cons, if_pos rfl,
        Text.pieces_intercalate apart (by simp)]

theorem behindSlashes_inj {first second : List String}
    (firstApart : ∀ segment ∈ first, '/' ∉ segment.toList)
    (secondApart : ∀ segment ∈ second, '/' ∉ segment.toList)
    (same : behindSlashes first = behindSlashes second) : first = second := by
  have pieces := congrArg (Text.pieces '/') same
  rw [pieces_behindSlashes firstApart, pieces_behindSlashes secondApart] at pieces
  have toListInjective : Function.Injective String.toList := fun _ _ => String.toList_inj.mp
  exact List.map_injective_iff.mpr toListInjective (List.cons.inj pieces).2

theorem slash_or_segmentChar {segments : List String}
    (settled : ∀ segment ∈ segments, Settled segment) {char : Char}
    (member : char ∈ List.intercalate ['/'] (segments.map String.toList)) :
    char = '/' ∨ isSegmentChar char = true := by
  rcases Text.mem_of_mem_intercalate member with slash | ⟨_, found, inside⟩
  · exact .inl (List.mem_singleton.mp slash)
  · obtain ⟨segment, source, rfl⟩ := List.mem_map.mp found
    exact .inr ((settled segment source).chars char inside)

/-- Settled segments are read back one by one. -/
theorem readSegments_intercalate {segments : List String}
    (settled : ∀ segment ∈ segments, Settled segment) (present : segments ≠ []) :
    readSegments true (List.intercalate ['/'] (segments.map String.toList)) = segments := by
  have slashed : (List.intercalate ['/'] (segments.map String.toList)).map
      (fun char => if isSlash true char then '/' else char) =
      List.intercalate ['/'] (segments.map String.toList) := by
    refine Eq.trans (List.map_congr_left fun char member => ?_) (List.map_id _)
    rcases slash_or_segmentChar settled member with rfl | inside
    · rfl
    · rw [not_isSlash_of_isSegmentChar inside]
      rfl
  have apart : ∀ text ∈ segments.map String.toList, '/' ∉ text := by
    intro text found
    obtain ⟨segment, member, rfl⟩ := List.mem_map.mp found
    exact (settled segment member).slash_not_mem
  have escaped : segments.map (escape inPath ∘ String.toList) = segments := by
    refine Eq.trans (List.map_congr_left fun segment member => ?_) (List.map_id _)
    exact (settled segment member).escape_toList
  rw [readSegments, rawSegments, slashed, Text.pieces_intercalate apart (by simpa),
    List.map_map, escaped, resolveDots_of_settled settled, List.nil_append]

end DocumentClient.Url
