import DocumentClient.PathSegment
import DocumentClient.Proofs.Percent
import DocumentClient.Proofs.Text.Cutting

/-!
# Acceptable names

Exactly the acceptable names have a written form, and it reads back as the name.
-/

set_option autoImplicit false

namespace DocumentClient.PathSegment

/-- A name that escaping keeps in its place: it is not empty, and no dot segment. -/
def Acceptable (segment : String) : Prop :=
  segment ≠ "" ∧ segment ≠ "." ∧ segment ≠ ".."

instance (segment : String) : Decidable (Acceptable segment) :=
  inferInstanceAs (Decidable (_ ∧ _ ∧ _))

theorem not_acceptable_iff {segment : String} :
    ¬ Acceptable segment ↔ segment = "" ∨ segment = "." ∨ segment = ".." := by
  unfold Acceptable
  tauto

/-- A path between whose slashes every name is acceptable. -/
def AcceptablePath (path : String) : Prop :=
  ∀ piece ∈ Text.piecesOf '/' path, Acceptable piece

instance (path : String) : Decidable (AcceptablePath path) :=
  inferInstanceAs (Decidable (∀ piece ∈ Text.piecesOf '/' path, Acceptable piece))

def written (segment : String) : String :=
  Percent.encode escaped segment

theorem slash_not_mem_written (segment : String) : '/' ∉ (written segment).toList := by
  intro member
  rw [written, Percent.encode, String.toList_ofList] at member
  exact absurd (Percent.encodeChars_all (· != '/') (by decide) member) (by decide)

/-- Names can be told from what is written of them between slashes. -/
theorem piecesOf_join_written {names : List String} (present : names ≠ []) :
    Text.piecesOf '/' (Text.join "/" (names.map written)) = names.map written :=
  Text.piecesOf_join (List.forall_mem_map.mpr fun name _ => slash_not_mem_written name)
    (by simpa using present)

theorem encode_of_acceptable {segment : String} (acceptable : Acceptable segment)
    (what : String) : encode segment what = .ok (written segment) := by
  simp [encode, written, acceptable.1, acceptable.2.1, acceptable.2.2]

theorem encode_of_not_acceptable {segment : String} (refused : ¬ Acceptable segment)
    (what : String) : ∃ misuse, encode segment what = .error misuse := by
  unfold encode
  split
  · exact ⟨_, rfl⟩
  · split
    · exact ⟨_, rfl⟩
    · rename_i notEmpty notDots
      exact absurd ⟨notEmpty, not_or.mp notDots⟩ refused

private theorem mapM_encode_of_acceptable {segments : List String} (what : String)
    (acceptable : ∀ segment ∈ segments, Acceptable segment) :
    segments.mapM (encode · what) = .ok (segments.map written) := by
  induction segments with
  | nil => rfl
  | cons segment segments ih =>
      rw [List.mapM_cons, encode_of_acceptable (acceptable segment List.mem_cons_self),
        ih fun other member => acceptable other (List.mem_cons_of_mem _ member)]
      rfl

private theorem mapM_encode_of_not_acceptable {segments : List String} (what : String)
    (refused : ¬ ∀ segment ∈ segments, Acceptable segment) :
    ∃ misuse, segments.mapM (encode · what) = .error misuse := by
  induction segments with
  | nil => exact absurd (fun _ member => absurd member List.not_mem_nil) refused
  | cons segment segments ih =>
      rw [List.mapM_cons]
      by_cases first : Acceptable segment
      · have later : ¬ ∀ other ∈ segments, Acceptable other := by
          intro acceptable
          exact refused (List.forall_mem_cons.mpr ⟨first, acceptable⟩)
        obtain ⟨misuse, failed⟩ := ih later
        rw [encode_of_acceptable first, failed]
        exact ⟨misuse, rfl⟩
      · obtain ⟨misuse, failed⟩ := encode_of_not_acceptable first what
        rw [failed]
        exact ⟨misuse, rfl⟩

theorem encodePath_of_acceptable {path : String} (acceptable : AcceptablePath path)
    (what : String) :
    encodePath path what = .ok (Text.join "/" ((Text.piecesOf '/' path).map written)) := by
  rw [encodePath, mapM_encode_of_acceptable what acceptable]
  rfl

theorem encodePath_of_not_acceptable {path : String} (refused : ¬ AcceptablePath path)
    (what : String) : ∃ misuse, encodePath path what = .error misuse := by
  obtain ⟨misuse, failed⟩ := mapM_encode_of_not_acceptable what refused
  rw [encodePath, failed]
  exact ⟨misuse, rfl⟩

theorem decode_written (segment : String) :
    Percent.decode (utf8 (written segment)) = utf8 segment :=
  Percent.decode_utf8_encode (by decide) segment

theorem written_ne_empty {segment : String} (acceptable : Acceptable segment) :
    written segment ≠ "" := by
  intro nothing
  have bytes := decode_written segment
  rw [nothing] at bytes
  exact acceptable.1 (utf8_inj.mp bytes.symm)

end DocumentClient.PathSegment
