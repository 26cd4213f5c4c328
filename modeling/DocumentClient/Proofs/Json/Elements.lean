import DocumentClient.Proofs.Json.Record
import Mathlib.Data.List.Forall2

/-!
# The elements of a list

A list by the texts of its elements. Each of them is read as it would be read alone, in their order,
and the first one that cannot be read ends the list with a fault under its index.
-/

set_option autoImplicit false

namespace DocumentClient.Json

open Reader

variable {α : Type}

/-- The texts of the elements behind an opening bracket or a comma, up to the closing bracket. -/
inductive Elements : List Bytes → Bytes → Bytes → Prop where
  | last {element bytes behind rest} : afterBlanks bytes = element ++ behind →
      FirstValue element behind → afterBlanks behind = code ']' :: rest →
      Elements [element] bytes rest
  | more {element others bytes behind next rest} : afterBlanks bytes = element ++ behind →
      FirstValue element behind → afterBlanks behind = code ',' :: next →
      Elements others next rest → Elements (element :: others) bytes rest

/-- What stands between two brackets. -/
def Holds (elements : List Bytes) (bytes rest : Bytes) : Prop :=
  if elements = [] then afterBlanks bytes = code ']' :: rest else Elements elements bytes rest

/-- The whole text is a list of these elements, perhaps with blanks around it. -/
def IsList (elements : List Bytes) (body : Bytes) : Prop :=
  ∃ inside rest, afterBlanks body = code '[' :: inside ∧ Holds elements inside rest ∧
    afterBlanks rest = []

/-! ## Lists by the grammar -/

theorem Elements.ne_nil {elements : List Bytes} {bytes rest : Bytes}
    (holds : Elements elements bytes rest) : elements ≠ [] := by
  cases holds <;> exact List.cons_ne_nil _ _

theorem Elements.stands {elements : List Bytes} {bytes rest : Bytes}
    (holds : Elements elements bytes rest) : Stands (.inside .list) bytes rest := by
  induction holds with
  | last begins first closes =>
      rw [FirstValue, ← begins, afterBlanks_afterBlanks] at first
      exact .entry .item first (.last closes)
  | more begins first comma _ ih =>
      rw [FirstValue, ← begins, afterBlanks_afterBlanks] at first
      exact .entry .item first (.more comma ih)

private theorem exists_elements {bytes rest : Bytes} (stands : Stands (.inside .list) bytes rest) :
    ∃ elements, Elements elements bytes rest := by
  induction size : bytes.length using Nat.strongRecOn generalizing bytes with
  | ind size ih =>
      subst size
      cases stands with
      | @entry _ _ value behind _ entry stands after =>
          cases entry with
          | item =>
              obtain ⟨element, begins⟩ := stands.suffix
              have first : FirstValue element behind := by
                rwa [FirstValue, begins, afterBlanks_afterBlanks]
              cases after with
              | last closes => exact ⟨[element], .last begins.symm first closes⟩
              | more comma further =>
                  have shorter := length_lt_of_stands stands
                  have next := length_lt_of_afterBlanks comma
                  obtain ⟨others, holds⟩ := ih _ (Nat.lt_trans next shorter) further rfl
                  exact ⟨element :: others, .more begins.symm first comma holds⟩

private theorem content_iff {bytes rest : Bytes} :
    Content .list bytes rest ↔ ∃ elements, Holds elements bytes rest := by
  constructor
  · rintro (closes | inside)
    · exact ⟨[], (if_pos rfl).mpr closes⟩
    · obtain ⟨elements, holds⟩ := exists_elements inside
      exact ⟨elements, (if_neg holds.ne_nil).mpr holds⟩
  · rintro ⟨elements, holds⟩
    unfold Holds at holds
    split at holds
    · exact .inl holds
    · exact .inr holds.stands

theorem Elements.head {elements : List Bytes} {bytes rest : Bytes}
    (holds : Elements elements bytes rest) :
    ∃ byte more, afterBlanks bytes = byte :: more ∧ byte ≠ code ']' := by
  have first {element behind : Bytes} (begins : afterBlanks bytes = element ++ behind)
      (first : FirstValue element behind) :
      ∃ byte more, afterBlanks bytes = byte :: more ∧ byte ≠ code ']' := by
    rw [FirstValue, ← begins, afterBlanks_afterBlanks] at first
    obtain ⟨byte, more, same, starts⟩ := first.head
    refine ⟨byte, more, same, ?_⟩
    rintro rfl
    exact absurd starts (by decide)
  cases holds with
  | last begins stands => exact first begins stands
  | more begins stands => exact first begins stands

theorem Elements.unique {elements others : List Bytes} {bytes rest other : Bytes}
    (holds : Elements elements bytes rest) (another : Elements others bytes other) :
    others = elements := by
  have same {one two front : Bytes} {behind ahead : Bytes} (begins : front = one ++ behind)
      (first : FirstValue one behind) (again : front = two ++ ahead)
      (second : FirstValue two ahead) : two = one ∧ ahead = behind := by
    rw [FirstValue, ← begins, again] at first
    obtain rfl : ahead = behind := Stands.unique first second
    exact ⟨List.append_cancel_right (again.symm.trans begins), rfl⟩
  induction holds generalizing others with
  | last begins first closes =>
      cases another with
      | last again second _ =>
          obtain ⟨rfl, -⟩ := same begins first again second
          rfl
      | more again second comma _ =>
          obtain ⟨-, rfl⟩ := same begins first again second
          exact absurd (List.cons.inj (closes.symm.trans comma)).1 (by decide)
  | more begins first comma _ ih =>
      cases another with
      | last again second closes =>
          obtain ⟨-, rfl⟩ := same begins first again second
          exact absurd (List.cons.inj (comma.symm.trans closes)).1 (by decide)
      | more again second also further =>
          obtain ⟨rfl, rfl⟩ := same begins first again second
          obtain ⟨-, rfl⟩ := List.cons.inj (comma.symm.trans also)
          rw [ih further]

theorem IsList.unique {elements others : List Bytes} {body : Bytes}
    (isList : IsList elements body) (another : IsList others body) : others = elements := by
  obtain ⟨inside, rest, opens, holds, _⟩ := isList
  obtain ⟨_, other, again, otherHolds, _⟩ := another
  obtain ⟨-, rfl⟩ := List.cons.inj (again.symm.trans opens)
  have first {elements : List Bytes} {bytes rest other : Bytes}
      (closes : afterBlanks bytes = code ']' :: rest) : ¬ Elements elements bytes other := by
    intro holds
    obtain ⟨byte, more, begins, differs⟩ := holds.head
    exact differs (List.cons.inj (begins.symm.trans closes)).1
  unfold Holds at holds otherHolds
  split at holds <;> split at otherHolds
  · rename_i one two
    rw [one, two]
  · exact absurd otherHolds (first holds)
  · exact absurd holds (first otherHolds)
  · exact holds.unique otherHolds

/-- A text is a list of some elements if it is a value that begins with a bracket. -/
theorem isList_iff {body : Bytes} :
    (∃ elements, IsList elements body) ↔
      IsText body ∧ (afterBlanks body).head? = some (code '[') := by
  constructor
  · rintro ⟨elements, inside, rest, opens, holds, ended⟩
    rw [IsText, opens]
    exact ⟨⟨rest, (content_iff.mpr ⟨elements, holds⟩).stands, ended⟩, rfl⟩
  · rintro ⟨⟨rest, stands, ended⟩, opens⟩
    obtain ⟨inside, begins⟩ := List.head?_eq_some_iff.mp opens
    rw [begins] at stands
    have content : Content .list inside rest := Stands.content stands
    obtain ⟨elements, holds⟩ := content_iff.mp content
    exact ⟨elements, inside, rest, begins, holds, ended⟩

/-! ## Element after element -/

private theorem nextItem_of_closing {cursor : Cursor} {rest : Bytes}
    (closes : afterBlanks cursor.rest = code ']' :: rest) :
    ∃ behind, nextItem.run cursor = .ok (false, behind) ∧ behind.rest = code ']' :: rest := by
  exact ⟨cursor.skipWhile isBlank, run_of_afterBlanks _ closes,
    (rest_skipWhile isBlank cursor).trans closes⟩

private theorem nextItem_of_comma {cursor : Cursor} {next more : Bytes} {byte : UInt8}
    (comma : afterBlanks cursor.rest = code ',' :: next) (begins : afterBlanks next = byte :: more)
    (differs : byte ≠ code ']') :
    ∃ behind, nextItem.run cursor = .ok (true, behind) ∧ behind.rest = afterBlanks next := by
  let behindComma := (cursor.skipWhile isBlank).advance
  obtain ⟨_, left⟩ := skipWhile_isBlank comma
  replace left : behindComma.rest = next := left
  refine ⟨behindComma.skipWhile isBlank, (run_of_afterBlanks _ comma).trans ?_, ?_⟩
  · dsimp only
    rw [if_neg (by decide), if_neg (by simp)]
    refine run_bind_eq_ok.mpr ⟨(), behindComma, rfl, ?_⟩
    rw [← left] at begins
    refine (run_of_afterBlanks _ begins).trans ?_
    dsimp only
    rw [if_neg differs]
    rfl
  · rw [rest_skipWhile, left]
    rfl

/-- The items from one on. -/
def takeFrom (item : Reader α) (index : Nat) : Reader (List α) := do
  let value ← item.under (.item index)
  let others ← moreItems item (index + 1)
  return value :: others

private theorem moreItems_eq_takeFrom (item : Reader α) (index : Nat) :
    moreItems item index = (do if ← nextItem then takeFrom item index else return []) :=
  moreItems_eq item index

private theorem takeItems_eq_takeFrom (item : Reader α) :
    takeItems item = (do if ← firstItem then takeFrom item 0 else return []) :=
  rfl

/-- What these bytes are read as when nothing stands around them. -/
def Alone (item : Reader α) (element : Bytes) (value : α) : Prop :=
  ∃ behind, item.run (Cursor.start element) = .ok (value, behind)

variable {item : Reader α} (lawful : item.Lawful)
include lawful

theorem Alone.there {element behind : Bytes} {value : α} (alone : Alone item element value)
    (first : FirstValue element behind) {start : Cursor} (begins : start.rest = element ++ behind) :
    ∃ last, item.run start = .ok (value, ⟨behind, last⟩) := by
  obtain ⟨_, position⟩ := start
  cases begins
  exact (lawful.alone first _ position value).mp alone

private theorem fails_there {element behind : Bytes} (refused : ∀ value, ¬ Alone item element value)
    (first : FirstValue element behind) {start : Cursor} (begins : start.rest = element ++ behind) :
    ∃ fault, item.run start = .error fault := by
  obtain ⟨_, position⟩ := start
  cases begins
  cases found : item.run ⟨element ++ behind, position⟩ with
  | error fault => exact ⟨fault, rfl⟩
  | ok result =>
      obtain ⟨value, ⟨rest, last⟩⟩ := result
      obtain rfl : rest = behind := first.unique (lawful.settles found).1
      exact absurd ((lawful.alone first ⟨1, 0⟩ position value).mpr ⟨last, found⟩) (refused value)

private theorem takeFrom_ok {elements : List Bytes} {bytes rest : Bytes}
    (holds : Elements elements bytes rest) {values : List α}
    (read : List.Forall₂ (Alone item) elements values) {index : Nat} {start : Cursor}
    (begins : start.rest = afterBlanks bytes) :
    ∃ behind, (takeFrom item index).run start = .ok (values, behind) ∧
      behind.rest = code ']' :: rest := by
  induction holds generalizing values index start with
  | last same first closes =>
      obtain ⟨value, _, alone, nothing, rfl⟩ := List.forall₂_cons_left_iff.mp read
      cases nothing
      obtain ⟨position, taken⟩ := alone.there lawful first (begins.trans same)
      obtain ⟨behind, ended, left⟩ := @nextItem_of_closing ⟨_, position⟩ _ closes
      refine ⟨behind, run_bind_eq_ok.mpr ⟨value, _, run_under_eq_ok.mpr taken, ?_⟩, left⟩
      rw [moreItems_eq_takeFrom]
      exact run_bind_eq_ok.mpr ⟨[], behind, run_bind_eq_ok.mpr ⟨false, behind, ended, rfl⟩, rfl⟩
  | more same first comma further ih =>
      obtain ⟨value, values, alone, others, rfl⟩ := List.forall₂_cons_left_iff.mp read
      obtain ⟨position, taken⟩ := alone.there lawful first (begins.trans same)
      obtain ⟨byte, more, starts, differs⟩ := further.head
      obtain ⟨next, goes, left⟩ := @nextItem_of_comma ⟨_, position⟩ _ _ _ comma starts differs
      obtain ⟨behind, done, closing⟩ := @ih _ others (index + 1) _ left
      refine ⟨behind, run_bind_eq_ok.mpr ⟨value, _, run_under_eq_ok.mpr taken, ?_⟩, closing⟩
      rw [moreItems_eq_takeFrom]
      exact run_bind_eq_ok.mpr ⟨values, behind, run_bind_eq_ok.mpr ⟨true, next, goes, done⟩, rfl⟩

private theorem takeFrom_fails {element behind : Bytes}
    (refused : ∀ value, ¬ Alone item element value)
    (first : FirstValue element behind) (index : Nat) {start : Cursor}
    (begins : start.rest = element ++ behind) :
    ∃ fault, (takeFrom item index).run start = .error (Fault.under (.item index) fault) := by
  obtain ⟨fault, failed⟩ := fails_there lawful refused first begins
  have under : (item.under (.item index)).run start = .error (fault.under (.item index)) := by
    show (item.run start).mapError _ = _
    rw [failed]
    rfl
  exact ⟨fault, by rw [takeFrom, run_bind, under]⟩

/-- The first element that cannot be read is the one that the fault is about. -/
theorem takeFrom_error {elements : List Bytes} {bytes rest : Bytes}
    (holds : Elements elements bytes rest) {before after : List Bytes} {element : Bytes}
    (split : elements = before ++ element :: after)
    (read : ∀ earlier ∈ before, ∃ value, Alone item earlier value)
    (refused : ∀ value, ¬ Alone item element value) {index : Nat} {start : Cursor}
    (begins : start.rest = afterBlanks bytes) :
    ∃ fault, (takeFrom item index).run start =
      .error (Fault.under (.item (index + before.length)) fault) := by
  induction holds generalizing before index start with
  | last same first closes =>
      cases before with
      | nil =>
          obtain ⟨rfl, rfl⟩ := List.cons.inj split
          exact takeFrom_fails lawful refused first index (begins.trans same)
      | cons earlier before => simp at split
  | @more earlier _ _ _ _ _ same first comma further ih =>
      cases before with
      | nil =>
          obtain ⟨rfl, rfl⟩ := List.cons.inj split
          exact takeFrom_fails lawful refused first index (begins.trans same)
      | cons _ before =>
          obtain ⟨rfl, tail⟩ := List.cons.inj split
          obtain ⟨value, alone⟩ := read _ List.mem_cons_self
          obtain ⟨position, taken⟩ := alone.there lawful first (begins.trans same)
          obtain ⟨byte, more, starts, differs⟩ := further.head
          obtain ⟨next, goes, left⟩ := @nextItem_of_comma ⟨_, position⟩ _ _ _ comma starts differs
          have earlierRead := fun other inside => read other (List.mem_cons_of_mem _ inside)
          obtain ⟨fault, failed⟩ := @ih _ tail earlierRead (index + 1) _ left
          refine ⟨fault, ?_⟩
          rw [takeFrom, run_bind, run_under_eq_ok.mpr taken]
          dsimp only
          rw [moreItems_eq_takeFrom, run_bind, run_bind, goes]
          dsimp only
          rw [if_pos rfl, failed, List.length_cons, Nat.add_right_comm, Nat.add_assoc]

/-- What a list is read as: all of its elements, or a fault under the first one that fails. -/
theorem takeItems_of_holds {elements : List Bytes} {cursor : Cursor} {rest : Bytes}
    (holds : Holds elements cursor.rest rest) :
    (∀ values, List.Forall₂ (Alone item) elements values →
      ∃ behind, (takeItems item).run cursor = .ok (values, behind) ∧
        behind.rest = code ']' :: rest) ∧
    (∀ before element after, elements = before ++ element :: after →
      (∀ earlier ∈ before, ∃ value, Alone item earlier value) →
      (∀ value, ¬ Alone item element value) →
      ∃ fault, (takeItems item).run cursor =
        .error (Fault.under (.item before.length) fault)) := by
  unfold Holds at holds
  have left := rest_skipWhile isBlank cursor
  have first {byte : UInt8} {more : Bytes} (begins : afterBlanks cursor.rest = byte :: more) :
      firstItem.run cursor = .ok (byte != code ']', cursor.skipWhile isBlank) :=
    run_of_afterBlanks _ begins
  rw [takeItems_eq_takeFrom]
  split at holds
  · rename_i empty
    subst empty
    refine ⟨fun values read => ?_, fun before element after split => by simp at split⟩
    obtain rfl := List.forall₂_nil_left_iff.mp read
    exact ⟨_, run_bind_eq_ok.mpr ⟨false, _, first holds, rfl⟩, left.trans holds⟩
  · obtain ⟨byte, more, begins, differs⟩ := holds.head
    have goes : firstItem.run cursor = .ok (true, cursor.skipWhile isBlank) := by
      rw [first begins]
      simp [differs]
    constructor
    · intro values read
      obtain ⟨behind, done, closing⟩ := takeFrom_ok lawful holds read left
      exact ⟨behind, run_bind_eq_ok.mpr ⟨true, _, goes, done⟩, closing⟩
    · intro before element after split read refused
      obtain ⟨fault, failed⟩ := takeFrom_error lawful holds split read refused left
      refine ⟨fault, ?_⟩
      rw [run_bind, goes]
      dsimp only
      rw [if_pos rfl, failed, Nat.zero_add]

omit lawful

/-! ## All of the elements or a first one -/

private theorem run_list {decoder : Decoder α} {levels : Nat} {cursor : Cursor} {inside : Bytes}
    (opens : afterBlanks cursor.rest = code '[' :: inside) :
    ∃ start, start.rest = inside ∧ (list decoder (levels + 1)).run cursor =
      (takeItems (decoder levels) >>= fun values => advance >>= fun _ => pure values).run start := by
  refine ⟨(cursor.skipWhile isBlank).advance, (skipWhile_isBlank opens).2,
    (run_of_afterBlanks _ opens).trans ?_⟩
  rw [if_pos rfl]
  rfl

theorem list_of_isList {decoder : Decoder α} {levels : Nat} {elements : List Bytes} {body : Bytes}
    (lawful : (decoder levels).Lawful) (isList : IsList elements body) :
    (∀ values, List.Forall₂ (Alone (decoder levels)) elements values →
      Alone (list decoder (levels + 1)) body values) ∧
    (∀ before element after, elements = before ++ element :: after →
      (∀ earlier ∈ before, ∃ value, Alone (decoder levels) earlier value) →
      (∀ value, ¬ Alone (decoder levels) element value) →
      ∃ fault, (list decoder (levels + 1)).run (Cursor.start body) =
        .error (Fault.under (.item before.length) fault)) := by
  obtain ⟨inside, rest, opens, holds, _⟩ := isList
  obtain ⟨start, rfl, same⟩ := @run_list _ decoder levels (Cursor.start body) _ opens
  obtain ⟨every, first⟩ := takeItems_of_holds lawful holds
  constructor
  · intro values read
    obtain ⟨behind, taken, _⟩ := every values read
    exact ⟨behind.advance, same.trans (run_bind_eq_ok.mpr ⟨values, behind, taken, rfl⟩)⟩
  · intro before element after split read refused
    obtain ⟨fault, failed⟩ := first before element after split read refused
    exact ⟨fault, by rw [same, run_bind, failed]⟩

theorem every_or_first {Read : Bytes → α → Prop} (elements : List Bytes) :
    (∃ values, List.Forall₂ Read elements values) ∨
      ∃ before element after, elements = before ++ element :: after ∧
        (∀ earlier ∈ before, ∃ value, Read earlier value) ∧ ∀ value, ¬ Read element value := by
  induction elements with
  | nil => exact .inl ⟨[], .nil⟩
  | cons element others ih =>
      by_cases known : ∃ value, Read element value
      · obtain ⟨value, read⟩ := known
        obtain ⟨values, every⟩ | ⟨before, failing, after, rfl, earlier, refused⟩ := ih
        · exact .inl ⟨value :: values, .cons read every⟩
        · refine .inr ⟨element :: before, failing, after, rfl, ?_, refused⟩
          exact List.forall_mem_cons.mpr ⟨⟨value, read⟩, earlier⟩
      · exact .inr ⟨[], element, others, rfl, by simp, not_exists.mp known⟩

end DocumentClient.Json
