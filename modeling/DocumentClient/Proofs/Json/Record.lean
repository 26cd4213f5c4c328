import DocumentClient.Json.Record
import DocumentClient.Proofs.Json.Members

/-!
# Readers of records

A record is read from an object by the names of its fields or from a list by their order. Main
statement: `Target.lawful`, every decoder that is put together from those of this library reads
values as `Lawful` says.
-/

set_option autoImplicit false

namespace DocumentClient.Json

open Reader

namespace Record

variable {α : Type} {record : Record α}

/-! ## From an object -/

private theorem fails_duplicate {β : Type} (name : String) : (duplicate name : Reader β).Fails := by
  refine Fails.of_bind fun _ => Fails.of_bind fun next => ?_
  dsimp only
  split
  · exact Fails.of_bind fun _ => fails_failHere _
  · exact fails_failHere _

private theorem readsMember_takeChange {levels : Nat}
    (lawful : ∀ field ∈ record.fields, (field.read levels).Lawful) (seen : List String)
    (name : String) : ReadsMember (record.takeChange levels seen name) := by
  unfold takeChange
  split
  · have skips := ReadsMember.of_value local_skipValue
      (fun _ _ _ found => stands_of_skipValue found) name
    refine ⟨skips.isLocal.bind fun _ => local_pure id, fun cursor behind change found => ?_⟩
    obtain ⟨_, middle, skipped, found⟩ := run_bind_eq_ok.mp found
    obtain ⟨_, rfl⟩ := run_pure_eq_ok.mp found
    exact skips.stands skipped
  · rename_i field known
    split
    · exact ⟨(fails_duplicate name).isLocal, fun _ _ _ found =>
        absurd found (@fails_duplicate _ name _ _)⟩
    · exact (lawful field (List.mem_of_find?_eq_some known)).readsMember name

/-- The fields from a name on, behind those that are already known. -/
def moreFields (record : Record α) (levels : Nat) (known : List String × α) :
    Reader (List String × α) :=
  ⟨record.fieldsFrom levels known.1 known.2, size_fieldsFrom_le⟩

theorem moreFields_eq (record : Record α) (levels : Nat) (known : List String × α) :
    record.moreFields levels known = (do
      match ← takeName known.1.isEmpty with
      | none => return known
      | some name =>
        let change ← record.takeChange levels known.1 name
        record.moreFields levels (name :: known.1, change known.2) >>= pure) := by
  refine eq_of_run fun cursor => ?_
  show record.fieldsFrom levels known.1 known.2 cursor = _
  rw [fieldsFrom, run_bind]
  split
  · rename_i failed
    rw [failed]
  · rename_i ended
    rw [ended]
    rfl
  · rename_i name start named
    rw [named]
    dsimp only
    rw [run_bind]
    split
    · rename_i failed
      rw [failed]
    · rename_i change middle taken
      rw [taken]
      show (record.moreFields levels (name :: known.1, change known.2)).run middle =
        (record.moreFields levels (name :: known.1, change known.2) >>= pure).run middle
      rw [run_bind]
      cases (record.moreFields levels (name :: known.1, change known.2)).run middle <;> rfl

private theorem readsContent_moreFields {levels : Nat}
    (lawful : ∀ field ∈ record.fields, (field.read levels).Lawful) :
    ReadsContent .object (record.moreFields levels ([], record.blank)) where
  isLocal := local_memberLoop (record.moreFields_eq levels)
    (fun known name => readsMember_takeChange lawful known.1 name) _
  content _ _ _ found := continues_of_memberLoop (record.moreFields_eq levels)
    (fun known name => readsMember_takeChange lawful known.1 name) (fun _ _ _ => rfl) found

/-- What is left to do behind the closing brace. -/
def complete (record : Record α) (known : List String × α) : Reader α :=
  match record.missing? known.1 with
  | some name => failHere (.missingField name)
  | none => return known.2

theorem fromObject_eq (record : Record α) (levels : Nat) :
    record.fromObject levels =
      record.moreFields levels ([], record.blank) >>= fun known => advance >>= fun _ =>
        record.complete known :=
  rfl

private theorem bare_complete (known : List String × α) : (record.complete known).Bare := by
  unfold complete
  split
  · exact (fails_failHere _).bare
  · exact bare_pure _

private theorem firm_fromObject {levels : Nat}
    (lawful : ∀ field ∈ record.fields, (field.read levels).Lawful) :
    (record.fromObject levels).Firm := by
  rw [fromObject_eq]
  exact (readsContent_moreFields lawful).firm bare_complete

private theorem content_of_fromObject {levels : Nat}
    (lawful : ∀ field ∈ record.fields, (field.read levels).Lawful) {cursor behind : Cursor}
    {value : α} (found : (record.fromObject levels).run cursor = .ok (value, behind)) :
    Content .object cursor.rest behind.rest := by
  rw [fromObject_eq] at found
  exact (readsContent_moreFields lawful).closed bare_complete found

/-! ## From a list -/

private theorem firm_endList : endList.Firm := by
  refine local_skipBlanks.bind_firm fun _ => ?_
  intro cursor behind value found
  rw [run_bind, run_peek] at found
  dsimp only at found
  split at found
  · cases found
  rename_i byte head
  split at found
  · rename_i closing
    cases found
    refine ⟨[byte], by simp, rest_of_head? head, fun next => ?_⟩
    exact Takes.bind_nothing (takes_peek _) ((takes_advance byte next).if_pos closing)
  split at found
  · obtain ⟨_, _, _, found⟩ := run_bind_eq_ok.mp found
    obtain ⟨_, _, _, found⟩ := run_bind_eq_ok.mp found
    obtain ⟨_, _, _, found⟩ := run_bind_eq_ok.mp found
    cases found
  · cases found

private theorem rest_endList {cursor behind : Cursor}
    (found : endList.run cursor = .ok ((), behind)) :
    afterBlanks cursor.rest = code ']' :: behind.rest := by
  obtain ⟨start, begins, found⟩ := run_blanks_peek found
  rw [← begins]
  split at found
  · cases found
  rename_i byte head
  split at found
  · rename_i closing
    cases found
    exact closing ▸ rest_of_head? head
  split at found
  · obtain ⟨_, _, _, found⟩ := run_bind_eq_ok.mp found
    obtain ⟨_, _, _, found⟩ := run_bind_eq_ok.mp found
    obtain ⟨_, _, _, found⟩ := run_bind_eq_ok.mp found
    cases found
  · cases found

/-- The items of a list that are read one after another. -/
def itemAt (index : Nat) : Reader Bool :=
  if index = 0 then firstItem else nextItem

private theorem takeOrdered_cons (record : Record α) (levels index : Nat) (value : α)
    (field : Field α) (fields : List (Field α)) :
    record.takeOrdered levels index value (field :: fields) = (do
      if ← itemAt index then
        let change ← (field.read levels).under (.item index)
        record.takeOrdered levels (index + 1) (change value) fields
      else if field.required then
        advance
        failHere (.wrongLength index record.wantedLength)
      else record.takeOrdered levels (index + 1) value fields) := by
  rw [takeOrdered, itemAt]
  split <;> rfl

private theorem local_takeOrdered {levels : Nat} {fields : List (Field α)}
    (lawful : ∀ field ∈ fields, (field.read levels).Lawful) (index : Nat) (value : α) :
    (record.takeOrdered levels index value fields).Local := by
  induction fields generalizing index value with
  | nil => exact local_pure value
  | cons field fields ih =>
      have inner := fun other inside => lawful other (List.mem_cons_of_mem field inside)
      rw [takeOrdered_cons]
      exact (local_ite local_firstItem local_nextItem : (itemAt index).Local).bind fun _ => local_ite
        (((lawful field List.mem_cons_self).isLocal.under _).bind fun _ => ih inner _ _)
        (local_ite (local_advance.bind fun _ => (fails_failHere _).isLocal) (ih inner _ _))

/-- The rest of a list, in front of its first item or behind an item. -/
def Lists (index : Nat) (bytes rest : Bytes) : Prop :=
  if index = 0 then Content .list bytes rest else Stands (.behind .list) bytes rest

theorem Lists.of_closing {index : Nat} {bytes rest : Bytes}
    (closes : afterBlanks bytes = code ']' :: rest) : Lists index bytes rest := by
  unfold Lists
  split
  · exact .inl closes
  · exact .last closes

private theorem lists_of_itemAt {index : Nat} {cursor start : Cursor}
    (found : (itemAt index).run cursor = .ok (true, start)) {middle rest : Bytes}
    (stands : Stands .value (afterBlanks start.rest) middle)
    (behind : Stands (.behind .list) middle rest) : Lists index cursor.rest rest := by
  unfold itemAt at found
  unfold Lists
  split at found
  · rename_i zero
    rw [(rest_firstItem found).1, afterBlanks_afterBlanks] at stands
    exact (if_pos zero).mpr (.inr (.entry .item stands behind))
  · rename_i later
    obtain ⟨item, comma, same⟩ := rest_nextItem found
    rw [same, afterBlanks_afterBlanks] at stands
    exact (if_neg later).mpr (.more comma (.entry .item stands behind))

private theorem rest_itemAt {index : Nat} {cursor start : Cursor}
    (found : (itemAt index).run cursor = .ok (false, start)) :
    start.rest = afterBlanks cursor.rest ∧ start.head? = some (code ']') := by
  unfold itemAt at found
  split at found
  · exact ⟨(rest_firstItem found).1, (rest_firstItem found).2 rfl⟩
  · exact rest_nextItem found

private theorem lists_of_takeOrdered {levels : Nat} {fields : List (Field α)}
    (lawful : ∀ field ∈ fields, (field.read levels).Lawful) {index : Nat} {value last : α}
    {cursor behind : Cursor} {rest : Bytes}
    (found : (record.takeOrdered levels index value fields).run cursor = .ok (last, behind))
    (closes : afterBlanks behind.rest = code ']' :: rest) : Lists index cursor.rest rest := by
  induction fields generalizing index value cursor with
  | nil =>
      obtain ⟨_, rfl⟩ := run_pure_eq_ok.mp found
      exact .of_closing closes
  | cons field fields ih =>
      have inner := fun other inside => lawful other (List.mem_cons_of_mem field inside)
      rw [takeOrdered_cons] at found
      obtain ⟨more, start, next, found⟩ := run_bind_eq_ok.mp found
      cases more with
      | true =>
          obtain ⟨change, middle, taken, found⟩ := run_bind_eq_ok.mp found
          have settled := (lawful field List.mem_cons_self).settles (run_under_eq_ok.mp taken)
          exact lists_of_itemAt next settled.1 (ih inner found)
      | false =>
          -- the list ends here, and whatever is still to be read finds it ended
          obtain ⟨same, closing⟩ := rest_itemAt next
          have begins := rest_of_head? closing
          rw [if_neg Bool.false_ne_true] at found
          split at found
          · cases found
          · have ended : Stands (.behind .list) start.rest rest := ih inner found
            cases ended with
            | last closes =>
                rw [same, afterBlanks_afterBlanks] at closes
                exact .of_closing closes
            | more comma =>
                rw [same, afterBlanks_afterBlanks, ← same, begins] at comma
                exact absurd (List.cons.inj comma).1 (by decide)

private theorem firm_fromList {levels : Nat}
    (lawful : ∀ field ∈ record.fields, (field.read levels).Lawful) :
    (record.fromList levels).Firm :=
  (local_takeOrdered lawful 0 record.blank).bind_firm fun value =>
    firm_endList.bind_blind fun _ => blind_pure value

private theorem content_of_fromList {levels : Nat}
    (lawful : ∀ field ∈ record.fields, (field.read levels).Lawful) {cursor behind : Cursor}
    {value : α} (found : (record.fromList levels).run cursor = .ok (value, behind)) :
    Content .list cursor.rest behind.rest := by
  obtain ⟨last, middle, taken, found⟩ := run_bind_eq_ok.mp found
  obtain ⟨_, _, ended, found⟩ := run_bind_eq_ok.mp found
  obtain ⟨_, rfl⟩ := run_pure_eq_ok.mp found
  exact lists_of_takeOrdered lawful taken (rest_endList ended)

/-! ## Levels -/

section

variable {levels others : Nat}
  (same : ∀ field ∈ record.fields, field.read levels = field.read others)
include same

private theorem takeChange_congr (seen : List String) (name : String) :
    record.takeChange levels seen name = record.takeChange others seen name := by
  unfold takeChange
  cases known : record.field? name with
  | none => rfl
  | some field =>
      dsimp only
      rw [same field (List.mem_of_find?_eq_some known)]

private theorem moreFields_congr (known : List String × α) :
    record.moreFields levels known = record.moreFields others known := by
  refine eq_of_run fun cursor => ?_
  induction size : cursor.size using Nat.strongRecOn generalizing cursor known with
  | ind size ih =>
      subst size
      rw [moreFields_eq record levels, moreFields_eq record others, run_bind, run_bind]
      cases named : (takeName known.1.isEmpty).run cursor with
      | error fault => rfl
      | ok result =>
          obtain ⟨_ | name, start⟩ := result
          · rfl
          · dsimp only
            rw [run_bind, run_bind, takeChange_congr same]
            cases taken : (record.takeChange others known.1 name).run start with
            | error fault => rfl
            | ok changed =>
                have smaller : changed.2.size < cursor.size :=
                  Nat.lt_of_le_of_lt ((record.takeChange others known.1 name).size_le taken)
                    (size_takeName_lt named)
                dsimp only
                rw [run_bind, run_bind, ih _ smaller _ _ rfl]

private theorem takeOrdered_congr (index : Nat) (value : α) {fields : List (Field α)}
    (known : ∀ field ∈ fields, field ∈ record.fields) :
    record.takeOrdered levels index value fields =
      record.takeOrdered others index value fields := by
  induction fields generalizing index value with
  | nil => rfl
  | cons field fields ih =>
      obtain ⟨here, further⟩ := List.forall_mem_cons.mp known
      rw [takeOrdered_cons, takeOrdered_cons, same field here]
      simp only [ih _ _ further]

/-- A record of fields that are read alike on two levels is itself read alike, one level up. -/
theorem decoder_congr : record.decoder (levels + 1) = record.decoder (others + 1) := by
  have object : record.fromObject levels = record.fromObject others := by
    rw [fromObject_eq, fromObject_eq, moreFields_congr same]
  have list : record.fromList levels = record.fromList others := by
    rw [fromList, fromList, takeOrdered_congr same _ _ fun _ inside => inside]
  refine eq_of_run fun cursor => ?_
  rw [decoder, decoder, run_bind, run_bind]
  cases blanks : skipBlanks.run cursor with
  | error fault => rfl
  | ok result =>
      dsimp only
      rw [run_bind, run_bind, run_peek]
      dsimp only
      split
      · exact congrArg (fun reader => (advance >>= fun _ => reader).run result.2) object
      · exact congrArg (fun reader => (advance >>= fun _ => reader).run result.2) list
      · rfl

end

/-! ## From either -/

private theorem lawful_decoder
    (lawful : ∀ field ∈ record.fields, ∀ levels, (field.read levels).Lawful)
    (levels : Nat) : (record.decoder levels).Lawful := by
  have fields (levels : Nat) : ∀ field ∈ record.fields, (field.read levels).Lawful :=
    fun field inside => lawful field inside levels
  have firm : (record.decoder levels).Firm := by
    refine local_skipBlanks.bind_firm fun _ => local_peek.bind_firm fun next => ?_
    split
    · exact (local_enter levels).bind_firm fun inner => firm_fromObject (fields inner)
    · exact (local_enter levels).bind_firm fun inner => firm_fromList (fields inner)
    · exact (fails_mismatch _).firm
  refine firm.lawful fun cursor behind value found => ?_
  obtain ⟨start, begins, found⟩ := run_blanks_peek found
  rw [← begins]
  split at found
  · rename_i known
    obtain ⟨byte, head, known⟩ := Option.bind_eq_some_iff.mp known
    obtain ⟨inner, middle, entered, found⟩ := run_bind_eq_ok.mp found
    rw [rest_enter head entered, Frame.opening_of_ofByte? known]
    exact (content_of_fromObject (fields inner) found).stands
  · rename_i known
    obtain ⟨byte, head, known⟩ := Option.bind_eq_some_iff.mp known
    obtain ⟨inner, middle, entered, found⟩ := run_bind_eq_ok.mp found
    rw [rest_enter head entered, Frame.opening_of_ofByte? known]
    exact (content_of_fromList (fields inner) found).stands
  · exact absurd found (@fails_mismatch _ _ _ _)

end Record

/-! ## Targets -/

/-- The decoders that are put together from those of this library. -/
inductive Target : {α : Type} → Decoder α → Prop where
  | text : Target text
  | bool : Target bool
  | unsigned (bits wanted) : Target (unsigned bits wanted)
  | value : Target value
  | optional {α} {decoder : Decoder α} : Target decoder → Target (optional decoder)
  | list {α} {decoder : Decoder α} : Target decoder → Target (list decoder)
  | members {α} {decoder : Decoder α} : Target decoder → Target (members decoder)
  | map {α β} {decoder : Decoder α} (change : α → β) : Target decoder → Target (decoder.map change)
  | record {α} {record : Record α} : (∀ field ∈ record.fields, Target field.read) →
      Target record.decoder

theorem Target.needed {α β : Type} {decoder : Decoder β} (target : Target decoder) (name : String)
    (set : β → α → α) : Target (Field.needed name decoder set).read :=
  target.map set

theorem Target.defaulted {α β : Type} {decoder : Decoder β} (target : Target decoder)
    (name : String) (set : β → α → α) : Target (Field.defaulted name decoder set).read :=
  target.map set

theorem Target.lawful {α : Type} {decoder : Decoder α} (target : Target decoder) (levels : Nat) :
    (decoder levels).Lawful := by
  induction target generalizing levels with
  | text => exact lawful_text levels
  | bool => exact lawful_bool levels
  | unsigned bits wanted => exact lawful_unsigned bits wanted levels
  | value => exact lawful_value levels
  | optional _ ih => exact lawful_optional (ih levels)
  | list _ ih => exact lawful_list ih levels
  | members _ ih => exact lawful_members ih levels
  | map change _ ih => exact (ih levels).map change
  | record _ ih => exact Record.lawful_decoder ih levels

end DocumentClient.Json
