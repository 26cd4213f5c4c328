import DocumentClient.Proofs.Json.Elements

/-!
# The members of an object

An object by the names of its members and the texts of their values, in any order and with any
blanks between them. A record or a map is made of what these texts are read as alone. Main
statements: `Record.alone_of_isObject` and `members_of_isObject`.
-/

set_option autoImplicit false

namespace DocumentClient.Json

open Reader

variable {α β γ σ : Type}

/-- A text that is read as this name, and a colon behind it. -/
def Names (bytes : Bytes) (name : String) (value : Bytes) : Prop :=
  ∃ named colon, afterBlanks bytes = named ++ colon ∧ FirstValue named colon ∧
    Alone (text 0) named name ∧ afterBlanks colon = code ':' :: value

/-- The members up to the closing brace, each by its name and the text of its value. -/
inductive Members : Bool → List (String × Bytes) → Bytes → Bytes → Prop where
  | closes {first bytes rest} : afterBlanks bytes = code '\x7d' :: rest →
      Members first [] bytes rest
  | member {first name element others bytes start value behind rest} : Leads first bytes start →
      Names start name value → afterBlanks value = element ++ behind → FirstValue element behind →
      Members false others behind rest → Members first ((name, element) :: others) bytes rest

/-- The whole text is an object of these members, perhaps with blanks around it. -/
def IsObject (members : List (String × Bytes)) (body : Bytes) : Prop :=
  ∃ inside rest, afterBlanks body = code '\x7b' :: inside ∧ Members true members inside rest ∧
    afterBlanks rest = []

/-! ## Objects by the grammar -/

private theorem quoted_of_text {levels : Nat} {cursor behind : Cursor} {name : String}
    (found : (text levels).run cursor = .ok (name, behind)) :
    ∃ inside, afterBlanks cursor.rest = code '"' :: inside ∧ Quoted inside behind.rest ∧
      ∀ start : Cursor, start.rest = inside →
        ∃ last, takeText.run start = .ok (name, ⟨behind.rest, last⟩) := by
  obtain ⟨start, begins, found⟩ := run_blanks_peek found
  rw [← begins]
  split at found
  · rename_i quote
    obtain ⟨_, _, moved, taken⟩ := run_bind_eq_ok.mp found
    cases moved
    obtain ⟨quoted, front, _, split, takes⟩ := quoted_of_takeText taken
    refine ⟨_, rest_of_head? quote, quoted, fun next same => ?_⟩
    obtain ⟨last, done⟩ := takes behind.rest.head? behind.rest next.position rfl
    rw [← split, ← same] at done
    exact ⟨last, done⟩
  · exact absurd found (@fails_mismatch _ _ _ _)

theorem Names.quoted {bytes value : Bytes} {name : String} (names : Names bytes name value) :
    ∃ inside colon, afterBlanks bytes = code '"' :: inside ∧ Quoted inside colon ∧
      afterBlanks colon = code ':' :: value ∧
      ∀ start : Cursor, start.rest = inside →
        ∃ last, takeText.run start = .ok (name, ⟨colon, last⟩) := by
  obtain ⟨named, colon, begins, first, alone, follows⟩ := names
  obtain ⟨last, found⟩ := @Alone.there _ _ (lawful_text 0) _ _ _ alone first
    (Cursor.start (named ++ colon)) rfl
  obtain ⟨inside, opens, quoted, reads⟩ := quoted_of_text found
  rw [show (Cursor.start (named ++ colon)).rest = _ from begins.symm, afterBlanks_afterBlanks] at opens
  exact ⟨inside, colon, opens, quoted, follows, reads⟩

theorem Names.entry {bytes value : Bytes} {name : String} (names : Names bytes name value) :
    Entry .object bytes value := by
  obtain ⟨inside, colon, opens, quoted, follows, _⟩ := names.quoted
  exact .member opens quoted follows

theorem Members.continues {first : Bool} {members : List (String × Bytes)} {bytes rest : Bytes}
    (holds : Members first members bytes rest) : Continues first bytes rest := by
  induction holds with
  | closes ends => exact .of_closing ends
  | member leads names begins stands _ ih =>
      rw [FirstValue, ← begins, afterBlanks_afterBlanks] at stands
      exact leads.continues names.entry stands ih

/-- An object is a whole text by itself. -/
theorem IsObject.isText {members : List (String × Bytes)} {body : Bytes}
    (object : IsObject members body) : IsText body := by
  obtain ⟨inside, rest, opens, holds, ended⟩ := object
  have content : Content .object inside rest := holds.continues
  exact ⟨rest, opens ▸ content.stands, ended⟩

/-! ## Names and colons -/

private theorem run_takeName_of_closing {first : Bool} {cursor : Cursor} {rest : Bytes}
    (closes : afterBlanks cursor.rest = code '\x7d' :: rest) :
    ∃ behind, (takeName first).run cursor = .ok (none, behind) ∧
      behind.rest = code '\x7d' :: rest := by
  exact ⟨_, run_under_eq_ok.mpr (run_of_afterBlanks _ closes),
    (rest_skipWhile isBlank cursor).trans closes⟩

private theorem run_openName {cursor : Cursor} {inside colon : Bytes} {name : String}
    {atEnd atClosing : Cause} (opens : cursor.rest = code '"' :: inside)
    (reads : ∀ start : Cursor, start.rest = inside →
      ∃ last, takeText.run start = .ok (name, ⟨colon, last⟩)) :
    ∃ last, (do
      openName atEnd atClosing
      return some (← takeText) : Reader (Option String)).run cursor =
        .ok (some name, ⟨colon, last⟩) := by
  have head : cursor.head? = some (code '"') := by
    rw [Cursor.head?, opens]
    rfl
  have opened : (openName atEnd atClosing).run cursor = .ok ((), cursor.advance) := by
    unfold openName
    rw [run_bind, run_peek, head]
    rfl
  obtain ⟨last, taken⟩ := reads cursor.advance
    (List.cons.inj ((rest_of_head? head).symm.trans opens)).2
  exact ⟨last, run_bind_eq_ok.mpr ⟨(), _, opened, run_bind_eq_ok.mpr ⟨name, _, taken, rfl⟩⟩⟩

private theorem run_takeName_of_names {first : Bool} {cursor : Cursor} {start value : Bytes}
    {name : String} (leads : Leads first cursor.rest start) (names : Names start name value) :
    ∃ behind, (takeName first).run cursor = .ok (some name, behind) ∧
      afterBlanks behind.rest = code ':' :: value := by
  obtain ⟨inside, colon, opens, _, follows, reads⟩ := names.quoted
  let skipped := cursor.skipWhile isBlank
  cases first with
  | true =>
      obtain rfl : start = cursor.rest := leads
      have left : skipped.rest = code '"' :: inside := (rest_skipWhile isBlank cursor).trans opens
      obtain ⟨last, taken⟩ := @run_openName _ _ _ _ .endInObject .nameNotText left reads
      refine ⟨⟨colon, last⟩, run_under_eq_ok.mpr ((run_of_afterBlanks _ opens).trans ?_), follows⟩
      dsimp only
      rwa [if_neg (by decide), if_pos rfl]
  | false =>
      have comma : afterBlanks cursor.rest = code ',' :: start := leads
      obtain ⟨_, left⟩ := skipWhile_isBlank comma
      have next : (skipped.advance.skipWhile isBlank).rest = code '"' :: inside := by
        rw [rest_skipWhile, show skipped.advance.rest = start from left]
        exact opens
      obtain ⟨last, taken⟩ := @run_openName _ _ _ _ .endInValue .trailingComma next reads
      refine ⟨⟨colon, last⟩, run_under_eq_ok.mpr ((run_of_afterBlanks _ comma).trans ?_), follows⟩
      dsimp only
      rw [if_neg (by decide), if_neg Bool.false_ne_true, if_pos rfl]
      exact run_bind_eq_ok.mpr ⟨(), skipped.advance, rfl,
        run_bind_eq_ok.mpr ⟨(), _, run_skipWhile isBlank skipped.advance, taken⟩⟩

private theorem run_takeColon {cursor : Cursor} {value : Bytes}
    (colon : afterBlanks cursor.rest = code ':' :: value) :
    ∃ behind, takeColon.run cursor = .ok ((), behind) ∧ behind.rest = value := by
  exact ⟨_, run_of_afterBlanks _ colon, (skipWhile_isBlank colon).2⟩

/-! ## Values behind blanks -/

/-- Blanks in front do not change anything, not even where a fault is. -/
def Reader.SkipsBlanks (reader : Reader α) : Prop :=
  ∀ cursor : Cursor, reader.run (cursor.skipWhile isBlank) = reader.run cursor

private theorem skipWhile_skipWhile (holds : UInt8 → Bool) (cursor : Cursor) :
    (cursor.skipWhile holds).skipWhile holds = cursor.skipWhile holds := by
  obtain ⟨bytes, position⟩ := cursor
  induction bytes generalizing position with
  | nil => rfl
  | cons byte bytes ih =>
      by_cases held : holds byte
      · have moved : Cursor.skipWhile holds ⟨byte :: bytes, position⟩ =
            Cursor.skipWhile holds ⟨bytes, Cursor.after position byte⟩ := if_pos held
        rw [moved]
        exact ih _
      · have stays : Cursor.skipWhile holds ⟨byte :: bytes, position⟩ = ⟨byte :: bytes, position⟩ :=
          if_neg held
        rw [stays, stays]

private theorem skipsBlanks_bind (continuation : Unit → Reader α) :
    (skipBlanks >>= continuation).SkipsBlanks := by
  intro cursor
  show (continuation ()).run _ = (continuation ()).run _
  rw [skipWhile_skipWhile]

theorem Reader.SkipsBlanks.map {reader : Reader α} (skips : reader.SkipsBlanks) (change : α → β) :
    (change <$> reader).SkipsBlanks := by
  intro cursor
  show (reader >>= fun value => pure (change value)).run _ =
    (reader >>= fun value => pure (change value)).run _
  rw [run_bind_pure, run_bind_pure, skips]

theorem Target.skipsBlanks {decoder : Decoder α} (target : Target decoder) (levels : Nat) :
    (decoder levels).SkipsBlanks := by
  induction target with
  | text | bool | unsigned | optional | list | members | record => exact skipsBlanks_bind _
  | value =>
      rw [value_eq]
      exact skipsBlanks_bind _
  | map change _ ih => exact ih.map change

/-! ## Member after member -/

/-- A reader of what stands behind a name reads this text there, and hands back this. -/
def TakesMember (member : Reader γ) (element : Bytes) (change : γ) : Prop :=
  ∀ ⦃start : Cursor⦄ ⦃value behind : Bytes⦄, afterBlanks start.rest = code ':' :: value →
    afterBlanks value = element ++ behind → FirstValue element behind →
      ∃ last, member.run start = .ok (change, ⟨behind, last⟩)

theorem Alone.takesMember {reader : Reader α} {element : Bytes} {value : α}
    (alone : Alone reader element value) (lawful : reader.Lawful) (skips : reader.SkipsBlanks)
    (name : String) : TakesMember (memberValue reader name) element value := by
  intro start inside behind colon begins first
  obtain ⟨next, moved, rfl⟩ := run_takeColon colon
  obtain ⟨last, done⟩ := @Alone.there _ _ lawful _ _ _ alone first (next.skipWhile isBlank)
    ((rest_skipWhile isBlank next).trans begins)
  rw [skips] at done
  exact ⟨last, run_bind_eq_ok.mpr ⟨(), next, moved, run_under_eq_ok.mpr done⟩⟩

section Loop

variable {loop : σ → Reader β} {first : σ → Bool} {member : σ → String → Reader γ}
  {next : σ → String → γ → σ} {finish : σ → β} {wrap : String → γ → β → β}

/-- What a loop over members comes to if it reads these texts one after another. -/
inductive Runs (member : σ → String → Reader γ) (next : σ → String → γ → σ) (finish : σ → β)
    (wrap : String → γ → β → β) : σ → List (String × Bytes) → β → Prop where
  | done (state) : Runs member next finish wrap state [] (finish state)
  | more {state name element change others last} :
      TakesMember (member state name) element change →
      Runs member next finish wrap (next state name change) others last →
      Runs member next finish wrap state ((name, element) :: others) (wrap name change last)

private theorem run_memberLoop
    (unfolds : ∀ state, loop state = do
      match ← takeName (first state) with
      | none => return finish state
      | some name =>
        let change ← member state name
        let last ← loop (next state name change)
        return wrap name change last)
    (later : ∀ state name change, first (next state name change) = false)
    {members : List (String × Bytes)} {state : σ} {value : β}
    (runs : Runs member next finish wrap state members value) {cursor : Cursor} {rest : Bytes}
    (holds : Members (first state) members cursor.rest rest) :
    ∃ behind, (loop state).run cursor = .ok (value, behind) ∧ behind.rest = code '\x7d' :: rest := by
  induction runs generalizing cursor with
  | done state =>
      cases holds with
      | closes ends =>
          obtain ⟨behind, named, left⟩ := run_takeName_of_closing ends
          rw [unfolds]
          exact ⟨behind, run_bind_eq_ok.mpr ⟨none, behind, named, rfl⟩, left⟩
  | @more state name element change others last takes _ ih =>
      cases holds with
      | member leads names begins stands further =>
          obtain ⟨start, named, colon⟩ := run_takeName_of_names leads names
          obtain ⟨position, taken⟩ := takes colon begins stands
          rw [← later state name change] at further
          obtain ⟨behind, done, left⟩ := @ih ⟨_, position⟩ further
          rw [unfolds]
          exact ⟨behind, run_bind_eq_ok.mpr ⟨some name, start, named, run_bind_eq_ok.mpr
            ⟨change, _, taken, run_bind_eq_ok.mpr ⟨last, behind, done, rfl⟩⟩⟩, left⟩

end Loop

/-! ## Records and maps -/

private theorem run_closing {reader : Reader α} {finish : α → Reader β} {cursor behind : Cursor}
    {value : α} {last : β} (found : reader.run cursor = .ok (value, behind))
    (finishes : ∀ cursor, (finish value).run cursor = .ok (last, cursor)) :
    (reader >>= fun value => advance >>= fun _ => finish value).run cursor =
      .ok (last, behind.advance) :=
  run_bind_eq_ok.mpr ⟨value, behind, found,
    run_bind_eq_ok.mpr ⟨(), behind.advance, rfl, finishes behind.advance⟩⟩

variable {levels : Nat} {members : List (String × Bytes)} {body : Bytes}

namespace Record

variable {record : Record α}

theorem takesMember_takeChange {field : Field α} {name : String} {seen : List String}
    {element : Bytes} {change : α → α} (known : record.field? name = some field)
    (fresh : name ∉ seen) (target : Target field.read)
    (alone : Alone (field.read levels) element change) :
    TakesMember (record.takeChange levels seen name) element change := by
  unfold takeChange
  rw [known]
  dsimp only
  rw [if_neg fresh]
  exact alone.takesMember (target.lawful levels) (target.skipsBlanks levels) name

/-- What the members of an object make of a record, one after another. -/
abbrev Becomes (record : Record α) (levels : Nat) :
    List String × α → List (String × Bytes) → List String × α → Prop :=
  Runs (fun known name => record.takeChange levels known.1 name)
    (fun known name change => (name :: known.1, change known.2)) id (fun _ _ last => last)

/-- A record is read from an object by what its members make of it. -/
theorem alone_of_isObject (object : IsObject members body) {known : List String × α}
    (becomes : record.Becomes levels ([], record.blank) members known)
    (complete : record.missing? known.1 = none) :
    Alone (record.decoder (levels + 1)) body known.2 := by
  obtain ⟨inside, rest, opens, holds, _⟩ := object
  obtain ⟨_, rfl⟩ := @skipWhile_isBlank (Cursor.start body) _ _ opens
  obtain ⟨behind, done, _⟩ :=
    run_memberLoop (record.moreFields_eq levels) (fun _ _ _ => rfl) becomes holds
  have finishes (cursor : Cursor) : (record.complete known).run cursor = .ok (known.2, cursor) := by
    rw [Record.complete, complete]
    rfl
  refine ⟨behind.advance, (@run_of_afterBlanks _ _ (Cursor.start body) _ _ opens).trans ?_⟩
  refine run_bind_eq_ok.mpr ⟨levels, _, rfl, ?_⟩
  rw [fromObject_eq]
  exact run_closing done finishes

end Record

section

variable {decoder : Decoder α} (lawful : (decoder levels).Lawful)
  (skips : (decoder levels).SkipsBlanks) {values : List (String × α)}
include lawful skips

private theorem runs_of_alone (first : Bool) (read : List.Forall₂ (fun member value =>
      member.1 = value.1 ∧ Alone (decoder levels) member.2 value.2) members values) :
    Runs (fun _ name => memberValue (decoder levels) name) (fun _ _ _ => false) (fun _ => [])
      (fun name member others => (name, member) :: others) first members values := by
  induction read generalizing first with
  | nil => exact .done first
  | @cons member _ _ _ here _ ih =>
      obtain ⟨name, element⟩ := member
      obtain ⟨rfl, alone⟩ := here
      exact .more (alone.takesMember lawful skips _) (ih false)

/-- A map has the values of its members, in their order. -/
theorem members_of_isObject (object : IsObject members body) (read : List.Forall₂ (fun member value =>
      member.1 = value.1 ∧ Alone (decoder levels) member.2 value.2) members values) :
    Alone (Json.members decoder (levels + 1)) body values := by
  obtain ⟨inside, rest, opens, holds, _⟩ := object
  obtain ⟨_, rfl⟩ := @skipWhile_isBlank (Cursor.start body) _ _ opens
  obtain ⟨behind, done, _⟩ := run_memberLoop (moreMembers_eq (decoder levels)) (fun _ _ _ => rfl)
    (runs_of_alone lawful skips true read) holds
  refine ⟨behind.advance, (@run_of_afterBlanks _ _ (Cursor.start body) _ _ opens).trans ?_⟩
  rw [if_pos rfl]
  refine run_bind_eq_ok.mpr ⟨levels, _, rfl, ?_⟩
  exact @run_closing _ _ (takeMembers (decoder levels)) _ _ _ _ _ done fun _ => rfl

end

end DocumentClient.Json
