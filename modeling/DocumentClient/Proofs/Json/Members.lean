import DocumentClient.Proofs.Json.Decoder

/-!
# Readers of objects

The members of an object are read one after another. With objects every value can be read: main
statement `lawful_value`.
-/

set_option autoImplicit false

namespace DocumentClient.Json

open Reader

variable {α β γ σ : Type}

/-! ## Names -/

/-- What stands in front of the name of a member. -/
def Leads (first : Bool) (bytes start : Bytes) : Prop :=
  if first then start = bytes else afterBlanks bytes = code ',' :: start

/-- The rest of an object, in front of a member or behind one. -/
def Continues (first : Bool) (bytes rest : Bytes) : Prop :=
  if first then Content .object bytes rest else Stands (.behind .object) bytes rest

theorem Continues.of_closing {first : Bool} {bytes rest : Bytes}
    (closes : afterBlanks bytes = code '\x7d' :: rest) : Continues first bytes rest := by
  cases first with
  | false => exact .last closes
  | true => exact .inl closes

theorem Leads.continues {first : Bool} {bytes start value behind rest : Bytes}
    (leads : Leads first bytes start) (entry : Entry .object start value)
    (stands : Stands .value (afterBlanks value) behind) (more : Continues false behind rest) :
    Continues first bytes rest := by
  cases first with
  | false => exact .more leads (.entry entry stands more)
  | true =>
      obtain rfl : start = bytes := leads
      exact .inr (.entry entry stands more)

private theorem local_openName (atEnd atClosing : Cause) : (openName atEnd atClosing).Local := by
  refine local_peek.bind fun next => ?_
  cases next with
  | none => exact (fails_failNext _).isLocal
  | some byte =>
      exact local_ite local_advance (local_ite (fails_failNext _).isLocal (fails_failNext _).isLocal)

private theorem rest_openName {atEnd atClosing : Cause} {cursor behind : Cursor}
    (found : (openName atEnd atClosing).run cursor = .ok ((), behind)) :
    cursor.rest = code '"' :: behind.rest := by
  unfold openName at found
  rw [run_bind, run_peek] at found
  dsimp only at found
  split at found
  · cases found
  rename_i byte head
  split at found
  · rename_i quote
    cases found
    rw [rest_of_head? head, quote]
  split at found <;> cases found

private theorem local_takeName (first : Bool) : (takeName first).Local := by
  refine (local_skipBlanks.bind fun _ => local_peek.bind fun next => ?_).under .unknown
  have name (atEnd atClosing : Cause) : (do
      openName atEnd atClosing
      return some (← takeText) : Reader (Option String)).Local :=
    (local_openName _ _).bind fun _ => firm_takeText.isLocal.bind fun _ => local_pure _
  cases next with
  | none => exact (fails_failNext _).isLocal
  | some byte =>
      exact local_ite (local_pure _) (local_ite (name _ _) (local_ite
        (local_advance.bind fun _ => local_skipBlanks.bind fun _ => name _ _)
        (fails_failNext _).isLocal))

private theorem rest_takeName {first : Bool} {cursor behind : Cursor} {name : Option String}
    (found : (takeName first).run cursor = .ok (name, behind)) :
    if name.isNone then
      behind.rest = afterBlanks cursor.rest ∧ behind.head? = some (code '\x7d')
    else ∃ start inside, Leads first cursor.rest start ∧
      afterBlanks start = code '"' :: inside ∧ Quoted inside behind.rest := by
  replace found := run_under_eq_ok.mp found
  obtain ⟨_, start, blanks, found⟩ := run_bind_eq_ok.mp found
  have begins := rest_skipBlanks blanks
  have quoted {start : Cursor} {atEnd atClosing : Cause} {name : Option String} (found : (do
      openName atEnd atClosing
      return some (← takeText) : Reader (Option String)).run start = .ok (name, behind)) :
      ¬name.isNone ∧ ∃ inside, start.rest = code '"' :: inside ∧ Quoted inside behind.rest := by
    obtain ⟨_, middle, opens, found⟩ := run_bind_eq_ok.mp found
    obtain ⟨text, last, taken, found⟩ := run_bind_eq_ok.mp found
    obtain ⟨rfl, rfl⟩ := run_pure_eq_ok.mp found
    exact ⟨Bool.false_ne_true, middle.rest, rest_openName opens, (quoted_of_takeText taken).1⟩
  rw [run_bind, run_peek] at found
  dsimp only at found
  split at found
  · cases found
  rename_i byte head
  split at found
  · rename_i closing
    cases found
    exact ⟨begins, closing ▸ head⟩
  split at found
  · rename_i isFirst
    obtain ⟨known, inside, opens, quoted⟩ := quoted found
    rw [if_neg known]
    exact ⟨cursor.rest, inside, (if_pos isFirst).mpr rfl, begins ▸ opens, quoted⟩
  rename_i notFirst
  split at found
  · rename_i comma
    obtain ⟨_, _, moved, found⟩ := run_bind_eq_ok.mp found
    cases moved
    obtain ⟨_, next, further, found⟩ := run_bind_eq_ok.mp found
    obtain ⟨known, inside, opens, quoted⟩ := quoted found
    rw [if_neg known]
    refine ⟨start.advance.rest, inside, (if_neg notFirst).mpr ?_, ?_, quoted⟩
    · rw [← begins, rest_of_head? head, comma]
    · rw [← rest_skipBlanks further, opens]
  · cases found

/-! ## Members -/

/-- A reader of what stands behind a name: a colon and a value. -/
structure ReadsMember (reader : Reader γ) : Prop where
  isLocal : reader.Local
  stands : ∀ ⦃cursor behind : Cursor⦄ ⦃member : γ⦄, reader.run cursor = .ok (member, behind) →
    ∃ value, afterBlanks cursor.rest = code ':' :: value ∧
      Stands .value (afterBlanks value) behind.rest

theorem ReadsMember.of_value {value : Reader α} (isLocal : value.Local)
    (stands : ∀ ⦃cursor behind : Cursor⦄ ⦃member : α⦄, value.run cursor = .ok (member, behind) →
      Stands .value (afterBlanks cursor.rest) behind.rest) (name : String) :
    ReadsMember (memberValue value name) := by
  refine ⟨local_takeColon.bind fun _ => isLocal.under _, fun cursor behind member found => ?_⟩
  obtain ⟨_, middle, colon, found⟩ := run_bind_eq_ok.mp found
  exact ⟨middle.rest, rest_takeColon colon, stands (run_under_eq_ok.mp found)⟩

theorem Reader.Lawful.readsMember {value : Reader α} (lawful : value.Lawful) (name : String) :
    ReadsMember (memberValue value name) :=
  .of_value lawful.isLocal (fun _ _ _ found => (lawful.settles found).1) name

section Loop

/-! ### Member after member

Both loops over members go from one state to the next one by what stands behind a name. -/

variable {loop : σ → Reader β} {first : σ → Bool} {member : σ → String → Reader γ}
  {next : σ → String → γ → σ} {finish : σ → β} {wrap : String → γ → β → β}

theorem local_memberLoop
    (unfolds : ∀ state, loop state = do
      match ← takeName (first state) with
      | none => return finish state
      | some name =>
        let change ← member state name
        let last ← loop (next state name change)
        return wrap name change last)
    (reads : ∀ state name, ReadsMember (member state name)) (state : σ) : (loop state).Local := by
  intro cursor
  induction size : cursor.size using Nat.strongRecOn generalizing cursor state with
  | ind size ih =>
      subst size
      rw [unfolds]
      refine ((local_takeName _).here cursor).bind fun name start named => ?_
      cases name with
      | none => exact (local_pure _).here start
      | some name =>
          refine ((reads state name).isLocal.here start).bind fun change middle taken => ?_
          have smaller : middle.size < cursor.size :=
            Nat.lt_of_le_of_lt ((member state name).size_le taken) (size_takeName_lt named)
          exact (ih _ smaller _ rfl).bind fun last behind _ => (local_pure _).here behind

theorem continues_of_memberLoop
    (unfolds : ∀ state, loop state = do
      match ← takeName (first state) with
      | none => return finish state
      | some name =>
        let change ← member state name
        let last ← loop (next state name change)
        return wrap name change last)
    (reads : ∀ state name, ReadsMember (member state name))
    (later : ∀ state name change, first (next state name change) = false) {state : σ}
    {cursor behind : Cursor} {value : β} (found : (loop state).run cursor = .ok (value, behind)) :
    ∃ rest, behind.rest = code '\x7d' :: rest ∧ Continues (first state) cursor.rest rest := by
  induction size : cursor.size using Nat.strongRecOn generalizing cursor state value with
  | ind size ih =>
      subst size
      rw [unfolds] at found
      obtain ⟨name, start, named, found⟩ := run_bind_eq_ok.mp found
      have leads := rest_takeName named
      cases name with
      | none =>
          obtain ⟨_, rfl⟩ := run_pure_eq_ok.mp found
          obtain ⟨same, closing⟩ := leads
          have ends := rest_of_head? closing
          exact ⟨_, ends, .of_closing (same.symm.trans ends)⟩
      | some name =>
          obtain ⟨change, middle, taken, found⟩ := run_bind_eq_ok.mp found
          obtain ⟨_, last, further, found⟩ := run_bind_eq_ok.mp found
          obtain ⟨_, rfl⟩ := run_pure_eq_ok.mp found
          have smaller : middle.size < cursor.size :=
            Nat.lt_of_le_of_lt ((member state name).size_le taken) (size_takeName_lt named)
          obtain ⟨rest, ends, more⟩ := ih _ smaller further rfl
          rw [later] at more
          obtain ⟨front, inside, leads, opens, quoted⟩ := leads
          obtain ⟨value, colon, stands⟩ := (reads state name).stands taken
          exact ⟨rest, ends, leads.continues (.member opens quoted colon) stands more⟩

end Loop

/-- The members from a name on, and the closing brace behind them. -/
def moreMembers (value : Reader α) (first : Bool) : Reader (List (String × α)) :=
  ⟨membersFrom value first, size_membersFrom_le⟩

theorem moreMembers_eq (value : Reader α) (first : Bool) :
    moreMembers value first = (do
      match ← takeName first with
      | none => return []
      | some name =>
        let member ← memberValue value name
        let others ← moreMembers value false
        return (name, member) :: others) := by
  refine eq_of_run fun cursor => ?_
  show membersFrom value first cursor = _
  rw [membersFrom, run_bind]
  split
  · rename_i failed
    rw [failed]
  · rename_i ended
    rw [ended]
    rfl
  · rename_i name start named
    rw [named]
    dsimp only
    rw [run_bind]
    split
    · rename_i failed
      rw [failed]
    · rename_i member middle taken
      rw [taken]
      exact (run_bind_pure (moreMembers value false) ((name, member) :: ·) middle).symm

theorem Reader.Lawful.readsMembers {value : Reader α} (lawful : value.Lawful) :
    ReadsContent .object (takeMembers value) where
  isLocal := local_memberLoop (moreMembers_eq value) (fun _ name => lawful.readsMember name) true
  content _ _ _ found := continues_of_memberLoop (moreMembers_eq value)
    (fun _ name => lawful.readsMember name) (fun _ _ _ => rfl) found

theorem lawful_members {decoder : Decoder α} (lawful : ∀ levels, (decoder levels).Lawful)
    (levels : Nat) : (members decoder levels).Lawful := by
  have firm : (members decoder levels).Firm :=
    local_skipBlanks.bind_firm fun _ => local_peek.bind_firm fun _ =>
      firm_ite ((local_enter levels).bind_firm fun inner => (lawful inner).readsMembers.firm bare_pure)
        (fails_mismatch _).firm
  refine firm.lawful fun cursor behind value found => ?_
  obtain ⟨start, begins, found⟩ := run_blanks_peek found
  split at found
  · rename_i opens
    obtain ⟨inner, middle, entered, found⟩ := run_bind_eq_ok.mp found
    rw [← begins, rest_enter opens entered]
    exact ((lawful inner).readsMembers.closed bare_pure found).stands
  · exact absurd found (@fails_mismatch _ _ _ _)

/-! ## Any value -/

/-- A list or an object of any values. -/
def framedValue : Nat → Frame → Reader Value
  | 0, _ => failNext .nesting
  | levels + 1, .list => do
    advance
    let items ← takeItems (value levels)
    advance
    return .list items
  | levels + 1, .object => do
    advance
    let members ← takeMembers (value levels)
    advance
    return .ofMembers members

theorem value_eq (levels : Nat) :
    value levels = (do
      skipBlanks
      match (← peek).bind Frame.ofByte? with
      | some frame => framedValue levels frame
      | none => takeScalar) := by
  cases levels with
  | zero => rfl
  | succ levels =>
      refine eq_of_run fun cursor => ?_
      rw [value, run_bind, run_bind]
      cases skipBlanks.run cursor with
      | error fault => rfl
      | ok result =>
          simp only [run_bind, run_peek]
          cases result.2.head?.bind Frame.ofByte? with
          | none => rfl
          | some frame => cases frame <;> rfl

private theorem firm_framedValue {levels : Nat} (lawful : ∀ inner < levels, (value inner).Lawful)
    (frame : Frame) : (framedValue levels frame).Firm := by
  cases levels with
  | zero => exact (fails_failNext _).firm
  | succ levels =>
      have inner := lawful levels (Nat.lt_succ_self levels)
      cases frame with
      | list => exact local_advance.bind_firm fun _ => inner.readsItems.firm fun _ => bare_pure _
      | object => exact local_advance.bind_firm fun _ => inner.readsMembers.firm fun _ => bare_pure _

private theorem stands_of_framedValue {levels : Nat}
    (lawful : ∀ inner < levels, (value inner).Lawful)
    {frame : Frame} {cursor behind : Cursor} {found : Value}
    (head : cursor.head? = some frame.opening)
    (taken : (framedValue levels frame).run cursor = .ok (found, behind)) :
    Stands .value cursor.rest behind.rest := by
  cases levels with
  | zero => cases taken
  | succ levels =>
      have inner := lawful levels (Nat.lt_succ_self levels)
      rw [rest_of_head? head]
      cases frame with
      | list =>
          obtain ⟨_, _, moved, taken⟩ := run_bind_eq_ok.mp taken
          cases moved
          exact (inner.readsItems.closed (fun _ => bare_pure _) taken).stands
      | object =>
          obtain ⟨_, _, moved, taken⟩ := run_bind_eq_ok.mp taken
          cases moved
          exact (inner.readsMembers.closed (fun _ => bare_pure _) taken).stands

theorem lawful_value (levels : Nat) : (value levels).Lawful := by
  induction levels using Nat.strongRecOn with
  | ind levels lawful =>
      rw [value_eq]
      refine Lawful.behindBlanks (local_peek.bind fun next => ?_) fun cursor behind found stays taken => ?_
      · split
        · exact (firm_framedValue lawful _).isLocal
        · exact local_takeScalar
      · rw [run_bind, run_peek] at taken
        dsimp only at taken
        split at taken
        · rename_i frame known
          obtain ⟨byte, head, named⟩ := Option.bind_eq_some_iff.mp known
          have stands := stands_of_framedValue lawful (Frame.opening_of_ofByte? named ▸ head) taken
          rw [← afterBlanks_of_head stays] at stands
          refine ((firm_framedValue lawful frame).settles taken stands).carry
            fun start finish same done => ?_
          rw [run_bind, run_peek, same]
          dsimp only
          rwa [known]
        · rename_i unframed
          refine (settles_takeScalar taken).carry fun start finish same done => ?_
          rw [run_bind, run_peek, same]
          dsimp only
          rwa [unframed]

end DocumentClient.Json
