/-!
# Text maps

Values by name, at most one for each. A name keeps the place of its first insertion and has the
value of its last one. Main statements: `get?_insert` says what an insertion changes,
`get?_insertAll` and `keys_insertAll` what many of them do, and `keys_insert` where a new name goes.

The places matter for predicates. Headers and metadata have none: they are read by name, and where
they are gone through this is done in some `Arrangement`, of which nothing is known.
-/

set_option autoImplicit false

namespace DocumentClient

namespace TextMap

/-- Entries with one value replaced, or added at the end. -/
def upsert (name value : String) : List (String × String) → List (String × String)
  | [] => [(name, value)]
  | entry :: rest =>
    if entry.1 = name then (name, value) :: rest else entry :: upsert name value rest

theorem keys_upsert (name value : String) (entries : List (String × String)) :
    (upsert name value entries).map (·.1) =
      if name ∈ entries.map (·.1) then entries.map (·.1) else entries.map (·.1) ++ [name] := by
  induction entries with
  | nil => simp [upsert]
  | cons entry rest ih =>
      simp only [upsert]
      split
      · rename_i same
        simp [same]
      · rename_i other
        simp only [List.map_cons, ih, List.mem_cons, Ne.symm other, false_or]
        split <;> simp

theorem nodup_upsert {name value : String} {entries : List (String × String)}
    (distinct : (entries.map (·.1)).Nodup) : ((upsert name value entries).map (·.1)).Nodup := by
  rw [keys_upsert]
  split
  · exact distinct
  · rename_i absent
    rw [List.nodup_append]
    refine ⟨distinct, by simp, ?_⟩
    intro key present last same
    simp only [List.mem_singleton] at same
    subst same
    rintro rfl
    exact absent present

end TextMap

/-- Values by name. -/
structure TextMap where
  entries : List (String × String)
  distinct : (entries.map (·.1)).Nodup := by simp
deriving DecidableEq

namespace TextMap

instance : Repr TextMap := ⟨fun map precedence => reprPrec map.entries precedence⟩

def empty : TextMap := ⟨[], by simp⟩

instance : EmptyCollection TextMap := ⟨empty⟩

instance : Inhabited TextMap := ⟨empty⟩

/-- The names of a map, in the order of their first insertion. -/
def keys (map : TextMap) : List String :=
  map.entries.map (·.1)

def get? (map : TextMap) (name : String) : Option String :=
  map.entries.lookup name

def insert (map : TextMap) (name value : String) : TextMap :=
  ⟨upsert name value map.entries, nodup_upsert map.distinct⟩

def insertAll (map : TextMap) (pairs : List (String × String)) : TextMap :=
  pairs.foldl (fun map pair => map.insert pair.1 pair.2) map

/-- The last value of each name of some pairs. -/
def ofList (pairs : List (String × String)) : TextMap :=
  empty.insertAll pairs

def filterKeys (map : TextMap) (keep : String → Bool) : TextMap :=
  ⟨map.entries.filter (keep ·.1),
    List.Pairwise.sublist (List.filter_sublist.map _) map.distinct⟩

def isEmpty (map : TextMap) : Bool :=
  map.entries.isEmpty

theorem keys_insert (map : TextMap) (name value : String) :
    (map.insert name value).keys =
      if name ∈ map.keys then map.keys else map.keys ++ [name] :=
  keys_upsert name value map.entries

theorem lookup_upsert (name value other : String) (entries : List (String × String)) :
    (upsert name value entries).lookup other =
      if other = name then some value else entries.lookup other := by
  induction entries with
  | nil =>
      by_cases same : other = name
      · simp [upsert, same]
      · simp [upsert, List.lookup_cons, same, beq_false_of_ne same]
  | cons entry rest ih =>
      obtain ⟨key, old⟩ := entry
      simp only [upsert]
      split
      · rename_i found
        subst found
        by_cases same : other = key
        · simp [same]
        · simp [List.lookup_cons, same, beq_false_of_ne same]
      · rename_i different
        by_cases same : other = key
        · subst same
          simp [different]
        · simp [List.lookup_cons, beq_false_of_ne same, ih]

/-- An insertion changes the value of its name and no other. -/
theorem get?_insert (map : TextMap) (name value other : String) :
    (map.insert name value).get? other = if other = name then some value else map.get? other :=
  lookup_upsert name value other map.entries

theorem lookup_entry (name : String) (entry : String × String) (rest : List (String × String)) :
    (entry :: rest).lookup name = if name = entry.1 then some entry.2 else rest.lookup name := by
  rw [List.lookup_cons]
  by_cases same : name = entry.1
  · simp [same]
  · simp [same, beq_false_of_ne same]

/-- Of all values that are inserted for a name the last one counts. -/
theorem get?_insertAll (map : TextMap) (pairs : List (String × String)) (name : String) :
    (map.insertAll pairs).get? name = (pairs.reverse.lookup name).or (map.get? name) := by
  induction pairs generalizing map with
  | nil => rfl
  | cons pair pairs ih =>
      have later := ih (map.insert pair.1 pair.2)
      rw [insertAll] at later ⊢
      rw [List.foldl_cons, later, get?_insert, List.reverse_cons, List.lookup_append, Option.or_assoc,
        lookup_entry]
      split <;> rfl

theorem lookup_reverse {entries : List (String × String)}
    (distinct : (entries.map (·.1)).Nodup) (name : String) :
    entries.reverse.lookup name = entries.lookup name := by
  induction entries with
  | nil => rfl
  | cons entry rest ih =>
      obtain ⟨absent, distinct⟩ := List.nodup_cons.mp distinct
      rw [List.reverse_cons, List.lookup_append, ih distinct, lookup_entry, lookup_entry]
      split
      · rename_i same
        have missing : rest.lookup name = none := by
          refine List.lookup_eq_none_iff.mpr fun other member => bne_iff_ne.mpr fun again => ?_
          exact absent (List.mem_map.mpr ⟨other, member, again.symm.trans same⟩)
        rw [missing]
        rfl
      · exact Option.or_none

theorem get?_insertAll_entries (map other : TextMap) (name : String) :
    (map.insertAll other.entries).get? name = (other.get? name).or (map.get? name) := by
  rw [get?_insertAll, lookup_reverse other.distinct]
  rfl

theorem lookup_filter (keep : String → Bool) (name : String) (entries : List (String × String)) :
    (entries.filter (keep ·.1)).lookup name = if keep name then entries.lookup name else none := by
  induction entries with
  | nil => simp
  | cons entry rest ih =>
      rw [List.filter_cons, lookup_entry]
      by_cases same : name = entry.1
      · subst same
        split
        · rw [lookup_entry, if_pos rfl, if_pos rfl]
        · rename_i dropped
          rw [ih, if_neg dropped]
      · rw [if_neg same, ← ih]
        split
        · rw [lookup_entry, if_neg same]
        · rfl

theorem get?_filterKeys (map : TextMap) (keep : String → Bool) (name : String) :
    (map.filterKeys keep).get? name = if keep name then map.get? name else none :=
  lookup_filter keep name map.entries

theorem entries_insert_ne_nil (map : TextMap) (name value : String) :
    (map.insert name value).entries ≠ [] := by
  intro nothing
  have names : (map.insert name value).keys = [] := by
    rw [keys, nothing, List.map_nil]
  rw [keys_insert] at names
  split at names
  · rename_i present
    rw [names] at present
    cases present
  · exact absurd names (by simp)

theorem eraseDups_eq_self {names : List String} (distinct : names.Nodup) :
    names.eraseDups = names := by
  induction names with
  | nil => exact List.eraseDups_nil
  | cons name names ih =>
      obtain ⟨absent, distinct⟩ := List.nodup_cons.mp distinct
      have others : names.filter (fun other => !other == name) = names := by
        refine List.filter_eq_self.mpr fun other member => ?_
        have different : other ≠ name := fun same => absent (same ▸ member)
        simp [different]
      rw [List.eraseDups_cons, others, ih distinct]

/-- A name keeps its first place, so many insertions list each name where it comes first. -/
theorem keys_insertAll (map : TextMap) (pairs : List (String × String)) :
    (map.insertAll pairs).keys = (map.keys ++ pairs.map (·.1)).eraseDups := by
  induction pairs generalizing map with
  | nil =>
      have same : map.keys.eraseDups = map.keys := eraseDups_eq_self map.distinct
      rw [List.map_nil, List.append_nil, same]
      rfl
  | cons pair pairs ih =>
      have later := ih (map.insert pair.1 pair.2)
      rw [keys_insert] at later
      rw [insertAll, List.foldl_cons, ← insertAll, later, List.map_cons]
      split
      · rename_i present
        have same : (pairs.map (·.1)).removeAll map.keys =
            (pair.1 :: pairs.map (·.1)).removeAll map.keys := by
          simp [List.removeAll, present]
        rw [List.eraseDups_append, List.eraseDups_append, same]
      · rw [List.append_assoc, List.singleton_append]

theorem lookup_of_mem {entries : List (String × String)}
    (distinct : (entries.map (·.1)).Nodup) {entry : String × String} (member : entry ∈ entries) :
    entries.lookup entry.1 = some entry.2 := by
  induction entries with
  | nil => cases member
  | cons first rest ih =>
      obtain ⟨absent, distinct⟩ := List.nodup_cons.mp distinct
      rw [lookup_entry]
      rcases List.mem_cons.mp member with rfl | later
      · exact if_pos rfl
      · have different : entry.1 ≠ first.1 := by
          intro same
          exact absent (List.mem_map.mpr ⟨entry, later, same⟩)
        rw [if_neg different, ih distinct later]

/-- A map is its names, each with its value. -/
theorem entries_eq_map (map : TextMap) :
    map.entries = map.keys.map fun name => (name, (map.get? name).getD "") := by
  have values : ∀ entry ∈ map.entries, (entry.1, (map.get? entry.1).getD "") = entry := by
    intro entry member
    rw [get?, lookup_of_mem map.distinct member, Option.getD_some]
  rw [keys, List.map_map]
  exact (List.map_id _).symm.trans (List.map_congr_left fun entry member => (values entry member).symm)

/-! ## Maps without an order -/

/-- The value of a name does not depend on the places of the entries. -/
theorem get?_of_perm {map other : TextMap} (perm : map.entries.Perm other.entries)
    (name : String) : map.get? name = other.get? name := by
  have found {first second : TextMap} (perm : first.entries.Perm second.entries) {value : String}
      (here : first.get? name = some value) : second.get? name = some value := by
    obtain ⟨before, after, split, _⟩ := List.lookup_eq_some_iff.mp here
    have member : (name, value) ∈ first.entries := by
      rw [split]
      exact List.mem_append_right _ List.mem_cons_self
    exact lookup_of_mem second.distinct (perm.mem_iff.mp member)
  exact Option.ext fun value => ⟨found perm, found perm.symm⟩

/-- The order in which maps are gone through that have none of their own. -/
structure Arrangement where
  apply : TextMap → TextMap
  perm : ∀ map, (apply map).entries.Perm map.entries

namespace Arrangement

/-- The order in which entries are kept here. -/
def stored : Arrangement :=
  ⟨id, fun map => .refl map.entries⟩

@[simp] theorem get?_apply (arrange : Arrangement) (map : TextMap) (name : String) :
    (arrange.apply map).get? name = map.get? name :=
  get?_of_perm (arrange.perm map) name

end Arrangement

end TextMap

end DocumentClient
