import DocumentClient.Proofs.Attachment.RoundTrip
import DocumentClient.Proofs.Text.Ascii

/-!
# Headers of an upload

What an upload is sent with. The spelling of a name does not matter, so every header has a name in
lower case that no other header has in any spelling: the names that metadata was given for, each with
the value given last, and the kind of content.
-/

set_option autoImplicit false

namespace DocumentClient

namespace Text

private theorem toLower_of_isUpper_eq_false {char : Char} (lower : char.isUpper = false) :
    char.toLower = char := by
  unfold Char.toLower
  refine dif_neg fun upper => Bool.false_ne_true (lower.symm.trans ?_)
  delta Char.isUpper
  simpa using upper

private theorem isUpper_toLower (char : Char) : char.toLower.isUpper = false := by
  cases upper : char.isUpper with
  | false => rw [toLower_of_isUpper_eq_false upper, upper]
  | true =>
      have alphanum : char.isAlphanum = true := by
        show (char.isUpper || char.isLower || char.isDigit) = true
        rw [upper]
        rfl
      have lowers := ascii_all (fun char => !char.toLower.isUpper) (by decide)
        (ascii_of_isAlphanum alphanum)
      rwa [Bool.not_eq_true'] at lowers

theorem isUpper_of_mem_lowerCase {text : String} {char : Char}
    (member : char ∈ (lowerCase text).toList) : char.isUpper = false := by
  rw [lowerCase, String.toList_ofList] at member
  obtain ⟨original, _, rfl⟩ := List.mem_map.mp member
  exact isUpper_toLower original

theorem lowerCase_eq_self {text : String} (lower : ∀ char ∈ text.toList, char.isUpper = false) :
    lowerCase text = text := by
  have same : text.toList.map Char.toLower = text.toList.map id :=
    List.map_congr_left fun char member => toLower_of_isUpper_eq_false (lower char member)
  rw [lowerCase, same, List.map_id, String.ofList_toList]

end Text

namespace TextMap

theorem mem_keys_iff {map : TextMap} {name : String} :
    name ∈ map.keys ↔ ∃ value, map.get? name = some value := by
  constructor
  · intro member
    obtain ⟨entry, found, rfl⟩ := List.mem_map.mp member
    exact ⟨entry.2, lookup_of_mem map.distinct found⟩
  · rintro ⟨value, found⟩
    obtain ⟨before, after, split, _⟩ := List.lookup_eq_some_iff.mp found
    exact List.mem_map.mpr ⟨(name, value), by simp [split], rfl⟩

private theorem eq_of_entries_eq {first second : TextMap} (same : first.entries = second.entries) :
    first = second := by
  cases first
  cases second
  cases same
  rfl

theorem insertAll_entries (map : TextMap) : (∅ : TextMap).insertAll map.entries = map := by
  have keys : ((∅ : TextMap).insertAll map.entries).keys = map.keys := by
    rw [keys_insertAll]
    exact eraseDups_eq_self map.distinct
  have values (name : String) :
      ((∅ : TextMap).insertAll map.entries).get? name = map.get? name := by
    rw [get?_insertAll_entries]
    exact Option.or_none
  refine eq_of_entries_eq ((entries_eq_map _).trans ?_)
  simp only [keys, values, ← entries_eq_map]

end TextMap

namespace Attachment

variable {content : Bytes} {calls : List (String × String)} {name value : String}

private theorem exists_lastGiven_iff :
    (∃ value, LastGiven calls name value) ↔ ∃ call ∈ calls, Text.lowerCase call.1 = name := by
  have keys : (Upload.ofCalls [] calls).metadata.keys =
      ((calls.map lowered).map (·.1)).eraseDups := by
    rw [Upload.ofCalls, foldl_withMetadata, TextMap.keys_insertAll]
    rfl
  simp only [← @get?_metadata_eq_some_iff [], ← TextMap.mem_keys_iff, keys,
    List.mem_eraseDups, List.map_map, List.mem_map]
  rfl

private theorem mem_keys_headers_ofCalls :
    name ∈ (Upload.ofCalls content calls).headers.keys ↔
      name = contentTypeName ∨ ∃ call ∈ calls, Text.lowerCase call.1 = name := by
  simp only [TextMap.mem_keys_iff, get?_headers_ofCalls_eq_some_iff, ← exists_lastGiven_iff]
  constructor
  · rintro ⟨value, given | ⟨named, _, _⟩⟩
    · exact .inr ⟨value, given⟩
    · exact .inl named
  · rintro (named | ⟨value, given⟩)
    · by_cases some : ∃ value, LastGiven calls name value
      · obtain ⟨value, given⟩ := some
        exact ⟨value, .inl given⟩
      · exact ⟨_, .inr ⟨named, rfl, not_exists.mp some⟩⟩
    · exact ⟨value, .inl given⟩

private theorem isUpper_of_mem_headers_ofCalls {char : Char}
    (member : name ∈ (Upload.ofCalls content calls).headers.keys) (inside : char ∈ name.toList) :
    char.isUpper = false := by
  rcases mem_keys_headers_ofCalls.mp member with rfl | ⟨call, _, rfl⟩
  · have lower : contentTypeName.toList.all (!Char.isUpper ·) = true := by decide
    simpa using List.all_eq_true.mp lower char inside
  · exact Text.isUpper_of_mem_lowerCase inside

/-- Saving sends one request, if its key and the selected database are acceptable. Whatever it sends
has the content as its body, and headers in lower case that are apart in any spelling: for each name
of metadata the value that was given last, and a kind of content in any case. -/
theorem save_sends_each_name_once {σ : Type} (settings : Settings) (key : String)
    (content : Bytes) (calls : List (String × String))
    (respond : σ → Http.Request → Http.Reply × σ) (start : σ) :
    let upload := Upload.ofCalls content calls
    let sent := ((save settings key upload).run respond start).sent
    (settings.Accepted → (Call.save key upload).Acceptable settings → ∃ put, sent = [put]) ∧
      ∀ put ∈ sent, put.method = .put ∧ put.body = some content ∧
        (∀ name ∈ put.headers.keys, ∀ char ∈ name.toList, char.isUpper = false) ∧
        (put.headers.keys.map Text.lowerCase).Nodup ∧
        (∀ name, name ∈ put.headers.keys ↔
          name = "content-type" ∨ ∃ call ∈ calls, Text.lowerCase call.1 = name) ∧
        (∀ name value, LastGiven calls name value → put.headers.get? name = some value) ∧
        ((∀ call ∈ calls, Text.lowerCase call.1 ≠ "content-type") →
          put.headers.get? "content-type" = some "application/octet-stream") := by
  intro upload sent
  constructor
  · intro accepted acceptable
    obtain ⟨url, made⟩ := Call.url_of_acceptable accepted acceptable
    have only := (congrArg Prod.snd (Call.run_operation made respond start)).trans
      (Call.sent_of_ends (fun _ => ⟨_, rfl⟩) respond start url)
    exact ⟨_, only⟩
  · intro put member
    have member : put ∈ (((Call.save key upload).operation settings).run respond start).sent := member
    obtain ⟨url, made⟩ := Call.exists_url_of_mem_sent member
    obtain rfl := Call.eq_of_mem_sent made (fun _ => ⟨_, rfl⟩) member
    have headers : ((Call.save key upload).request url).headers = upload.headers :=
      TextMap.insertAll_entries upload.headers
    rw [headers]
    have lower : ∀ name ∈ upload.headers.keys, ∀ char ∈ name.toList, char.isUpper = false :=
      fun name member char inside => isUpper_of_mem_headers_ofCalls member inside
    refine ⟨rfl, congrArg some (content_ofCalls content calls), lower, ?_,
      fun name => mem_keys_headers_ofCalls, fun name value given => ?_, fun absent => ?_⟩
    · have same : upload.headers.keys.map Text.lowerCase = upload.headers.keys.map id :=
        List.map_congr_left fun name member => Text.lowerCase_eq_self (lower name member)
      rw [same, List.map_id]
      exact upload.headers.distinct
    · exact get?_headers_ofCalls_eq_some_iff.mpr (.inl given)
    · refine get?_headers_ofCalls_eq_some_iff.mpr (.inr ⟨rfl, rfl, fun given last => ?_⟩)
      obtain ⟨call, member, named⟩ := exists_lastGiven_iff.mp ⟨given, last⟩
      exact absent call member named

/-- Of two spellings of the kind of content the later one is sent, and nothing else about it. -/
theorem save_sends_later_content_type :
    let calls := [("Content-Type", "text/plain"), ("owner", "a"), ("CONTENT-TYPE", "image/png")]
    ∃ put, ((save Settings.localhost "k" (.ofCalls [7] calls)).run Operation.scripted []).sent = [put] ∧
      put.headers.get? "content-type" = some "image/png" ∧
      (put.headers.keys.map Text.lowerCase).Nodup := by
  intro calls
  obtain ⟨one, each⟩ :=
    save_sends_each_name_once Settings.localhost "k" [7] calls Operation.scripted []
  have acceptable : (Call.save "k" (.ofCalls [7] calls)).Acceptable Settings.localhost :=
    ⟨by simp [Settings.Usable, Call.scope, Settings.localhost],
      (by decide : PathSegment.AcceptablePath "k")⟩
  obtain ⟨put, sent⟩ := one Settings.accepted_localhost acceptable
  obtain ⟨_, _, _, apart, _, last, _⟩ := each put (sent ▸ List.mem_singleton_self put)
  have given : LastGiven calls "content-type" "image/png" :=
    ⟨[("Content-Type", "text/plain"), ("owner", "a")], "CONTENT-TYPE", [], rfl, by decide, by simp⟩
  exact ⟨put, sent, last _ _ given, apart⟩

end Attachment

end DocumentClient
