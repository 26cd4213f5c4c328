import DocumentClient.Proofs.Outcome

/-!
# Directories of databases

The directory of a database is its name behind the folder of all tenants, as the name stands. A name
without a slash has a folder of its own there. With slashes a name leads on from that folder, and by
double dots out of it: there is no place on the server that no acceptable name leads to.
-/

set_option autoImplicit false

namespace DocumentClient.Database

open PathSegment (Acceptable)

variable {name : String}

/-! ## Paths of files -/

/-- The place that one piece of a path leads to, seen from another place. -/
def enter (place : List String) (piece : String) : List String :=
  if piece = "" ∨ piece = "." then place
  else if piece = ".." then place.dropLast
  else place ++ [piece]

/-- The place that a path leads to. A tilde in front stands for the home of the server. -/
def resolve (home : List String) (path : String) : List String :=
  match Text.piecesOf '/' path with
  | "~" :: pieces => pieces.foldl enter home
  | pieces => pieces.foldl enter []

/-- A folder of one name, which leads there, behind the folder of all tenants. -/
def IsTenantFolder (directory : String) : Prop :=
  ∃ folder, directory = "~/Tenants/" ++ folder ∧ Acceptable folder ∧ '/' ∉ folder.toList

private theorem enter_of_acceptable {piece : String} (acceptable : Acceptable piece)
    (place : List String) : enter place piece = place ++ [piece] := by
  obtain ⟨present, notDot, notDots⟩ := acceptable
  rw [enter, if_neg (not_or.mpr ⟨present, notDot⟩), if_neg notDots]

private theorem foldl_enter_of_acceptable {pieces : List String}
    (acceptable : ∀ piece ∈ pieces, Acceptable piece) (place : List String) :
    pieces.foldl enter place = place ++ pieces := by
  induction pieces generalizing place with
  | nil => simp
  | cons piece pieces ih =>
      rw [List.foldl_cons, enter_of_acceptable (acceptable piece List.mem_cons_self),
        ih fun other member => acceptable other (List.mem_cons_of_mem _ member)]
      simp

/-- Without double dots a path does not leave the place that it starts from. -/
theorem prefix_foldl_enter {pieces : List String} (forward : ".." ∉ pieces)
    (place : List String) : place <+: pieces.foldl enter place := by
  induction pieces generalizing place with
  | nil => exact List.prefix_rfl
  | cons piece pieces ih =>
      obtain ⟨notDots, forward⟩ := List.ne_and_not_mem_of_not_mem_cons forward
      refine List.IsPrefix.trans ?_ (ih forward (enter place piece))
      rw [enter, if_neg (Ne.symm notDots)]
      split
      · exact List.prefix_rfl
      · exact List.prefix_append place [piece]

private theorem foldl_enter_dots {count : Nat} {place : List String}
    (enough : place.length ≤ count) :
    (List.replicate count "..").foldl enter place = [] := by
  induction count generalizing place with
  | zero => exact List.length_eq_zero_iff.mp (Nat.le_zero.mp enough)
  | succ count ih =>
      rw [List.replicate_succ, List.foldl_cons]
      refine ih ?_
      change place.dropLast.length ≤ count
      rw [List.length_dropLast]
      omega

/-! ## Places of databases -/

private theorem piecesOf_dataDirectory (name : String) :
    Text.piecesOf '/' (dataDirectory name) = "~" :: "Tenants" :: Text.piecesOf '/' name := by
  have folder : Text.piecesOf '/' "~/Tenants" = ["~", "Tenants"] := by decide
  have split : dataDirectory name = "~/Tenants" ++ "/" ++ name := rfl
  rw [split, Text.piecesOf_append, folder]
  rfl

private theorem resolve_dataDirectory (home : List String) (name : String) :
    resolve home (dataDirectory name) =
      (Text.piecesOf '/' name).foldl enter (home ++ ["Tenants"]) := by
  rw [resolve, piecesOf_dataDirectory]
  change ("Tenants" :: Text.piecesOf '/' name).foldl enter home = _
  rw [List.foldl_cons, enter_of_acceptable (by decide)]

private theorem dataDirectory_inj {other : String}
    (same : dataDirectory name = dataDirectory other) :
    name = other :=
  (String.append_right_inj "~/Tenants/").mp same

private theorem isTenantFolder_iff (acceptable : Acceptable name) :
    IsTenantFolder (dataDirectory name) ↔ '/' ∉ name.toList := by
  constructor
  · rintro ⟨folder, same, _, plain⟩
    rwa [dataDirectory_inj same]
  · intro plain
    exact ⟨name, rfl, acceptable, plain⟩

private theorem resolve_of_plain (acceptable : Acceptable name) (plain : '/' ∉ name.toList)
    (home : List String) : resolve home (dataDirectory name) = home ++ ["Tenants"] ++ [name] := by
  rw [resolve_dataDirectory, Text.piecesOf_of_not_mem plain, List.foldl_cons, List.foldl_nil,
    enter_of_acceptable acceptable]

/-- Any place is the directory of a database with an acceptable name. -/
theorem exists_resolve_eq (home : List String) {place : List String}
    (folders : ∀ folder ∈ place, Acceptable folder ∧ '/' ∉ folder.toList) :
    ∃ name, Acceptable name ∧ resolve home (dataDirectory name) = place := by
  -- One piece more than it takes to leave, so that the name is no dot segment itself.
  let pieces := List.replicate (home.length + 2) ".." ++ place
  have apart : ∀ piece ∈ pieces, '/' ∉ piece.toList := by
    intro piece member
    rcases List.mem_append.mp member with dots | folder
    · rw [List.eq_of_mem_replicate dots]
      decide
    · exact (folders piece folder).2
  have cut : Text.piecesOf '/' (Text.join "/" pieces) = pieces :=
    Text.piecesOf_join apart (by simp [pieces])
  have several : ∀ text, '/' ∉ text.toList → Text.join "/" pieces ≠ text := by
    rintro text plain rfl
    rw [Text.piecesOf_of_not_mem plain] at cut
    have count := congrArg List.length cut
    simp only [pieces, List.length_append, List.length_replicate, List.length_singleton] at count
    omega
  refine ⟨Text.join "/" pieces, ⟨?_, ?_, ?_⟩, ?_⟩
  · exact several "" (by decide)
  · exact several "." (by decide)
  · exact several ".." (by decide)
  · rw [resolve_dataDirectory, cut, List.foldl_append, foldl_enter_dots (by simp),
      foldl_enter_of_acceptable fun piece member => (folders piece member).1]
    rfl

/-! ## What is written -/

theorem document_of_mem_sent {settings : Settings} {σ : Type} {call : Call Unit}
    (creates : call ∈ [Call.create name, Call.ensureExists name])
    {respond : σ → Http.Request → Http.Reply × σ} {start : σ} {request : Http.Request}
    (member : request ∈ ((call.operation settings).run respond start).sent)
    (put : request.method = .put) :
    ∃ content, request.body = some content ∧ encodeBody (document name) = .ok content := by
  have protocol : (∀ url, (call.request url).method = .get) ∧ ∃ known, ∀ response,
      call.reaction response = Call.whether response (.creates name ()) known := by
    simp only [List.mem_cons, List.not_mem_nil, or_false] at creates
    obtain rfl | rfl := creates <;> exact ⟨fun _ => rfl, _, fun _ => rfl⟩
  obtain ⟨asks, known, reacts⟩ := protocol
  obtain ⟨url, made⟩ := Call.exists_url_of_mem_sent member
  have sent := congrArg Prod.snd (Call.run_operation made respond start)
  have member : request ∈ (call.outcome respond start url).2 := sent ▸ member
  obtain rfl | ⟨response, other, value, creates, rfl⟩ := Call.mem_outcome member
  · cases put.symm.trans (asks url)
  · rw [reacts, Call.whether] at creates
    split at creates
    · cases creates
      exact ⟨_, rfl, Call.encodeBody_document name⟩
    · cases creates

/-- What is put for an acceptable name holds the name behind the folder of all tenants. That is a
folder there if and only if there is no slash in the name, and then it is the name's own folder;
without double dots it is somewhere in the folder of all tenants. -/
theorem directory_of_name (acceptable : Acceptable name) :
    let directory := "~/Tenants/" ++ name
    (∀ call ∈ [Call.create name, Call.ensureExists name], ∀ (settings : Settings) {σ : Type}
        (respond : σ → Http.Request → Http.Reply × σ) (start : σ),
      ∀ request ∈ ((call.operation settings).run respond start).sent, request.method = .put →
        ∃ content, request.body = some content ∧
          encodeBody (.table [(.text "Settings",
            .table [(.text "Raven/DataDir", .text directory)])]) = .ok content) ∧
      (IsTenantFolder directory ↔ '/' ∉ name.toList) ∧
      ∀ home, let tenants := home ++ ["Tenants"]
        ('/' ∉ name.toList → resolve home directory = tenants ++ [name] ∧
          ∀ other, Acceptable other → '/' ∉ other.toList →
            resolve home ("~/Tenants/" ++ other) = resolve home directory → other = name) ∧
        (".." ∉ Text.piecesOf '/' name → tenants <+: resolve home directory) := by
  intro directory
  refine ⟨?_, isTenantFolder_iff acceptable, fun home => ⟨fun plain => ?_, fun forward => ?_⟩⟩
  · intro call creates settings σ respond start request member put
    exact document_of_mem_sent creates member put
  · have own := resolve_of_plain acceptable plain home
    refine ⟨own, fun other otherAcceptable otherPlain same => ?_⟩
    have folders := (resolve_of_plain otherAcceptable otherPlain home).symm.trans (same.trans own)
    exact List.singleton_inj.mp (List.append_cancel_left folders)
  · have start := prefix_foldl_enter forward (home ++ ["Tenants"])
    rwa [← resolve_dataDirectory] at start

theorem northwind_in_own_folder :
    IsTenantFolder "~/Tenants/Northwind" ∧
      resolve ["srv"] "~/Tenants/Northwind" = ["srv", "Tenants", "Northwind"] ∧
      ¬ IsTenantFolder "~/Tenants/a/.." ∧
      ["srv", "Tenants"] <+: resolve ["srv"] "~/Tenants/a/b" := by
  have plain : '/' ∉ "Northwind".toList := by decide
  obtain ⟨_, own, places⟩ := directory_of_name (by decide : Acceptable "Northwind")
  obtain ⟨_, leaving, _⟩ := directory_of_name (by decide : Acceptable "a/..")
  obtain ⟨_, _, nested⟩ := directory_of_name (by decide : Acceptable "a/b")
  exact ⟨own.mpr plain, ((places ["srv"]).1 plain).1, fun folder => leaving.mp folder (by decide),
    (nested ["srv"]).2 (by decide)⟩

/-- An acceptable name leads out of the folder of all tenants. -/
theorem name_with_dots_leads_out :
    ¬ ∀ name, Acceptable name → IsTenantFolder (dataDirectory name) ∧
      ∀ home, ∃ folder, resolve home (dataDirectory name) = home ++ ["Tenants"] ++ [folder] := by
  intro claim
  obtain ⟨_, inside⟩ := claim "../../etc" (by decide)
  obtain ⟨folder, place⟩ := inside ["srv"]
  have outside : resolve ["srv"] (dataDirectory "../../etc") = ["etc"] := by decide
  have depth := congrArg List.length (outside.symm.trans place)
  simp at depth

end DocumentClient.Database
