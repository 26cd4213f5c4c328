import DocumentClient.Proofs.Database.Creation

/-!
# Making sure that a database exists

Any number of clients make sure that one database exists, each as often as it likes. However their
requests mix, all of them succeed, and the document is there as soon as one of them has.
-/

set_option autoImplicit false

namespace DocumentClient.Database

open Concurrent

section

variable {ι : Type} {url : Url} {name : String} {index : ι} {start kept next : Option Bytes}
  {served more : List (ι × Http.Request)} {requests : List Http.Request}
  {before after beside : Progress}

/-! ## One client -/

/-- What is known of a client by the requests of it that have been served. -/
structure Secures (start kept : Option Bytes) (requests : List Http.Request)
    (progress : Progress) : Prop where
  once : puts requests ≤ 1
  missed : progress.phase = .misses → puts requests = 0 ∧ start = none
  found : progress.phase = .finds ∨ progress.phase = .wrote → kept.isSome
  returned : progress.results ≠ [] → kept.isSome
  succeeded : ∀ result ∈ progress.results, result = .ok ()

theorem Secures.ends {calls : Nat} {results : List (Except Error Unit)} {phase : Phase}
    (secures : Secures start kept requests ⟨phase, calls, results⟩)
    (decided : phase = .finds ∨ phase = .wrote) :
    Secures start kept requests ⟨.rests, calls, results ++ [.ok ()]⟩ where
  once := secures.once
  missed := nofun
  found := by simp
  returned _ := secures.found decided
  succeeded := by
    intro result member
    rcases List.mem_append.mp member with former | last
    · exact secures.succeeded result former
    · exact List.mem_singleton.mp last

variable [DecidableEq ι]

private theorem secures_of_turn
    (turn : Turn url name (.ok ()) index kept served before next more after)
    (account : Account name start kept served)
    (secures : Secures start kept (own index served) before) :
    Secures start next (own index more) after := by
  cases turn with
  | silent => exact secures
  | begins =>
      constructor
      case once => exact secures.once
      case missed => exact nofun
      case found => simp
      case returned => exact secures.returned
      case succeeded => exact secures.succeeded
  | finds present =>
      rw [own_append_self]
      constructor
      case once => rw [puts_append_looking]; exact secures.once
      case missed => exact nofun
      case found => exact fun _ => present
      case returned => exact fun _ => present
      case succeeded => exact secures.succeeded
  | misses missing =>
      subst missing
      obtain ⟨unwritten, absent⟩ := account.of_missing
      rw [own_append_self]
      constructor
      case once => rw [puts_append_looking]; exact secures.once
      case missed =>
        intro _
        rw [puts_append_looking]
        exact ⟨puts_own_of_not_written unwritten index, absent⟩
      case found => simp
      case returned => exact secures.returned
      case succeeded => exact secures.succeeded
  | writes =>
      obtain ⟨none, _⟩ := secures.missed rfl
      rw [own_append_self]
      constructor
      case once => rw [puts_append_creation, none]
      case missed => exact nofun
      case found => exact fun _ => rfl
      case returned => exact fun _ => rfl
      case succeeded => exact secures.succeeded
  | endsFound => exact secures.ends (.inl rfl)
  | endsWritten => exact secures.ends (.inr rfl)

/-- The others notice nothing but that the document may be there now. -/
theorem secures_of_other_turn {other : ι} (different : index ≠ other)
    (turn : Turn url name (.ok ()) index kept served before next more after)
    (secures : Secures start kept (own other served) beside) :
    Secures start next (own other more) beside := by
  rw [own_of_turn turn different]
  constructor
  case once => exact secures.once
  case missed => exact secures.missed
  case found => exact fun decided => isSome_of_turn turn (secures.found decided)
  case returned => exact fun results => isSome_of_turn turn (secures.returned results)
  case succeeded => exact secures.succeeded

end

/-! ## All clients -/

/-- What each of these clients calls. They share a host, and each has a database of its own selected
or none. -/
def ensuring {ι : Type} (settings : Settings) (name : String) (selected : ι → Option String)
    (count : ι → Nat) (index : ι) : List (Operation Unit) :=
  List.replicate (count index) (ensureExists { settings with database := selected index } name)

/-- Where some clients stand, by what the server kept at the start and what it keeps now. -/
structure Converges {ι σ : Type} [DecidableEq ι] (content : Bytes) (start kept : Option Bytes)
    (system : System ι σ Unit) : Prop where
  succeeded : ∀ index, ∀ result ∈ (system.clients index).results, result = .ok ()
  present : ∀ index, (system.clients index).results ≠ [] → kept.isSome
  kept : kept = if Written system.served then some content else start
  untouched : start.isSome → ∀ index, puts (system.sent index) = 0
  once : ∀ index, puts (system.sent index) ≤ 1

section

variable {ι σ : Type} [DecidableEq ι] {settings : Settings} {url : Url} {name : String}

private theorem puts_sent {start kept : Option Bytes} {system : System ι σ Unit} {index : ι}
    {progress : Progress}
    (fits : Fits url name (.ok ()) (system.clients index).standing progress)
    (secures : Secures start kept (own index system.served) progress) :
    puts (system.sent index) ≤ 1 ∧
      (0 < puts (system.sent index) → 0 < puts (own index system.served) ∨ start = none) := by
  rw [System.sent]
  obtain nothing | ⟨_, asked⟩ | ⟨misses, asked⟩ := inFlight_of_fits fits
  · rw [nothing, List.append_nil]
    exact ⟨secures.once, .inl⟩
  · rw [asked, puts_append_looking]
    exact ⟨secures.once, .inl⟩
  · obtain ⟨none, absent⟩ := secures.missed misses
    rw [asked, puts_append_creation, none]
    exact ⟨Nat.le_refl 1, fun _ => .inr absent⟩

private theorem converges_of_secures {start kept : Option Bytes} {system : System ι σ Unit}
    {progress : ι → Progress} (account : Account name start kept system.served)
    (fits : ∀ index, Fits url name (.ok ()) (system.clients index).standing (progress index))
    (each : ∀ index, Secures start kept (own index system.served) (progress index)) :
    Converges (utf8 (Call.documentText name)) start kept system := by
  have results (index : ι) : (system.clients index).results = (progress index).results :=
    (fits index).results
  constructor
  case succeeded =>
    intro index result member
    rw [results] at member
    exact (each index).succeeded result member
  case present =>
    intro index returned
    rw [results] at returned
    exact (each index).returned returned
  case kept => exact account.kept
  case once => exact fun index => (puts_sent (fits index) (each index)).1
  case untouched =>
    intro existing index
    by_contra some
    -- a PUT that was served or is on its way: either way nothing was there at the start
    rcases (puts_sent (fits index) (each index)).2 (Nat.pos_of_ne_zero some) with served | absent
    · have unwritten : ¬ Written system.served := by
        intro written
        rw [account.absent written] at existing
        cases existing
      rw [puts_own_of_not_written unwritten] at served
      exact absurd served (Nat.lt_irrefl 0)
    · rw [absent] at existing
      cases existing

/-- However often each of the clients makes sure that a database exists, and however their requests
mix: every call succeeds, and from the first return on the document is there. -/
theorem ensureExists_converges (accepted : settings.Accepted)
    (acceptable : PathSegment.Acceptable name) (selected : ι → Option String) (count : ι → Nat) :
    ∃ url content, (Endpoint.database name).urlFor settings = .ok url ∧
      encodeBody (document name) = .ok content ∧
      ∀ (respond : σ → Http.Request → Http.Reply × σ) (kept : σ → Option Bytes),
        KeepsDocument respond kept url → ∀ server : σ,
          let start := System.start server (ensuring settings name selected count)
          (∀ schedule : List ι,
            let system := start.run respond schedule
            Converges content (kept server) (kept system.server) system ∧
              ((∃ index, (system.clients index).results ≠ []) →
                ∀ more, (kept (system.run respond more).server).isSome)) ∧
          ∀ (turns : Nat → ι) (index : ι), Fair turns index →
            ∃ number, ((start.behind respond turns number).clients index).results =
              List.replicate (count index) (.ok ()) := by
  obtain ⟨url, made⟩ := exists_documentUrl accepted acceptable
  refine ⟨url, utf8 (Call.documentText name), made, Call.encodeBody_document name, ?_⟩
  intro respond kept keeps server start
  have same (index : ι) : (ensuring settings name selected count index).map Operation.quiet =
      List.replicate (count index) (creating url name (.ok ())) := by
    rw [ensuring, List.map_replicate, quiet_ensureExists (urlFor_selected made _)]
  have converges (schedule : List ι) : Converges (utf8 (Call.documentText name)) (kept server)
      (kept (start.run respond schedule).server) (start.run respond schedule) := by
    obtain ⟨account, progress, fits, each⟩ := run_of_turn
      (motive := fun now served index => Secures (kept server) now (own index served)) keeps same
      (fun secures misses => (secures.missed misses).2)
      (fun account turn secures => secures_of_turn turn account secures) secures_of_other_turn
      (fun index => ⟨Nat.zero_le 1, nofun, by simp, by simp, by simp⟩) rfl schedule
    exact converges_of_secures account fits each
  constructor
  · intro schedule
    refine ⟨converges schedule, ?_⟩
    intro returned more
    obtain ⟨index, results⟩ := returned
    have grown := results_run_grow respond (start.run respond schedule) more index
    have later := converges (schedule ++ more)
    rw [run_append] at later
    refine later.present index fun nothing => results ?_
    rw [nothing] at grown
    exact List.prefix_nil.mp grown
  · intro turns index fair
    obtain ⟨number, returned⟩ := all_return fair
    refine ⟨number, List.eq_replicate_iff.mpr ⟨?_, (converges _).succeeded index⟩⟩
    rw [returned, ensuring, List.length_replicate]

end

/-- Two clients in turn, each of them twice, one with a database selected that is refused. -/
theorem ensureExists_converges_in_turn :
    let selected : Fin 2 → Option String := fun index => if index = 0 then none else some ".."
    let start := System.start (fun _ => none)
      (ensuring Settings.localhost "Köln" selected fun _ => 2)
    let turns : Nat → Fin 2 := Fin.ofNat 2
    ∀ index, ∃ number,
      ((start.behind Storage.plain.respond turns number).clients index).results =
        [.ok (), .ok ()] := by
  intro selected start turns index
  have fair : Fair turns index := fair_of_mod (fun _ => rfl) index
  have acceptable : PathSegment.Acceptable "Köln" := by decide
  obtain ⟨url, _, _, _, converges⟩ := ensureExists_converges Settings.accepted_localhost acceptable
    selected fun _ => 2
  have keeps := keepsDocument_of_storage Storage.plain url
  exact (converges Storage.plain.respond _ keeps fun _ => none).2 turns index fair

end DocumentClient.Database
