import DocumentClient.Proofs.Database.Creation

/-!
# Creating a database at the same time

Some clients create one database, each of them once. Looking and putting are two requests, and the
server takes others in between. So the one thing that decides is whether anything was put before a
client looked: then it is told that the database exists, and otherwise it creates it, perhaps not as
the only one.
-/

set_option autoImplicit false

namespace DocumentClient.Database

open Concurrent

section

variable {ι : Type} {url : Url} {name : String} {known : Except Error Unit} {index : ι}
  {kept next : Option Bytes} {served more : List (ι × Http.Request)} {earlier later : Prop}
  {before after : Progress} {requests : List Http.Request}

/-- One call, by whether anything was put before it looked, with the requests that have been
served. -/
inductive Story (url : Url) (name : String) (known : Except Error Unit) (earlier : Prop) :
    Progress → List Http.Request → Prop where
  | waits : Story url name known earlier ⟨.rests, 1, []⟩ []
  | looks : Story url name known earlier ⟨.looks, 0, []⟩ []
  | finds : earlier → Story url name known earlier ⟨.finds, 0, []⟩ [looking url]
  | misses : ¬ earlier → Story url name known earlier ⟨.misses, 0, []⟩ [looking url]
  | wrote : ¬ earlier →
      Story url name known earlier ⟨.wrote, 0, []⟩ [looking url, Call.creation url name]
  | found : earlier → Story url name known earlier ⟨.rests, 0, [known]⟩ [looking url]
  | created : ¬ earlier →
      Story url name known earlier ⟨.rests, 0, [.ok ()]⟩ [looking url, Call.creation url name]

/-- Before its first request a call does not know what was put. -/
theorem Story.of_nil (story : Story url name known earlier before []) :
    Story url name known later before [] := by
  cases story with
  | waits => exact .waits
  | looks => exact .looks

variable [DecidableEq ι]

private theorem story_of_turn (turn : Turn url name known index kept served before next more after)
    (account : Account name none kept served)
    (story : Story url name known (Written (Concurrent.before index served)) before
      (own index served)) :
    Story url name known (Written (Concurrent.before index more)) after (own index more) := by
  generalize sent : own index served = requests at story
  cases turn with
  | silent =>
      rw [sent]
      exact story
  | begins =>
      rw [sent]
      cases story with
      | waits => exact .looks
  | finds present =>
      cases story with
      | looks =>
          have written : Written served := by
            by_contra unwritten
            rw [account.kept, if_neg unwritten] at present
            cases present
          rw [own_append_self, sent, before_append_self sent]
          exact .finds written
  | misses missing =>
      cases story with
      | looks =>
          subst missing
          rw [own_append_self, sent, before_append_self sent]
          exact .misses account.of_missing.1
  | writes =>
      cases story with
      | misses unseen =>
          have looked : own index served ≠ [] := by simp [sent]
          rw [own_append_self, sent, before_append_of_own_ne_nil looked]
          exact .wrote unseen
  | endsFound =>
      rw [sent]
      cases story with
      | finds seen => exact .found seen
  | endsWritten =>
      rw [sent]
      cases story with
      | wrote unseen => exact .created unseen

/-- What others do behind the first request of a call is not part of its story. -/
theorem story_of_other_turn {other : ι} {beside : Progress} (different : index ≠ other)
    (turn : Turn url name known index kept served before next more after)
    (story : Story url name known (Written (Concurrent.before other served)) beside
      (own other served)) :
    Story url name known (Written (Concurrent.before other more)) beside (own other more) := by
  rw [own_of_turn turn different]
  by_cases looked : own other served = []
  · rw [looked] at story ⊢
    exact story.of_nil
  · cases turn with
    | silent | begins | endsFound | endsWritten => exact story
    | finds | misses | writes =>
        rw [before_append_of_own_ne_nil looked]
        exact story

end

/-! ## All clients -/

/-- What each of these clients calls. They share a host, and each has a database of its own selected
or none. -/
def creatingOnce {ι : Type} (settings : Settings) (name : String) (selected : ι → Option String)
    (index : ι) : List (Operation Unit) :=
  [create { settings with database := selected index } name]

/-- Where they stand, by what the server keeps now. -/
structure Contends {ι σ : Type} [DecidableEq ι] (url : Url) (name : String) (content : Bytes)
    (kept : Option Bytes) (system : System ι σ Unit) : Prop where
  stored : ∀ index, (system.clients index).results ≠ [] → kept = some content
  existing : ∀ index, Written (before index system.served) →
    puts (system.sent index) = 0 ∧
      ∀ result ∈ (system.clients index).results, result = .error (.alreadyExists name)
  created : ∀ index, ¬ Written (before index system.served) →
    ∀ result ∈ (system.clients index).results,
      result = .ok () ∧ system.sent index = [looking url, Call.creation url name]
  kept : kept = if Written system.served then some content else none

section

variable {ι σ : Type} [DecidableEq ι] {settings : Settings} {url : Url} {name : String}
  {known : Except Error Unit} {system : System ι σ Unit} {index : ι} {progress : Progress}
  {earlier : Prop}

/-- Who finds something puts nothing, from the start of the call to its end. -/
theorem puts_sent_of_found (fits : Fits url name known (system.clients index).standing progress)
    (story : Story url name known earlier progress (own index system.served)) (seen : earlier) :
    puts (system.sent index) = 0 := by
  have none : puts (own index system.served) = 0 := by
    generalize own index system.served = requests at story
    cases story with
    | waits | looks | finds | found => rfl
    | misses unseen | wrote unseen | created unseen => exact absurd seen unseen
  rw [System.sent]
  obtain nothing | ⟨_, asked⟩ | ⟨misses, _⟩ := inFlight_of_fits fits
  · rw [nothing, List.append_nil]
    exact none
  · rw [asked, puts_append_looking]
    exact none
  · exfalso
    generalize own index system.served = requests at story
    cases story with
    | misses unseen => exact unseen seen
    | waits | looks | finds | wrote | found | created => cases misses

private theorem sent_of_returned
    (fits : Fits url name known (system.clients index).standing progress)
    (story : Story url name known earlier progress (own index system.served))
    {result : Except Error Unit} (returned : result ∈ (system.clients index).results) :
    system.sent index = own index system.served ∧
      (earlier ∧ result = known ∨
        ¬ earlier ∧ result = .ok () ∧
          own index system.served = [looking url, Call.creation url name]) := by
  have results : (system.clients index).results = progress.results := fits.results
  rw [results] at returned
  rw [System.sent]
  obtain nothing | ⟨looks, _⟩ | ⟨misses, _⟩ := inFlight_of_fits fits
  · rw [nothing, List.append_nil]
    refine ⟨rfl, ?_⟩
    generalize own index system.served = requests at story ⊢
    cases story with
    | found seen => exact .inl ⟨seen, List.mem_singleton.mp returned⟩
    | created unseen => exact .inr ⟨unseen, List.mem_singleton.mp returned, rfl⟩
    | waits | looks | finds | misses | wrote => cases returned
  -- a call with a request on its way has not returned
  all_goals
    exfalso
    generalize own index system.served = requests at story
    cases story with
    | waits | looks | finds | misses | wrote => cases returned
    | found | created => simp at *

private theorem contends_of_story {kept : Option Bytes} {progress : ι → Progress}
    (account : Account name none kept system.served)
    (fits : ∀ index, Fits url name (.error (.alreadyExists name))
      (system.clients index).standing (progress index))
    (each : ∀ index, Story url name (.error (.alreadyExists name))
      (Written (before index system.served)) (progress index) (own index system.served)) :
    Contends url name (utf8 (Call.documentText name)) kept system := by
  constructor
  case kept => exact account.kept
  case existing =>
    intro index seen
    refine ⟨puts_sent_of_found (fits index) (each index) seen, ?_⟩
    intro result returned
    obtain ⟨_, ⟨_, same⟩ | ⟨unseen, _⟩⟩ := sent_of_returned (fits index) (each index) returned
    · exact same
    · exact absurd seen unseen
  case created =>
    intro index unseen result returned
    obtain ⟨sent, ⟨seen, _⟩ | ⟨_, same, own⟩⟩ :=
      sent_of_returned (fits index) (each index) returned
    · exact absurd seen unseen
    · exact ⟨same, sent.trans own⟩
  case stored =>
    intro index returned
    obtain ⟨result, member⟩ := List.exists_mem_of_ne_nil _ returned
    have written : Written system.served := by
      obtain ⟨_, ⟨seen, _⟩ | ⟨_, _, own⟩⟩ := sent_of_returned (fits index) (each index) member
      · obtain ⟨entry, found, put⟩ := seen
        exact ⟨entry, (List.takeWhile_prefix _).mem found, put⟩
      · have put : Call.creation url name ∈ Concurrent.own index system.served := by
          rw [own]
          simp
        exact written_of_mem_own put rfl
    rw [account.kept, if_pos written]

/-- However the requests of these clients mix: who looks behind the first PUT is told that the
database exists and puts nothing, and everyone else creates it. They all put the same document. -/
theorem create_beside_others (accepted : settings.Accepted)
    (acceptable : PathSegment.Acceptable name) (selected : ι → Option String) :
    ∃ url content, (Endpoint.database name).urlFor settings = .ok url ∧
      encodeBody (document name) = .ok content ∧
      ∀ (respond : σ → Http.Request → Http.Reply × σ) (kept : σ → Option Bytes),
        KeepsDocument respond kept url → ∀ server : σ, kept server = none →
          let start := System.start server (creatingOnce settings name selected)
          (∀ schedule : List ι,
            let system := start.run respond schedule
            Contends url name content (kept system.server) system) ∧
          ∀ (turns : Nat → ι) (index : ι), Fair turns index →
            ∃ number result,
              ((start.behind respond turns number).clients index).results = [result] := by
  obtain ⟨url, made⟩ := exists_documentUrl accepted acceptable
  refine ⟨url, utf8 (Call.documentText name), made, Call.encodeBody_document name, ?_⟩
  intro respond kept keeps server absent start
  have same (index : ι) : (creatingOnce settings name selected index).map Operation.quiet =
      List.replicate 1 (creating url name (.error (.alreadyExists name))) :=
    congrArg (fun call => [call]) (quiet_create (urlFor_selected made (selected index)))
  constructor
  · intro schedule
    obtain ⟨account, progress, fits, each⟩ := run_of_turn
      (motive := fun _ served index progress =>
        Story url name (.error (.alreadyExists name)) (Written (before index served)) progress
          (own index served)) keeps same
      (fun _ _ => rfl) (fun account turn story => story_of_turn turn account story)
      story_of_other_turn (fun _ => .waits) absent schedule
    exact contends_of_story account fits each
  · intro turns index fair
    obtain ⟨number, returned⟩ := all_return fair
    exact ⟨number, List.length_eq_one_iff.mp returned⟩

end

/-- Two clients in turn, one of them with a database selected that is refused. -/
theorem create_beside_others_in_turn :
    let selected : Fin 2 → Option String := fun index => if index = 0 then none else some ".."
    let start := System.start (fun _ => none) (creatingOnce Settings.localhost "Köln" selected)
    let turns : Nat → Fin 2 := Fin.ofNat 2
    ∀ index, ∃ number result,
      ((start.behind Storage.plain.respond turns number).clients index).results = [result] := by
  intro selected start turns index
  have fair : Fair turns index := fair_of_mod (fun _ => rfl) index
  have acceptable : PathSegment.Acceptable "Köln" := by decide
  obtain ⟨url, _, _, _, contends⟩ := create_beside_others Settings.accepted_localhost acceptable
    selected
  have keeps := keepsDocument_of_storage Storage.plain url
  exact (contends Storage.plain.respond _ keeps (fun _ => none) rfl).2 turns index fair

/-- Both clients look before either of them puts. -/
theorem create_not_exclusive :
    ¬ ∀ (name : String) (schedule : List (Fin 2)), PathSegment.Acceptable name →
      let start := System.start (fun _ => none)
        (creatingOnce Settings.localhost name fun _ => none)
      let system := start.run Storage.plain.respond schedule
      ∀ first second, first ≠ second →
        .ok () ∈ (system.clients first).results → .ok () ∉ (system.clients second).results := by
  intro claim
  -- five turns bring a client behind its first reply, and six more to its result
  let schedule : List (Fin 2) :=
    List.replicate 5 0 ++ List.replicate 5 1 ++ List.replicate 6 0 ++ List.replicate 6 1
  have exclusive := claim "a" schedule (by decide)
  dsimp only at exclusive
  refine exclusive 0 1 (by decide) ?_ ?_
  · decide +kernel
  · decide +kernel

end DocumentClient.Database
