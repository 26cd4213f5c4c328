import DocumentClient.Proofs.Outcome

/-!
# One server

Whatever a caller asks for, all requests go to the server of the host. No relative path names
another one, whatever it looks like, and it is never the path that is refused.
-/

set_option autoImplicit false

namespace DocumentClient

/-- Two URLs of one server, with the same scheme, user name, password, host and port. -/
structure SameServer (host url : Url) : Prop where
  scheme : url.scheme = host.scheme
  authority : url.authority = host.authority
  named : ∃ authority ∈ host.authority, authority.host.isSome

namespace Settings

variable {settings : Settings}

theorem urlFor_of_accepted (accepted : settings.Accepted) (usable : settings.Usable)
    (path : String) : ∃ url, settings.urlFor path = .ok url ∧ SameServer settings.host url := by
  obtain ⟨number, authority, segments, canonical⟩ := canonical_of_accepted accepted
  obtain ⟨rest, found⟩ := urlFor_of_usable canonical usable path
  obtain ⟨host, named, _⟩ := canonical.canonical.host
  refine ⟨_, found, rfl, canonical.named.symm, authority, canonical.named, ?_⟩
  rw [Option.mem_def.mp named]
  rfl

end Settings

namespace Call

variable {α σ : Type} {settings : Settings}

/-- A call never asks for anything but its own URL. -/
theorem url_of_mem_outcome {respond : σ → Http.Request → Http.Reply × σ} {start : σ} {url : Url}
    {call : Call α} {request : Http.Request}
    (member : request ∈ (call.outcome respond start url).2) : request.url = url := by
  obtain rfl | ⟨_, _, _, _, rfl⟩ := mem_outcome member
  · exact url_request url call
  · rfl

theorem sameServer_of_mem_sent (accepted : settings.Accepted) {call : Call α}
    {respond : σ → Http.Request → Http.Reply × σ} {start : σ} {request : Http.Request}
    (member : request ∈ ((call.operation settings).run respond start).sent) :
    SameServer settings.host request.url := by
  by_cases acceptable : call.Acceptable settings
  · obtain ⟨text, named⟩ := path_of_named acceptable.2
    have inScope := Settings.accepted_of_host_eq accepted (host_scope settings call)
    obtain ⟨url, found, same⟩ := Settings.urlFor_of_accepted inScope acceptable.1 text
    have made : call.url settings = .ok url := url_of_path named found
    obtain ⟨_, sent⟩ := Prod.mk.inj (run_operation made respond start)
    rw [sent] at member
    rw [url_of_mem_outcome member, ← host_scope settings call]
    exact same
  · obtain ⟨_, _, sent, _⟩ := run_of_not_acceptable acceptable respond start
    rw [sent] at member
    cases member

end Call

namespace Settings

/-- Every path is resolved on the server of the host unless the selected database is refused, and
no call hands over a request for any other server. -/
theorem requests_stay_on_server {settings : Settings} (accepted : settings.Accepted) :
    (∀ path : String,
      (settings.Usable → ∃ url, settings.urlFor path = .ok url ∧ SameServer settings.host url) ∧
      (¬ settings.Usable → ∃ misuse, settings.urlFor path = .error (.validation misuse))) ∧
    ∀ {α σ : Type} (call : Call α) (respond : σ → Http.Request → Http.Reply × σ) (start : σ),
      ∀ request ∈ ((call.operation settings).run respond start).sent,
        SameServer settings.host request.url := by
  constructor
  · intro path
    constructor
    · intro usable
      exact urlFor_of_accepted accepted usable path
    · intro unusable
      exact urlFor_of_not_usable unusable path
  · intro α σ call respond start request member
    exact Call.sameServer_of_mem_sent accepted member

/-- A path that looks like the authority of another server. -/
theorem authority_in_path_stays_on_server :
    ∃ host url, ofHost "https://user:secret@[::1]:8443/raven?tenant=1" = .ok ⟨host, none⟩ ∧
      (Settings.mk host (some "a@b")).urlFor "//\\@elsewhere:81/..\t" = .ok url ∧
      SameServer host url := by
  let host : Url :=
    ⟨"https", some ⟨"user", some "secret", some (.ipv6 [0, 0, 0, 0, 0, 0, 0, 1]), some 8443⟩,
      .absolute ["raven"], some "tenant=1", none⟩
  have read : ofHost "https://user:secret@[::1]:8443/raven?tenant=1" = .ok ⟨host, none⟩ := by
    decide +kernel
  have accepted : Accepted ⟨host, some "a@b"⟩ := ⟨_, _, read, rfl⟩
  have usable : Usable ⟨host, some "a@b"⟩ := by decide +kernel
  obtain ⟨url, found, same⟩ :=
    ((requests_stay_on_server accepted).1 "//\\@elsewhere:81/..\t").1 usable
  exact ⟨host, url, read, found, same⟩

end Settings

end DocumentClient
