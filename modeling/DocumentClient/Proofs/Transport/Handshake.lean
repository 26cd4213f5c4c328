import DocumentClient.Proofs.Wire.Delivery

/-!
# Failed handshakes

Which errors tell that a connection was lost, and of which kind they are. The kind is taken from the
text of the fault, and no fault of the client itself speaks of encryption. So a handshake that fails
is reported as a dial that failed, like a server that is not there.
-/

set_option autoImplicit false

namespace DocumentClient.Transport

/-! ## Kinds of faults -/

/-- The faults that have no text from elsewhere. -/
def ownFaults : List ConnectionFault :=
  [.dial, .noAuthority, .noAnswer, .bodyCutShort]

/-- No fault of the client itself speaks of encryption. -/
theorem speaksOfTls_message :
    ∀ fault ∈ ownFaults, speaksOfTls fault.message = false := by
  decide +kernel

/-- Being part of a dial makes no difference to the kind of a fault: a dial that fails does not
speak of encryption in any case. -/
theorem classify_eq (fault : ConnectionFault) :
    classify fault =
      if speaksOfTls fault.message then .tls fault.message else .connection fault := by
  cases fault with
  | dial => simp [classify, duringDial, speaksOfTls_message .dial (by decide)]
  | noAuthority | noAnswer | bodyCutShort | custom => simp [classify, duringDial]

private theorem classify_of_own {fault : ConnectionFault} (own : fault ∈ ownFaults) :
    classify fault = .connection fault := by
  rw [classify_eq, speaksOfTls_message fault own]
  exact if_neg Bool.false_ne_true

/-! ## Lost connections -/

/-- How the connection for a request is lost: there is none to be had, it breaks off in time without
an answer, or it does so with one. -/
inductive Lost (config : Config) (network : Network) (request : Http.Request) :
    ConnectionFault → Prop where
  | unspoken {sent} : Wire.Message.ofRequest request = .ok sent → sent.target.scheme = none →
      Lost config network request .noAuthority
  | broken {sent fault time} : message request = .ok sent →
      network.timeline sent = .broken fault time → time ≤ config.timeout →
      Lost config network request fault
  | cutShort {sent status headers time last} : message request = .ok sent →
      network.timeline sent = .answered status headers time (.cutShort last) →
      time ≤ config.timeout → Lost config network request .bodyCutShort

variable {config : Config} {network : Network} {request : Http.Request} {sent : Wire.Message}
  {fault : ConnectionFault}

private theorem message_eq_error {error : Error} (refused : message request = .error error) :
    (∃ fault, error = .invalidRequest fault) ∨
      error = .connection .noAuthority ∧
        ∃ sent, Wire.Message.ofRequest request = .ok sent ∧ sent.target.scheme = none := by
  unfold message at refused
  split at refused
  · cases refused
    exact .inl ⟨_, rfl⟩
  · rename_i sent made
    split at refused
    · rename_i unspoken
      cases refused
      exact .inr ⟨rfl, sent, made, Option.isNone_iff_eq_none.mp unspoken⟩
    · cases refused

private theorem message_of_scheme {scheme : String}
    (made : Wire.Message.ofRequest request = .ok sent)
    (spoken : sent.target.scheme = some scheme) : message request = .ok sent := by
  simp [message, made, spoken]

/-- An error that is neither a refusal nor a timeout tells that the connection was lost. -/
theorem exists_lost_of_reply? {error : Error}
    (replied : reply? config network request = some (.error error))
    (valid : ∀ fault, error ≠ .invalidRequest fault) (inTime : error ≠ .timeout) :
    ∃ fault, Lost config network request fault ∧ error = classify fault := by
  unfold reply? at replied
  split at replied
  · rename_i refused
    cases replied
    rcases message_eq_error refused with ⟨fault, invalid⟩ | ⟨rfl, sent, made, unspoken⟩
    · exact absurd invalid (valid fault)
    · exact ⟨_, .unspoken made unspoken, (classify_of_own (by decide)).symm⟩
  · rename_i sent accepted
    cases happens : network.timeline sent with
    | silent =>
        rw [happens] at replied
        cases replied
        exact absurd rfl inTime
    | broken fault time =>
        rw [happens, Timeline.reply?] at replied
        split at replied
        · rename_i early
          cases replied
          exact ⟨fault, .broken accepted happens early, rfl⟩
        · cases replied
          exact absurd rfl inTime
    | answered status headers time body =>
        rw [happens] at replied
        simp only [Timeline.reply?] at replied
        split at replied
        · cases replied
          exact absurd rfl inTime
        · rename_i early
          cases body with
          | whole | endless => cases replied
          | cutShort last =>
              cases replied
              exact ⟨_, .cutShort accepted happens (Nat.not_lt.mp early),
                (classify_of_own (by decide)).symm⟩

private theorem reply?_of_lost (lost : Lost config network request fault) :
    reply? config network request = some (.error (classify fault)) := by
  cases lost with
  | unspoken made unspoken =>
      have refused : message request = .error (.connection .noAuthority) := by
        simp [message, made, unspoken]
      rw [reply?, refused, classify_of_own (by decide)]
  | broken accepted happens early =>
      simp only [reply?, accepted, happens, Timeline.reply?, if_pos early]
  | cutShort accepted happens early =>
      rw [classify_of_own (by decide)]
      simp only [reply?, accepted, happens, Timeline.reply?, if_neg (Nat.not_lt.mpr early)]

private theorem reply?_eq_tls_iff {text : String} :
    reply? config network request = some (.error (.tls text)) ↔
      Lost config network request (.custom text) ∧ speaksOfTls text = true := by
  constructor
  · intro replied
    obtain ⟨fault, lost, kind⟩ := exists_lost_of_reply? replied nofun nofun
    rw [classify_eq] at kind
    split at kind
    · rename_i speaks
      cases kind
      cases fault with
      | custom text => exact ⟨lost, speaks⟩
      | dial | noAuthority | noAnswer | bodyCutShort =>
          cases speaks.symm.trans (speaksOfTls_message _ (by decide))
    · cases kind
  · rintro ⟨lost, speaks⟩
    rw [reply?_of_lost lost, classify_eq]
    exact congrArg (fun error => some (Except.error error)) (if_pos speaks)

private theorem reply?_eq_connection_iff :
    reply? config network request = some (.error (.connection fault)) ↔
      Lost config network request fault ∧ speaksOfTls fault.message = false := by
  constructor
  · intro replied
    obtain ⟨found, lost, kind⟩ := exists_lost_of_reply? replied nofun nofun
    rw [classify_eq] at kind
    split at kind
    · cases kind
    · rename_i quiet
      cases kind
      exact ⟨lost, Bool.eq_false_iff.mpr quiet⟩
  · rintro ⟨lost, quiet⟩
    rw [reply?_of_lost lost, classify_eq, quiet]
    rfl

/-! ## Handshakes -/

/-- The dial of an encrypted connection breaks off, as it does where the handshake fails and where
nobody listens. Nothing else is told of it. -/
structure EncryptedDialFails (network : Network) (sent : Wire.Message) (time : Nat) : Prop where
  encrypted : sent.target.scheme = some "https"
  broken : network.timeline sent = .broken .dial time

/-- What is assumed of a network in which some peer is met: that a handshake with it fails unless
the peer is silent, and that nothing is told of such a failure but that the dial has failed. -/
structure Network.Meets (network : Network) (peer : Peer) (time : Nat) : Prop where
  clear : ∀ sent : Wire.Message, sent.target.scheme = some "http" →
    network.timeline sent = peer.plainTimeline
  silent : peer = .silent → ∀ sent : Wire.Message, sent.target.scheme = some "https" →
    network.timeline sent = .silent
  failed : peer ≠ .silent → ∀ sent : Wire.Message, sent.target.scheme = some "https" →
    network.timeline sent = .broken .dial time
  /-- No other scheme is spoken. -/
  unspoken : ∀ sent : Wire.Message, sent.target.scheme ≠ some "http" →
    sent.target.scheme ≠ some "https" → ∃ early, network.timeline sent = .broken .dial early

/-- There is such a network for every peer. -/
theorem meets_ofPeer (peer : Peer) : (Network.ofPeer peer).Meets peer 0 where
  clear sent plain := by
    rw [Network.timeline, Network.ofPeer, plain]
    rfl
  silent isSilent sent encrypted := by
    rw [Network.timeline, Network.ofPeer, encrypted, isSilent]
    rfl
  failed speaks sent encrypted := by
    rw [Network.timeline, Network.ofPeer, encrypted]
    cases peer with
    | silent => exact absurd rfl speaks
    | absent | closing | sending => rfl
  unspoken sent notPlain notEncrypted := by
    refine ⟨0, ?_⟩
    change peer.timeline sent.target.scheme = _
    unfold Peer.timeline
    split
    · rename_i plain
      exact absurd plain notPlain
    · rename_i encrypted
      exact absurd encrypted notEncrypted
    · rfl

private theorem reply?_of_encryptedDialFails {time : Nat}
    (made : Wire.Message.ofRequest request = .ok sent)
    (fails : EncryptedDialFails network sent time) :
    reply? config network request =
      some (.error (if time ≤ config.timeout then .connection .dial else .timeout)) := by
  rw [reply?, message_of_scheme made fails.encrypted]
  simp only [fails.broken, Timeline.reply?]
  rw [classify_of_own (by decide)]

private theorem plainTimeline_ne_custom (peer : Peer) (text : String) (time : Nat) :
    peer.plainTimeline ≠ .broken (.custom text) time := by
  intro happens
  cases peer with
  | sending bytes =>
      simp only [Peer.plainTimeline, Timeline.ofBytes] at happens
      split at happens
      · cases happens
      · split at happens <;> cases happens
  | absent | silent | closing => cases happens

/-- No peer makes a fault whose text comes from elsewhere. -/
theorem Network.Meets.not_lost_custom {peer : Peer} {time : Nat} (meets : network.Meets peer time)
    (config : Config) (request : Http.Request) (text : String) :
    ¬ Lost config network request (.custom text) := by
  intro lost
  generalize own : ConnectionFault.custom text = fault at lost
  cases lost with
  | unspoken | cutShort => cases own
  | @broken sent fault late _ happens _ =>
      subst own
      by_cases plain : sent.target.scheme = some "http"
      · exact plainTimeline_ne_custom peer text late ((meets.clear sent plain).symm.trans happens)
      · by_cases encrypted : sent.target.scheme = some "https"
        · by_cases isSilent : peer = .silent
          · cases (meets.silent isSilent sent encrypted).symm.trans happens
          · cases (meets.failed isSilent sent encrypted).symm.trans happens
        · obtain ⟨early, dials⟩ := meets.unspoken sent plain encrypted
          cases dials.symm.trans happens

/-- An exchange ends with an error of encryption exactly if the connection is lost for a fault from
elsewhere whose text speaks of it, and with an error of the connection for every other fault. No
handshake that fails is told like that: it is a dial that fails, with the same error as where nobody
listens, or a timeout if it takes too long. -/
theorem failed_handshake_is_failed_dial (config : Config) (request : Http.Request) :
    (∀ network text, reply? config network request = some (.error (.tls text)) ↔
        Lost config network request (.custom text) ∧ speaksOfTls text = true) ∧
      (∀ network fault, reply? config network request = some (.error (.connection fault)) ↔
        Lost config network request fault ∧ speaksOfTls fault.message = false) ∧
      (∀ peer, (Network.ofPeer peer).Meets peer 0) ∧
      (∀ network peer time, network.Meets peer time →
        ∀ text, reply? config network request ≠ some (.error (.tls text))) ∧
      ∀ text sent, Url.parse text = .ok request.url → request.url.scheme = "https" →
        Wire.Message.ofRequest request = .ok sent →
          (∀ network time, EncryptedDialFails network sent time →
            reply? config network request =
              some (.error (if time ≤ config.timeout then .connection .dial else .timeout))) ∧
          (∀ network peer time, network.Meets peer time → peer ≠ .silent →
            EncryptedDialFails network sent time ∧
            reply? config network request =
              some (.error (if time ≤ config.timeout then .connection .dial else .timeout)) ∧
            reply? config .isolated request = some (.error (.connection .dial))) ∧
          ∀ network time, network.Meets .silent time →
            reply? config network request = some (.error .timeout) := by
  refine ⟨fun network text => reply?_eq_tls_iff, fun network fault => reply?_eq_connection_iff,
    meets_ofPeer, ?_, ?_⟩
  · intro network peer time meets text replied
    exact meets.not_lost_custom config request text (reply?_eq_tls_iff.mp replied).1
  · intro text sent parsed web made
    obtain ⟨number, authority, segments, canonical⟩ := Url.canonical_of_parse parsed (.inr web)
    have settled := Url.settledTail_of_parse parsed (.inr web)
    obtain ⟨_, read, _⟩ := Wire.Message.ofRequest_eq_ok made
    have encrypted : sent.target.scheme = some "https" :=
      web ▸ (Wire.read_eq_ok canonical settled read).1
    refine ⟨fun network time => reply?_of_encryptedDialFails made, ?_, ?_⟩
    · intro network peer time meets speaks
      have fails : EncryptedDialFails network sent time :=
        ⟨encrypted, meets.failed speaks sent encrypted⟩
      have nobody : EncryptedDialFails .isolated sent 0 :=
        ⟨encrypted, (meets_ofPeer .absent).failed (by decide) sent encrypted⟩
      exact ⟨fails, reply?_of_encryptedDialFails made fails,
        reply?_of_encryptedDialFails made nobody⟩
    · intro network time meets
      rw [reply?, message_of_scheme made encrypted]
      simp only [meets.silent rfl sent encrypted]
      rfl

/-- A server that answers a handshake in the clear is taken for one that is not there, though a text
from elsewhere that speaks of a certificate would be told. -/
theorem handshake_with_plain_server :
    let url : Url := { Settings.localhost.host with scheme := "https" }
    let request : Http.Request := { method := .get, url }
    reply? {} (.ofPeer (.sending (utf8 "HTTP/1.1 400 Bad Request\r\n\r\n"))) request =
        some (.error (.connection .dial)) ∧
      reply? {} .isolated request = some (.error (.connection .dial)) ∧
      reply? { timeout := 5 } (fun _ _ => .broken .dial 10) request = some (.error .timeout) ∧
      reply? {} (fun _ _ => .broken (.custom "bad Certificate") 0) request =
        some (.error (.tls "bad Certificate")) := by
  intro url request
  have parsed : Url.parse "https://localhost:8080/" = .ok url := by decide +kernel
  have sendable : (message request).toOption.isSome := by decide +kernel
  cases made : Wire.Message.ofRequest request with
  | error fault => simp [message, made, Except.toOption] at sendable
  | ok sent =>
      obtain ⟨told, _, meets, _, encrypted⟩ := failed_handshake_is_failed_dial {} request
      obtain ⟨_, _, _, _, hasty⟩ := failed_handshake_is_failed_dial { timeout := 5 } request
      obtain ⟨_, peers, _⟩ := encrypted _ sent parsed rfl made
      let server : Peer := .sending (utf8 "HTTP/1.1 400 Bad Request\r\n\r\n")
      obtain ⟨fails, lost, nobody⟩ := peers _ server 0 (meets server) (by decide)
      obtain ⟨dials, _, _⟩ := hasty _ sent parsed rfl made
      have accepted := message_of_scheme made fails.encrypted
      exact ⟨lost, nobody, dials (fun _ _ => .broken .dial 10) 10 ⟨fails.encrypted, rfl⟩,
        (told _ _).mpr ⟨.broken accepted rfl (Nat.zero_le _), by decide⟩⟩

/-- A server that takes the connection and no handshake makes no error of encryption. -/
theorem failed_handshake_is_not_told :
    ¬ ∀ (config : Config) (request : Http.Request) (text : String) (sent : Wire.Message)
        (network : Network) (peer : Peer) (time : Nat), network.Meets peer time →
      Url.parse text = .ok request.url → request.url.scheme = "https" →
      Wire.Message.ofRequest request = .ok sent → peer ≠ .absent → peer ≠ .silent →
      ∃ words, reply? config network request = some (.error (.tls words)) := by
  intro told
  let url : Url := { Settings.localhost.host with scheme := "https" }
  let request : Http.Request := { method := .get, url }
  have parsed : Url.parse "https://localhost:8080/" = .ok url := by decide +kernel
  have sendable : (Wire.Message.ofRequest request).toOption.isSome := by decide +kernel
  cases made : Wire.Message.ofRequest request with
  | error fault => simp [made, Except.toOption] at sendable
  | ok sent =>
      have meets := meets_ofPeer .closing
      obtain ⟨words, replied⟩ :=
        told {} request _ sent _ .closing 0 meets parsed rfl made (by decide) (by decide)
      exact meets.not_lost_custom _ _ _ (reply?_eq_tls_iff.mp replied).1

end DocumentClient.Transport
