import DocumentClient.Proofs.Resolution
import DocumentClient.Transport.Exchange

/-!
# Deadlines

An exchange followed on the clock. The timeout bounds the wait for the head of an answer: by then
the exchange has ended, or its head is there. A body is waited for as long as it takes, so that an
exchange whose body is late ends late or never.
-/

set_option autoImplicit false

namespace DocumentClient.Transport

/-- How far an exchange has come. -/
inductive Phase where
  /-- There is no head yet. -/
  | waiting
  /-- There is a head, and its body is not complete. -/
  | collecting
  | ended (reply : Http.Reply)

namespace Timeline

variable {timeline : Timeline} {timeout now later : Nat} {reply : Http.Reply}

/-- When the wait for a head is over, if ever. -/
def headTime? : Timeline → Option Nat
  | .silent => none
  | .broken _ time | .answered _ _ time _ => some time

/-- What an exchange comes to that is given all the time in the world, and when. -/
def ending? : Timeline → Option (Http.Reply × Nat)
  | .silent | .answered _ _ _ .endless => none
  | .broken fault time => some (.error (classify fault), time)
  | .answered status headers time (.whole body last) =>
    some (.ok ⟨status, Wire.received headers, body⟩, max time last)
  | .answered _ _ time (.cutShort last) =>
    some (.error (.connection .bodyCutShort), max time last)

def HeadBy (timeline : Timeline) (now : Nat) : Prop :=
  ∃ time ∈ timeline.headTime?, time ≤ now

instance (timeline : Timeline) (now : Nat) : Decidable (timeline.HeadBy now) :=
  inferInstanceAs (Decidable (∃ time ∈ timeline.headTime?, time ≤ now))

/-- What has come of an exchange at a moment, as long as nobody loses patience. -/
def seen (timeline : Timeline) (now : Nat) : Phase :=
  if timeline.HeadBy now then
    match timeline.ending? with
    | some (reply, time) => if time ≤ now then .ended reply else .collecting
    | none => .collecting
  else .waiting

/-- One look at an exchange. What has come counts before the limit does, and the limit counts in the
wait for a head only. -/
def look (timeout now : Nat) (timeline : Timeline) : Phase → Phase
  | .ended reply => .ended reply
  | .collecting => timeline.seen now
  | .waiting =>
    if timeout ≤ now ∧ ¬ timeline.HeadBy now then .ended (.error .timeout) else timeline.seen now

/-- An exchange that is looked at again and again, from its start to a moment. -/
def phase (timeout : Nat) (timeline : Timeline) : Nat → Phase
  | 0 => timeline.look timeout 0 .waiting
  | now + 1 => timeline.look timeout (now + 1) (timeline.phase timeout now)

/-! ## What has come of an exchange -/

theorem HeadBy.mono (started : timeline.HeadBy now) (after : now ≤ later) :
    timeline.HeadBy later := by
  obtain ⟨time, found, early⟩ := started
  exact ⟨time, found, Nat.le_trans early after⟩

/-- No exchange ends before its wait for a head does. -/
theorem headBy_of_ending {time : Nat} (ending : timeline.ending? = some (reply, time)) :
    timeline.HeadBy time := by
  cases timeline with
  | silent => cases ending
  | broken fault moment =>
      cases ending
      exact ⟨time, rfl, Nat.le_refl time⟩
  | answered status headers moment body =>
      cases body with
      | whole body last | cutShort last =>
          cases ending
          exact ⟨moment, rfl, Nat.le_max_left moment last⟩
      | endless => cases ending

/-- No exchange comes to a timeout by itself. -/
theorem ending_ne_timeout {time : Nat} : timeline.ending? ≠ some (.error .timeout, time) := by
  cases timeline with
  | silent => simp [ending?]
  | broken fault moment =>
      simp only [ending?, classify]
      split <;> simp
  | answered status headers moment body => cases body <;> simp [ending?]

private theorem seen_eq_waiting_iff : timeline.seen now = .waiting ↔ ¬ timeline.HeadBy now := by
  unfold seen
  split
  · rename_i started
    refine iff_of_false ?_ (not_not_intro started)
    split
    · split <;> nofun
    · nofun
  · rename_i early
    exact iff_of_true rfl early

private theorem headBy_of_seen (started : timeline.seen now ≠ .waiting) : timeline.HeadBy now :=
  Decidable.not_not.mp fun missing => started (seen_eq_waiting_iff.mpr missing)

private theorem seen_eq_ended_iff :
    timeline.seen now = .ended reply ↔ ∃ time ≤ now, timeline.ending? = some (reply, time) := by
  constructor
  · intro ended
    unfold seen at ended
    split at ended
    · split at ended
      · rename_i other time ending
        split at ended
        · rename_i past
          cases ended
          exact ⟨time, past, ending⟩
        · cases ended
      · cases ended
    · cases ended
  · rintro ⟨time, past, ending⟩
    rw [seen, if_pos ((headBy_of_ending ending).mono past), ending]
    exact if_pos past

/-! ## The run of an exchange -/

private theorem look_seen (timeout now : Nat) (timeline : Timeline) :
    timeline.look timeout (now + 1) (timeline.seen now) =
      if timeout ≤ now + 1 ∧ ¬ timeline.HeadBy (now + 1) then .ended (.error .timeout)
      else timeline.seen (now + 1) := by
  have next := Nat.le_succ now
  cases before : timeline.seen now with
  | waiting => rfl
  | collecting =>
      have started : timeline.HeadBy now := headBy_of_seen (by rw [before]; nofun)
      rw [look, if_neg fun overdue => overdue.2 (started.mono next)]
  | ended reply =>
      obtain ⟨time, past, ending⟩ := seen_eq_ended_iff.mp before
      have started := (headBy_of_ending ending).mono past
      rw [look, if_neg fun overdue => overdue.2 (started.mono next)]
      exact (seen_eq_ended_iff.mpr ⟨time, Nat.le_trans past next, ending⟩).symm

/-- An exchange goes its own way unless the limit comes before its head. -/
theorem phase_eq (timeout : Nat) (timeline : Timeline) (now : Nat) :
    timeline.phase timeout now =
      if timeout ≤ now ∧ ¬ timeline.HeadBy timeout then .ended (.error .timeout)
      else timeline.seen now := by
  induction now with
  | zero =>
      rw [phase, look]
      by_cases limit : timeout = 0
      · rw [limit]
      · have early : ¬ timeout ≤ 0 := fun reached => limit (Nat.le_zero.mp reached)
        rw [if_neg fun overdue => early overdue.1, if_neg fun overdue => early overdue.1]
  | succ now ih =>
      rw [phase, ih]
      by_cases expired : timeout ≤ now ∧ ¬ timeline.HeadBy timeout
      · rw [if_pos expired, if_pos ⟨Nat.le_succ_of_le expired.1, expired.2⟩, look]
      · rw [if_neg expired, look_seen]
        -- Past the limit there is a head, which leaves the moment of the limit itself.
        have same : (timeout ≤ now + 1 ∧ ¬ timeline.HeadBy (now + 1)) ↔
            timeout ≤ now + 1 ∧ ¬ timeline.HeadBy timeout := by
          refine and_congr_right fun reached => not_congr ⟨fun started => ?_, fun started => ?_⟩
          · rcases Nat.le_succ_iff.mp reached with before | here
            · exact Decidable.not_not.mp fun missing => expired ⟨before, missing⟩
            · exact here ▸ started
          · exact started.mono reached
        simp only [same]

private theorem reply?_eq (timeout : Nat) (timeline : Timeline) :
    timeline.reply? timeout =
      if timeline.HeadBy timeout then timeline.ending?.map (·.1) else some (.error .timeout) := by
  cases timeline with
  | silent => rfl
  | broken fault time =>
      simp only [reply?, HeadBy, headTime?, Option.mem_def, Option.some.injEq, exists_eq_left']
      split <;> rfl
  | answered status headers time body =>
      simp only [reply?, HeadBy, headTime?, Option.mem_def, Option.some.injEq, exists_eq_left',
        ← Nat.not_lt]
      by_cases early : timeout < time
      · rw [if_pos early, if_neg (not_not_intro early)]
      · rw [if_neg early, if_pos early]
        cases body <;> rfl

/-- The reply to an exchange is what its run ends with. -/
theorem reply?_eq_some_iff :
    timeline.reply? timeout = some reply ↔ ∃ now, timeline.phase timeout now = .ended reply := by
  rw [reply?_eq]
  by_cases started : timeline.HeadBy timeout
  · simp only [phase_eq, started, not_true, and_false, if_false, if_true, seen_eq_ended_iff]
    constructor
    · intro found
      obtain ⟨⟨_, time⟩, ending, rfl⟩ := Option.map_eq_some_iff.mp found
      exact ⟨time, time, Nat.le_refl time, ending⟩
    · rintro ⟨now, time, past, ending⟩
      rw [ending]
      rfl
  · rw [if_neg started, Option.some_inj]
    constructor
    · rintro rfl
      exact ⟨timeout, by rw [phase_eq, if_pos ⟨Nat.le_refl timeout, started⟩]⟩
    · rintro ⟨now, ended⟩
      rw [phase_eq] at ended
      split at ended
      · exact Phase.ended.inj ended
      · rename_i inTime
        obtain ⟨time, past, ending⟩ := seen_eq_ended_iff.mp ended
        have early : now < timeout := Nat.lt_of_not_le fun reached => inTime ⟨reached, started⟩
        exact absurd ((headBy_of_ending ending).mono (Nat.le_trans past (Nat.le_of_lt early))) started

/-- What it takes for a timeout to bound a whole exchange: what has not ended by then comes to a
timeout, what is handed over was complete by then, and there is a reply in any case. -/
structure Bounded (timeout : Nat) (timeline : Timeline) : Prop where
  overdue : (∀ reply, timeline.seen timeout ≠ .ended reply) →
    timeline.reply? timeout = some (.error .timeout)
  timely : ∀ response, timeline.reply? timeout = some (.ok response) →
    timeline.seen timeout = .ended (.ok response)
  returns : timeline.reply? timeout ≠ none

private theorem bounded_iff : Bounded timeout timeline ↔ timeline.seen timeout ≠ .collecting := by
  constructor
  · intro bounded unfinished
    have pending (reply : Http.Reply) : timeline.seen timeout ≠ .ended reply := by
      rw [unfinished]
      nofun
    have started : timeline.HeadBy timeout := headBy_of_seen (by rw [unfinished]; nofun)
    have failed := bounded.overdue pending
    rw [reply?_eq, if_pos started] at failed
    obtain ⟨⟨_, time⟩, ending, rfl⟩ := Option.map_eq_some_iff.mp failed
    exact ending_ne_timeout ending
  · intro settled
    cases moment : timeline.seen timeout with
    | collecting => exact absurd moment settled
    | waiting =>
        have failed : timeline.reply? timeout = some (.error .timeout) := by
          rw [reply?_eq, if_neg (seen_eq_waiting_iff.mp moment)]
        constructor
        · exact fun _ => failed
        · intro response delivered
          cases failed.symm.trans delivered
        · rw [failed]
          nofun
    | ended reply =>
        obtain ⟨time, past, ending⟩ := seen_eq_ended_iff.mp moment
        have replied : timeline.reply? timeout = some reply := by
          rw [reply?_eq, if_pos ((headBy_of_ending ending).mono past), ending]
          rfl
        constructor
        · exact fun pending => absurd moment (pending reply)
        · intro response delivered
          cases replied.symm.trans delivered
          exact moment
        · rw [replied]
          nofun

end Timeline

/-- A request that is refused is not waited for. Any other is answered as its exchange ends on the
clock: with a timeout at the limit if no head has come by then, and otherwise as if there were no
limit. So the limit bounds a whole exchange exactly if it does not find it with a head and without
its whole body. -/
theorem head_is_bounded (config : Config) (network : Network) (request : Http.Request) :
    (∀ error, message request = .error error →
      reply? config network request = some (.error error)) ∧
    ∀ sent, message request = .ok sent →
      let timeline := network.timeline sent
      let run := timeline.phase config.timeout
      (∀ reply, reply? config network request = some reply ↔ ∃ now, run now = .ended reply) ∧
      (timeline.seen config.timeout = .waiting → run config.timeout = .ended (.error .timeout)) ∧
      (timeline.seen config.timeout ≠ .waiting → ∀ now, run now = timeline.seen now) ∧
      (timeline.Bounded config.timeout ↔ timeline.seen config.timeout ≠ .collecting) := by
  constructor
  · intro error refused
    rw [reply?, refused]
  · intro sent accepted
    refine ⟨fun reply => ?_, fun overdue => ?_, fun inTime now => ?_, Timeline.bounded_iff⟩
    · rw [reply?, accepted]
      exact Timeline.reply?_eq_some_iff
    · have missing := Timeline.seen_eq_waiting_iff.mp overdue
      exact (Timeline.phase_eq _ _ _).trans (if_pos ⟨Nat.le_refl _, missing⟩)
    · have started := Timeline.headBy_of_seen inTime
      exact (Timeline.phase_eq _ _ _).trans (if_neg fun late => late.2 started)

/-- A server that sends a head at once, and the body long behind the limit. -/
theorem late_body_is_handed_over :
    let url : Url := { Settings.localhost.host with path := .absolute ["static", "k"] }
    let timeline : Timeline := .answered 200 [] 10 (.whole [1, 2] 5000)
    reply? { timeout := 100 } (fun _ _ => timeline) { method := .get, url } =
      some (.ok { status := 200, body := [1, 2] }) := by
  intro url timeline
  let request : Http.Request := { method := .get, url }
  have sendable : (message request).toOption.isSome := by decide
  obtain ⟨_, runs⟩ := head_is_bounded { timeout := 100 } (fun _ _ => timeline) request
  cases made : message request with
  | error error => simp [made, Except.toOption] at sendable
  | ok sent =>
      obtain ⟨replies, _, unlimited, _⟩ := runs sent made
      have inTime : timeline.seen 100 ≠ .waiting := by
        rw [Ne, Timeline.seen_eq_waiting_iff]
        decide
      exact (replies _).mpr ⟨5000, unlimited inTime 5000⟩

/-- The limit does not bound what comes behind the head. -/
theorem timeout_does_not_bound_body :
    ¬ ∀ (config : Config) (network : Network) (request : Http.Request) (sent : Wire.Message),
      0 < config.timeout → message request = .ok sent →
        (network.timeline sent).Bounded config.timeout := by
  intro claim
  let url : Url := { Settings.localhost.host with path := .absolute ["static", "k"] }
  have sendable : (message { method := .get, url }).toOption.isSome := by decide
  cases made : message { method := .get, url } with
  | error error => simp [made, Except.toOption] at sendable
  | ok sent =>
      have bounded := claim { timeout := 100 } (fun _ _ => .answered 200 [] 10 .endless) _ sent
        (by decide) made
      exact bounded.returns rfl

end DocumentClient.Transport
