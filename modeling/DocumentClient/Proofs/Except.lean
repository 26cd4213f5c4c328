/-!
# Results taken apart

What the success or the failure of a combined result tells about its parts.
-/

set_option autoImplicit false

namespace DocumentClient

variable {Failure Other Value Result : Type}

theorem ok_of_bind {source : Except Failure Value} {continuation : Value → Except Failure Result}
    {result : Result} (success : source >>= continuation = .ok result) :
    ∃ value, source = .ok value ∧ continuation value = .ok result := by
  cases source with
  | error failure => cases success
  | ok value => exact ⟨value, rfl, success⟩

theorem ok_of_map {source : Except Failure Value} {transform : Value → Result} {result : Result}
    (success : source.map transform = .ok result) :
    ∃ value, source = .ok value ∧ transform value = result := by
  cases source with
  | error failure => cases success
  | ok value => exact ⟨value, rfl, Except.ok.inj success⟩

theorem error_of_map {source : Except Failure Value} {transform : Value → Result}
    {failure : Failure} (failed : source.map transform = .error failure) :
    source = .error failure := by
  cases source with
  | error other =>
      cases failed
      rfl
  | ok value => cases failed

theorem error_of_mapError {source : Except Failure Value} {transform : Failure → Other}
    {other : Other} (failed : source.mapError transform = .error other) :
    ∃ failure, source = .error failure ∧ transform failure = other := by
  cases source with
  | error failure => exact ⟨failure, rfl, Except.error.inj failed⟩
  | ok value => cases failed

theorem ok_of_mapError {source : Except Failure Value} {transform : Failure → Other}
    {value : Value} (success : source.mapError transform = .ok value) : source = .ok value := by
  cases source with
  | error failure => cases success
  | ok other =>
      cases success
      rfl

end DocumentClient
