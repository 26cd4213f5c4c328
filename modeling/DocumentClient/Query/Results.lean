import DocumentClient.Connection

/-!
# Running queries

A query is compiled, sent in one exchange, and its answer decoded.
-/

set_option autoImplicit false

namespace DocumentClient.Query

def results {α : Type} (settings : Settings) (state : State) (decoder : Json.Decoder α) :
    Operation α := do
  let compiled ← .ofExcept state.compile
  Operation.noting (.runningQuery compiled)
  let response ← settings.get compiled.text
  let response ← .ofExcept (response.expectStatus 200 "failed to get results")
  .ofExcept (response.decode decoder)

end DocumentClient.Query
