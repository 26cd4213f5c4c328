import DocumentClient.Northwind.Offline

/-!
# The command line

Takes the tour with settings from the environment. This program has no network of its own, so the
tour ends at its first exchange.
-/

set_option autoImplicit false

def main : IO UInt32 := do
  let host ← IO.getEnv DocumentClient.Settings.hostVariable
  let database ← IO.getEnv DocumentClient.Settings.databaseVariable
  let outcome := DocumentClient.Northwind.runOffline fun name =>
    if name = DocumentClient.Settings.hostVariable then host
    else if name = DocumentClient.Settings.databaseVariable then database
    else none
  for line in outcome.events.filterMap DocumentClient.Event.line? do
    IO.println line
  match outcome.result with
  | .ok () => return 0
  | .error error =>
    IO.eprintln error.message
    return 1
