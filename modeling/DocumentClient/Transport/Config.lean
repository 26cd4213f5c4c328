import DocumentClient.Text.Pieces

/-!
# Transport configuration

The limits of an exchange and of the pool of idle connections, and the text that shows them.
-/

set_option autoImplicit false

namespace DocumentClient.Transport

/-- Times are in milliseconds. -/
structure Config where
  /-- From the start of an exchange. -/
  timeout : Nat := 30000
  /-- For reaching the server. -/
  connectTimeout : Nat := 10000
  /-- Idle connections kept for each host. -/
  poolIdlePerHost : Nat := 32
  /-- For an idle connection. -/
  poolIdleTimeout : Nat := 90000
deriving Repr, DecidableEq

inductive Config.Change where
  | timeout (milliseconds : Nat)
  | connectTimeout (milliseconds : Nat)
  | poolIdleTimeout (milliseconds : Nat)
  | poolIdlePerHost (count : Nat)
deriving Repr, DecidableEq

def Config.apply (config : Config) : Config.Change → Config
  | .timeout milliseconds => { config with timeout := milliseconds }
  | .connectTimeout milliseconds => { config with connectTimeout := milliseconds }
  | .poolIdleTimeout milliseconds => { config with poolIdleTimeout := milliseconds }
  | .poolIdlePerHost count => { config with poolIdlePerHost := count }

/-- A fraction of a thousand as decimal places, without zeros at the end. -/
def placesText (thousandths : Nat) : String :=
  let digits := (Nat.toDigits 10 (1000 + thousandths)).drop 1
  String.ofList ((digits.reverse.dropWhile (· == '0')).reverse)

/-- A time: seconds from one second on, milliseconds below. -/
def durationText (milliseconds : Nat) : String :=
  if milliseconds = 0 then "0ns"
  else if milliseconds < 1000 then s!"{milliseconds}ms"
  else if milliseconds % 1000 = 0 then s!"{milliseconds / 1000}s"
  else s!"{milliseconds / 1000}.{placesText (milliseconds % 1000)}s"

def recordText (name : String) (fields : List String) : String :=
  name ++ " \x7b " ++ Text.join ", " fields ++ " \x7d"

def Config.text (config : Config) : String :=
  recordText "TransportConfig"
    [s!"timeout: {durationText config.timeout}",
      s!"connect_timeout: {durationText config.connectTimeout}",
      s!"pool_idle_per_host: {config.poolIdlePerHost}",
      s!"pool_idle_timeout: {durationText config.poolIdleTimeout}"]

/-- The text that shows a transport; its layers are not shown. -/
def transportText (config : Config) : String :=
  recordText "HttpTransport" [s!"config: {config.text}", ".."]

def builderText (config : Config) (layerCount : Nat) : String :=
  recordText "HttpTransportBuilder"
    ["config: " ++ recordText "TransportConfigBuilder" [s!"config: {config.text}"],
      s!"layers_count: {layerCount}"]

end DocumentClient.Transport
