import DocumentClient.Northwind
import DocumentClient.Transport.Exchange
import DocumentClient.Transport.Layer

/-!
# The tour without a network

The tour behind a logging layer, where nobody can be reached. It ends at its first exchange at the
latest.
-/

set_option autoImplicit false

namespace DocumentClient.Northwind

/-- The whole program, each exchange logged. -/
def logged (arrange : TextMap.Arrangement) (lookup : String → Option String) : Operation Unit :=
  (program arrange lookup).through
    (Transport.layered [Transport.Layer.logging .info] Operation.exchange)

def runOffline (lookup : String → Option String) : Operation.Run Unit Unit :=
  (logged .stored lookup).run (fun state request => (Transport.offlineReply request, state)) ()

end DocumentClient.Northwind
