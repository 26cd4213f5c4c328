import DocumentClient.Transport.Config
import DocumentClient.Transport.Peer
import DocumentClient.Wire.Message

/-!
# Exchanges

One exchange over a network: the request is checked, put into bytes and handed over, and the reply
is what the timeline of the network leads to.
-/

set_option autoImplicit false

namespace DocumentClient.Transport

/-- What happens to the bytes that are sent to a target. -/
abbrev Network := Wire.Target → Bytes → Timeline

def Network.ofPeer (peer : Peer) : Network :=
  fun target _ => peer.timeline target.scheme

def Network.isolated : Network :=
  .ofPeer .absent

def message (request : Http.Request) : Except Error Wire.Message :=
  match Wire.Message.ofRequest request with
  | .error fault => .error (.invalidRequest fault)
  | .ok message =>
    if message.target.scheme.isNone then .error (.connection .noAuthority) else .ok message

def Network.timeline (network : Network) (message : Wire.Message) : Timeline :=
  network message.target message.bytes

theorem timeline_isolated (message : Wire.Message) :
    Network.isolated.timeline message = .broken .dial 0 :=
  Peer.timeline_absent _

def reply? (config : Config) (network : Network) (request : Http.Request) : Option Http.Reply :=
  match message request with
  | .error error => some (.error error)
  | .ok message => (network.timeline message).reply? config.timeout

def offlineReply (request : Http.Request) : Http.Reply :=
  match message request with
  | .error error => .error error
  | .ok _ => .error (.connection .dial)

/-- Being offline is being in an isolated network, whatever the limits are. -/
theorem reply?_isolated (config : Config) (request : Http.Request) :
    reply? config .isolated request = some (offlineReply request) := by
  unfold reply? offlineReply
  split
  · rfl
  · rw [timeline_isolated]
    simp [Timeline.reply?, classify, duringDial]

end DocumentClient.Transport
