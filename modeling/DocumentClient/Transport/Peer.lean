import DocumentClient.Transport.Timeline
import DocumentClient.Wire.Target

/-!
# Peers

Who may be met at the other end of a connection, and what happens then. No peer here speaks an
encrypted protocol, so a handshake fails with any that does not stay silent.
-/

set_option autoImplicit false

namespace DocumentClient.Transport

inductive Peer where
  /-- Nobody listens. -/
  | absent
  /-- Takes what is sent and never answers. -/
  | silent
  /-- Takes what is sent and closes. -/
  | closing
  /-- Takes what is sent, sends some bytes and closes. -/
  | sending (bytes : Bytes)
deriving Repr, DecidableEq

namespace Peer

def plainTimeline : Peer → Timeline
  | .absent => .broken .dial 0
  | .silent => .silent
  | .closing => .broken .noAnswer 0
  | .sending bytes => .ofBytes bytes 0

/-- What happens where a handshake comes first, if one that fails is taken for a dial that fails. -/
def handshakeTimeline : Peer → Timeline
  | .silent => .silent
  | _ => .broken .dial 0

/-- What happens when a scheme is spoken with a peer. Only two schemes are spoken at all. -/
def timeline (scheme : Option String) (peer : Peer) : Timeline :=
  match scheme with
  | some "http" => peer.plainTimeline
  | some "https" => peer.handshakeTimeline
  | _ => .broken .dial 0

/-- Where nobody listens, dialling fails at once, whatever is to be spoken. -/
theorem timeline_absent (scheme : Option String) :
    Peer.absent.timeline scheme = .broken .dial 0 := by
  unfold timeline
  split <;> rfl

end Peer

end DocumentClient.Transport
