import DocumentClient.Http.Response
import DocumentClient.Wire.Answer

/-!
# Timelines

What happens in an exchange and when, and the reply that it leads to. The timeout bounds the time
until the head of an answer has arrived; a body is waited for as long as it takes.
-/

set_option autoImplicit false

namespace DocumentClient.Transport

/-- What becomes of a body once its head is there. Times count from the start of the exchange. -/
inductive BodyTimeline where
  | whole (body : Bytes) (time : Nat)
  | cutShort (time : Nat)
  | endless
deriving Repr, DecidableEq

inductive Timeline where
  /-- The exchange breaks off before a head arrives. -/
  | broken (fault : ConnectionFault) (time : Nat)
  /-- A head arrives, and then perhaps a body. -/
  | answered (status : Nat) (headers : Wire.Headers) (time : Nat) (body : BodyTimeline)
  | silent
deriving Repr, DecidableEq

def occursIn (part : List Char) : List Char → Bool
  | [] => part.isEmpty
  | char :: rest => part.isPrefixOf (char :: rest) || occursIn part rest

def speaksOfTls (text : String) : Bool :=
  let lowered := (Text.lowerCase text).toList
  occursIn "tls".toList lowered || occursIn "certificate".toList lowered

/-- Whether an exchange broke off before its connection was there. -/
def duringDial (fault : ConnectionFault) : Bool :=
  match fault with
  | .dial => true
  | _ => false

/-- The error of an exchange that broke off. A handshake that fails is part of dialling. -/
def classify (fault : ConnectionFault) : Error :=
  if !duringDial fault && speaksOfTls fault.message then .tls fault.message
  else .connection fault

namespace Timeline

/-- The reply that a timeline leads to; none if it never comes. -/
def reply? (timeout : Nat) : Timeline → Option Http.Reply
  | .silent => some (.error .timeout)
  | .broken fault time =>
    some (.error (if time ≤ timeout then classify fault else .timeout))
  | .answered status headers time body =>
    if timeout < time then some (.error .timeout)
    else match body with
      | .whole body _ => some (.ok ⟨status, Wire.received headers, body⟩)
      | .cutShort _ => some (.error (.connection .bodyCutShort))
      | .endless => none

/-- What a server makes happen that sends some bytes at one time and closes. -/
def ofBytes (bytes : Bytes) (time : Nat) : Timeline :=
  match Wire.readHead? bytes with
  | none => .broken .noAnswer time
  | some (head, behind) =>
    match head.bodyEnd? with
    | none => .broken .noAnswer time
    | some bodyEnd =>
      .answered head.line.status head.headers time
        (match Wire.readBody? bodyEnd behind with
          | none => .cutShort time
          | some body => .whole body time)

end Timeline

end DocumentClient.Transport
