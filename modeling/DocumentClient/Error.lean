import DocumentClient.Form
import DocumentClient.Json.Decoder
import DocumentClient.Misuse
import DocumentClient.Url.Basic

/-!
# Errors

The ways in which an operation fails, by cause. Usage errors and configuration errors are found
before anything is sent; all others tell what became of a request.
-/

set_option autoImplicit false

namespace DocumentClient

inductive SettingsFault where
  | unreadableHost (host : String) (fault : Url.Fault)
  | schemeOfHost (host : String)
  | unset (variableName : String)
  | custom (text : String)
deriving Repr, DecidableEq

def SettingsFault.message : SettingsFault → String
  | .unreadableHost host fault => s!"invalid host '{host}': {fault.message}"
  | .schemeOfHost host => s!"invalid host '{host}': expected an http or https URL"
  | .unset variableName => s!"{variableName} is not set"
  | .custom text => text

inductive ConnectionFault where
  | dial
  | noAuthority
  | noAnswer
  | bodyCutShort
  | custom (text : String)
deriving Repr, DecidableEq

def ConnectionFault.message : ConnectionFault → String
  | .dial => "client error (Connect)"
  | .noAuthority => "client error (UserAbsoluteUriRequired)"
  | .noAnswer => "client error (SendRequest)"
  | .bodyCutShort => "error reading a body from connection"
  | .custom text => text

inductive RequestFault where
  | targetEmpty
  | targetFormat
  | targetCharacter
  | targetAuthority
  | targetTooLong
  | schemeTooLong
  | headerName
  | headerValue
  | headersFull
  | custom (text : String)
deriving Repr, DecidableEq

def RequestFault.message : RequestFault → String
  | .targetEmpty => "empty string"
  | .targetFormat => "invalid format"
  | .targetCharacter => "invalid uri character"
  | .targetAuthority => "invalid authority"
  | .targetTooLong => "uri too long"
  | .schemeTooLong => "scheme too long"
  | .headerName => "invalid HTTP header name"
  | .headerValue => "failed to parse header value"
  | .headersFull => "max size reached"
  | .custom text => text

inductive JsonFault where
  | writing (fault : Json.WriteFault)
  | reading (fault : Json.Fault)
deriving Repr, DecidableEq

def JsonFault.message : JsonFault → String
  | .writing fault => fault.message
  | .reading fault => fault.message

inductive StatusFault where
  | unexpected (action : String)
  | custom (text : String)
deriving Repr, DecidableEq

def StatusFault.message (status : Nat) : StatusFault → String
  | .unexpected action => s!"{action}: server returned an unexpected response {status}"
  | .custom text => text

/-- What is wrong with a body, and the path to it inside the body. -/
inductive BodyFault where
  | undecodable (fault : Json.Fault)
  | custom (path text : String)
deriving Repr, DecidableEq

def BodyFault.path : BodyFault → String
  | .undecodable fault => Json.pathText fault.path
  | .custom path _ => path

def BodyFault.message : BodyFault → String
  | .undecodable fault => fault.message
  | .custom _ text => text

/-- Why an operation failed. -/
inductive Error where
  | validation (misuse : Misuse)
  | configuration (fault : SettingsFault)
  | http (status : Nat) (fault : StatusFault) (body : Option Bytes)
  | alreadyExists (name : String)
  | connection (fault : ConnectionFault)
  | tls (text : String)
  | timeout
  | invalidRequest (fault : RequestFault)
  | json (fault : JsonFault)
  | decoding (fault : BodyFault)
  | form (fault : Form.Fault)
  | invalidUrl (fault : Url.Fault)
deriving Repr, DecidableEq

namespace Error

def message : Error → String
  | .validation misuse => "invalid usage: " ++ misuse.message
  | .configuration fault => "configuration error: " ++ fault.message
  | .http status fault _ => s!"HTTP error {status}: {fault.message status}"
  | .alreadyExists name => s!"'{name}' already exists"
  | .connection fault => "connection error: " ++ fault.message
  | .tls text => "TLS error: " ++ text
  | .timeout => "request timeout"
  | .invalidRequest fault => "invalid request: " ++ fault.message
  | .json fault => "JSON serialization error: " ++ fault.message
  | .decoding fault => s!"JSON deserialization error at '{fault.path}': {fault.message}"
  | .form fault => "query serialization error: " ++ fault.message
  | .invalidUrl fault => "invalid URL: " ++ fault.message

/-- Whether the caller is at fault, before anything was sent. -/
def isUsage : Error → Bool
  | .validation _ | .configuration _ => true
  | _ => false

def isTimeout : Error → Bool
  | .timeout => true
  | _ => false

def isConnection : Error → Bool
  | .connection _ => true
  | _ => false

def isAlreadyExists : Error → Bool
  | .alreadyExists _ => true
  | _ => false

def status? : Error → Option Nat
  | .http status _ _ => some status
  | _ => none

def isNotFound (error : Error) : Bool :=
  error.status? == some 404

def body? : Error → Option Bytes
  | .http _ _ body => body
  | _ => none

/-- The text of the fault that the error stands for, where it has one of its own. -/
def source? : Error → Option String
  | .json fault => some fault.message
  | .form fault => some fault.message
  | .invalidUrl fault => some fault.message
  | _ => none

end Error

end DocumentClient
