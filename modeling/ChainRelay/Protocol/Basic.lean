import ChainRelay.Cbor.Reader
import ChainRelay.Cbor.Writer
import ChainRelay.Wire.Segment

/-! A mini-protocol is a state machine of two parties: in every state one of them,
or nobody, may send, and each message moves the state or is not allowed there. -/
namespace ChainRelay

inductive Agency where
  | client
  | server
  | nobody
  deriving DecidableEq, Repr

inductive Role where
  | client
  | server
  deriving DecidableEq, Repr, Inhabited

namespace Role

def name : Role → String
  | client => "Client"
  | server => "Server"

def holds : Role → Agency → Bool
  | client, .client | server, .server => true
  | _, _ => false

def outbound : Role → Mode
  | client => .initiator
  | server => .responder

def inbound (r : Role) : Mode := r.outbound.opposite

end Role

def Agency.name : Agency → String
  | client => "Client"
  | server => "Server"
  | nobody => "Nobody"

structure Protocol (State Message : Type) where
  name : String
  initial : State
  agency : State → Agency
  move : State → Message → Option State
  stateName : State → String
  messageName : Message → String
  toCbor : Message → Cbor.Value
  ofCbor : Cbor.Value → Except Cbor.Error Message

namespace Protocol

variable {State Message : Type}

def encode (p : Protocol State Message) (m : Message) : Except Cbor.Error Bytes :=
  Cbor.encode (p.toCbor m)

def decode (p : Protocol State Message) (b : Bytes) : Except Cbor.Error Message := do
  p.ofCbor (← Cbor.decode b)

def moves (p : Protocol State Message) : State → List Message → Option State
  | s, [] => some s
  | s, m :: ms => (p.move s m).bind fun next => p.moves next ms

end Protocol

inductive Violation where
  | localAgency (protocol state message : String)
  | terminated (protocol message : String)
  | invalidTransition (protocol state message : String)
  deriving DecidableEq, Repr

def Violation.message : Violation → String
  | .localAgency protocol state message =>
    s!"{protocol}: received {message} while holding agency in state {state}"
  | .terminated protocol message => s!"{protocol}: received {message} after termination"
  | .invalidTransition protocol state message =>
    s!"{protocol}: {message} is not valid in state {state}"

def Violation.kind : Violation → String
  | .localAgency _ _ _ => "LocalAgency"
  | .terminated _ _ => "Terminated"
  | .invalidTransition _ _ _ => "InvalidTransition"

inductive AgentError where
  | listenersSealed
  | alreadyBound (protocol : String)
  | channelClosed
  | codec (error : Cbor.Error)
  | violation (violation : Violation)
  deriving DecidableEq, Repr

def AgentError.message : AgentError → String
  | .listenersSealed => "listener registry is sealed"
  | .alreadyBound protocol => s!"agent {protocol} is already bound to a connection"
  | .channelClosed => "channel closed"
  | .codec e => s!"codec error: {e.message}"
  | .violation v => s!"protocol violation: {v.message}"

def AgentError.kind : AgentError → String
  | .listenersSealed => "ListenersSealed"
  | .alreadyBound _ => "AlreadyBound"
  | .channelClosed => "ChannelClosed"
  | .codec _ => "Codec"
  | .violation _ => "Violation"

end ChainRelay
