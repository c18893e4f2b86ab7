import ChainRelay.Handshake.Negotiation
import ChainRelay.Protocol.Basic
import ChainRelay.Text.Duration

/-! Why a session has no connection. -/
namespace ChainRelay

inductive SessionError where
  | alreadyStarted
  | connectFailed (attempts : Nat) (lastError : String)
  | connectTimeout (limit : UInt64)
  /-- the peer refused; an attempt that ends so is not repeated -/
  | handshake (reason : RefuseReason)
  | handshakeTimeout (limit : UInt64)
  /-- the peer took the proposal for a query -/
  | queried (versions : List UInt64)
  | closedDuringHandshake
  | shutdown
  | io (detail : String)
  | agent (error : AgentError)
  deriving DecidableEq, Repr

namespace SessionError

def message : SessionError → String
  | alreadyStarted => "session already started"
  | connectFailed attempts lastError => s!"failed to connect after {attempts} attempts: {lastError}"
  | connectTimeout limit => s!"connect timed out after {Text.duration limit.toNat}"
  | handshake reason => s!"handshake refused: {reason.display}"
  | handshakeTimeout limit => s!"handshake timed out after {Text.duration limit.toNat}"
  | queried versions => s!"peer answered a version query with {RefuseReason.displayList versions}"
  | closedDuringHandshake => "connection closed during handshake"
  | shutdown => "session shut down"
  | io detail => s!"io error: {detail}"
  | agent e => s!"agent error: {e.message}"

def kind : SessionError → String
  | alreadyStarted => "AlreadyStarted"
  | connectFailed _ _ => "ConnectFailed"
  | connectTimeout _ => "ConnectTimeout"
  | handshake _ => "Handshake"
  | handshakeTimeout _ => "HandshakeTimeout"
  | queried _ => "Queried"
  | closedDuringHandshake => "ClosedDuringHandshake"
  | shutdown => "Shutdown"
  | io _ => "Io"
  | agent _ => "Agent"

end SessionError
end ChainRelay
