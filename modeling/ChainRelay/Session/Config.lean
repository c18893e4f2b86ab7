import ChainRelay.Json.Shape
import ChainRelay.Wire.Demuxer

/-! How a session keeps its connection. Times are in milliseconds. -/
namespace ChainRelay
open Json (Value)

structure SessionConfig where
  autoReconnect : Bool
  retryDelay : UInt64
  /-- attempts after the first failed one; without a number they never end -/
  maxRetries : Option UInt32
  connectTimeout : UInt64
  handshakeTimeout : UInt64
  maxMessageLen : UInt64
  logConnectionEvents : Bool
  deriving DecidableEq, Repr

namespace SessionConfig

def standard : SessionConfig :=
  ⟨true, 5000, none, 10000, 10000, UInt64.ofNat Demuxer.defaultLimit, true⟩

instance : Inhabited SessionConfig := ⟨standard⟩

def probe : SessionConfig :=
  { standard with autoReconnect := false, retryDelay := 1000, maxRetries := some 2 }

def fieldNames : List String :=
  ["auto_reconnect", "retry_delay", "max_retries", "connect_timeout", "handshake_timeout",
    "max_message_len", "log_connection_events"]

/-- Missing fields have their standard values. -/
def ofJson (v : Value) : Option SessionConfig := do
  match ← v.members fieldNames with
  | [reconnect, delay, retries, connect, handshake, len, log] =>
    return {
      autoReconnect := ← Value.member Value.asBool standard.autoReconnect reconnect
      retryDelay := ← Value.member Value.asUInt64 standard.retryDelay delay
      maxRetries := ← Value.member (Value.asOption Value.asUInt32) standard.maxRetries retries
      connectTimeout := ← Value.member Value.asUInt64 standard.connectTimeout connect
      handshakeTimeout := ← Value.member Value.asUInt64 standard.handshakeTimeout handshake
      maxMessageLen := ← Value.member Value.asUInt64 standard.maxMessageLen len
      logConnectionEvents := ← Value.member Value.asBool standard.logConnectionEvents log }
  | _ => none

def toJson (c : SessionConfig) : Value :=
  .record [("auto_reconnect", .bool c.autoReconnect), ("retry_delay", .nat c.retryDelay.toNat),
    ("max_retries", .option (fun n => .nat n.toNat) c.maxRetries),
    ("connect_timeout", .nat c.connectTimeout.toNat),
    ("handshake_timeout", .nat c.handshakeTimeout.toNat),
    ("max_message_len", .nat c.maxMessageLen.toNat),
    ("log_connection_events", .bool c.logConnectionEvents)]

end SessionConfig
end ChainRelay
