import ChainRelay.Json.Shape
import ChainRelay.Wire.Demuxer

/-! How a server treats those who connect. -/
namespace ChainRelay
open Json (Value)

structure ServerConfig where
  /-- connections beyond this many are closed as they come -/
  maxConnections : Option UInt64
  /-- what a peer has for the handshake, in milliseconds -/
  handshakeTimeout : UInt64
  maxMessageLen : UInt64
  deriving DecidableEq, Repr

namespace ServerConfig

def standard : ServerConfig := ⟨none, 10000, UInt64.ofNat Demuxer.defaultLimit⟩

instance : Inhabited ServerConfig := ⟨standard⟩

def ofJson (v : Value) : Option ServerConfig := do
  match ← v.members ["max_connections", "handshake_timeout_ms", "max_message_len"] with
  | [connections, handshake, len] =>
    return {
      maxConnections :=
        ← Value.member (Value.asOption Value.asUInt64) standard.maxConnections connections
      handshakeTimeout := ← Value.member Value.asUInt64 standard.handshakeTimeout handshake
      maxMessageLen := ← Value.member Value.asUInt64 standard.maxMessageLen len }
  | _ => none

def toJson (c : ServerConfig) : Value :=
  .record [("max_connections", .option (fun n => .nat n.toNat) c.maxConnections),
    ("handshake_timeout_ms", .nat c.handshakeTimeout.toNat),
    ("max_message_len", .nat c.maxMessageLen.toNat)]

end ServerConfig
end ChainRelay
