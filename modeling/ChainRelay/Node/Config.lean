import ChainRelay.Handshake.Negotiation
import ChainRelay.Node.Endpoint
import ChainRelay.Session.Config

/-! What a client node is to do: where the peer is, on which network, in which of
the two families of protocols, and how the session is kept. -/
namespace ChainRelay
open Json (Value)

structure NodeConfig where
  networkMagic : UInt64
  endpoint : Endpoint
  nodeToClient : Bool
  pingInterval : Option UInt64
  session : SessionConfig
  deriving DecidableEq, Repr

namespace NodeConfig

def mainnetMagic : UInt64 := 764824073

def standard : NodeConfig :=
  ⟨mainnetMagic, .tcp "127.0.0.1" 3001, false, some 30000, .standard⟩

instance : Inhabited NodeConfig := ⟨standard⟩

def new (endpoint : Endpoint) (networkMagic : UInt64) : NodeConfig :=
  { standard with endpoint, networkMagic }

def ofPath (path : String) (networkMagic : UInt64) : NodeConfig :=
  { new (.unix path) networkMagic with nodeToClient := true, pingInterval := none }

def versions (c : NodeConfig) : VersionTable :=
  if c.nodeToClient then .nodeToClient c.networkMagic else .nodeToNode c.networkMagic

def pingPeriod (c : NodeConfig) : Option UInt64 := c.pingInterval.filter (0 < ·)

def ofJson (v : Value) : Option NodeConfig := do
  let names := ["network_magic", "endpoint", "node_to_client", "keep_alive_interval_ms", "session"]
  match ← v.members names with
  | [magic, endpoint, client, interval, session] =>
    return {
      networkMagic := ← Value.member Value.asUInt64 standard.networkMagic magic
      endpoint := ← Value.member (Endpoint.ofJson 1) standard.endpoint endpoint
      nodeToClient := ← Value.member Value.asBool standard.nodeToClient client
      pingInterval := ← Value.member (Value.asOption Value.asUInt64) standard.pingInterval interval
      session := ← Value.member SessionConfig.ofJson standard.session session }
  | _ => none

def toJson (c : NodeConfig) : Value :=
  .record [("network_magic", .nat c.networkMagic.toNat), ("endpoint", c.endpoint.toJson),
    ("node_to_client", .bool c.nodeToClient),
    ("keep_alive_interval_ms", .option (fun n => .nat n.toNat) c.pingInterval),
    ("session", c.session.toJson)]

end NodeConfig
end ChainRelay
