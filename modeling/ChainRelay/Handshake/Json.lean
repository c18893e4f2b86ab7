import ChainRelay.Handshake.VersionData
import ChainRelay.Json.Shape

/-! The parameters of a version as JSON. No field may be missing. -/
namespace ChainRelay.VersionData
open Json (Value)

def ofJson (v : Value) : Option VersionData := do
  match ← v.members ["network_magic", "initiator_only", "peer_sharing", "query"] with
  | [some magic, some initiator, some sharing, some query] =>
    return ⟨← magic.asUInt64, ← initiator.asBool, ← sharing.asUInt8, ← query.asBool⟩
  | _ => none

def toJson (d : VersionData) : Value :=
  .record [("network_magic", .nat d.networkMagic.toNat), ("initiator_only", .bool d.initiatorOnly),
    ("peer_sharing", .nat d.peerSharing.toNat), ("query", .bool d.query)]

end ChainRelay.VersionData
