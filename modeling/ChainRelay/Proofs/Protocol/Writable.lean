import ChainRelay.Proofs.ChainSync.Codec
import ChainRelay.Proofs.BlockFetch.Codec
import ChainRelay.Proofs.KeepAlive.Codec
import ChainRelay.Proofs.Handshake.Codec
import ChainRelay.Proofs.Handshake.Reply

/-! No message of a server holds a float, so each can be written, however long it is. -/
namespace ChainRelay
open Cbor (Value)

theorem Protocol.exists_encode {State Message : Type} (p : Protocol State Message) {m : Message}
    (whole : (p.toCbor m).hasFloat = false) : ∃ b, p.encode m = .ok b := by
  simp [encode, Cbor.encode, whole]

@[simp]
theorem Point.hasFloat_toCbor (p : Point) : p.toCbor.hasFloat = false :=
  (p.plain_toCbor 0).hasFloat

@[simp]
theorem Tip.hasFloat_toCbor (t : Tip) : t.toCbor.hasFloat = false :=
  (t.plain_toCbor 0).hasFloat

@[simp]
theorem HeaderContent.hasFloat_toCbor (h : HeaderContent) : h.toCbor.hasFloat = false := by
  cases h <;> simp [toCbor, byronToCbor, Value.embed, Value.hasFloat, Value.anyFloat]

theorem ChainSync.Message.hasFloat_toCbor (m : ChainSync.Message) : m.toCbor.hasFloat = false := by
  cases m <;> simp [toCbor, Value.hasFloat, Value.anyFloat, Value.anyFloat_eq_any]

theorem BlockFetch.Message.hasFloat_toCbor (m : BlockFetch.Message) :
    m.toCbor.hasFloat = false := by
  cases m <;> simp [toCbor, Value.embed, Value.hasFloat, Value.anyFloat]

theorem KeepAlive.Message.hasFloat_toCbor (m : KeepAlive.Message) : m.toCbor.hasFloat = false :=
  (m.plain_toCbor 0).hasFloat

@[simp]
theorem VersionData.hasFloat_toCbor (version : UInt64) (d : VersionData) :
    (d.toCbor version).hasFloat = false :=
  (d.plain_toCbor 0 version).hasFloat

@[simp]
theorem VersionTable.hasFloat_toCbor (t : VersionTable) : t.toCbor.hasFloat = false := by
  simp [toCbor, Value.hasFloat, Value.anyEntryFloat_eq_any]

@[simp]
theorem RefuseReason.hasFloat_toCbor (r : RefuseReason) : r.toCbor.hasFloat = false := by
  cases r <;> simp [toCbor, Value.hasFloat, Value.anyFloat, Value.anyFloat_eq_any]

theorem Handshake.Message.IsReply.hasFloat_toCbor {m : Handshake.Message} (reply : m.IsReply) :
    m.toCbor.hasFloat = false := by
  cases m with
  | proposeVersions proposed => cases reply
  | _ => simp [Handshake.Message.toCbor, Value.hasFloat, Value.anyFloat]

end ChainRelay
