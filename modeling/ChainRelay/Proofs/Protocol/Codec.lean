import ChainRelay.Proofs.Cbor.Canonical
import ChainRelay.Proofs.Cbor.Shape
import ChainRelay.Protocol.Basic

/-! Messages on the wire. A message is written, read back as the far end has it, and
moves both ends alike. -/
namespace ChainRelay.Protocol

variable {State Message : Type}

theorem decode_encode {p : Protocol State Message} {m n : Message}
    (plain : (p.toCbor m).Plain Cbor.maxDepth) (read : p.ofCbor (p.toCbor m).sorted = .ok n) :
    ∃ b, p.encode m = .ok b ∧ p.decode b = .ok n := by
  refine ⟨(p.toCbor m).write, Cbor.encode_eq_write plain, ?_⟩
  rw [decode, Cbor.decode_write plain]
  exact read

/-- Messages that fit arrive as `carried` has them. -/
structure Conveys (p : Protocol State Message) (Fits : Message → Prop)
    (carried : Message → Message) : Prop where
  fits : ∀ {m}, Fits m → Fits (carried m)
  delivered : ∀ {m}, Fits m → ∃ b, p.encode m = .ok b ∧ p.decode b = .ok (carried m)
  moved : ∀ s m, p.move s (carried m) = p.move s m

end ChainRelay.Protocol
