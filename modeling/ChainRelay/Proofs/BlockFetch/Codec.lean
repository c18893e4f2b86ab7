import ChainRelay.BlockFetch.Message
import ChainRelay.Proofs.Chain.Codec
import ChainRelay.Proofs.Protocol.Codec

/-! Block-fetch messages on the wire. -/
namespace ChainRelay.BlockFetch
open Cbor (Value bind_eq_ok)

namespace Message

/-- The message as the far end reads it. -/
def carried : Message → Message
  | requestRange r => requestRange ⟨r.first.carried, r.last.carried⟩
  | m => m

def Fits : Message → Prop
  | block body => body.length < UInt64.size
  | _ => True

theorem plain_toCbor {m : Message} (d : Nat) (fits : m.Fits) : m.toCbor.Plain (d + 2) := by
  have two : 2 < UInt64.size := by decide
  cases m with
  | requestRange r =>
    simp [toCbor, Value.Plain, r.first.plain_toCbor, r.last.plain_toCbor, UInt64.size]
  | block body => simpa [toCbor, Value.Plain, two] using Value.plain_embed fits
  | clientDone | startBatch | noBlocks | batchDone => simp [toCbor, Value.Plain, UInt64.size]

theorem sorted_toCbor (m : Message) : m.toCbor.sorted = m.toCbor := by
  cases m with
  | requestRange r => simp [toCbor, Value.sorted, Value.sortedAll, Point.sorted_toCbor]
  | _ => rfl

theorem ofCbor_toCbor (m : Message) : ofCbor m.toCbor = .ok m.carried := by
  cases m with
  | requestRange r =>
    change (do
      let last ← Point.ofCbor r.last.toCbor
      let first ← Point.ofCbor r.first.toCbor
      return requestRange ⟨first, last⟩ : Except Cbor.Error Message) = _
    rw [Point.ofCbor_toCbor, Point.ofCbor_toCbor]
    rfl
  | _ => rfl

def Whole : Message → Prop
  | requestRange r => r.first.Placed ∧ r.last.Placed
  | block body => body.length < UInt64.size
  | _ => True

theorem Whole.fits {m : Message} (whole : m.Whole) : m.Fits := by
  cases m with
  | block body => exact whole
  | _ => trivial

theorem Whole.carried_eq {m : Message} (whole : m.Whole) : m.carried = m := by
  cases m with
  | requestRange r => rw [carried, whole.1.carried_eq, whole.2.carried_eq]
  | _ => rfl

theorem bare_eq_ok {m n : Message} {fields : List Value} (read : bare m fields = .ok n) :
    n = m ∧ fields = [] := by
  obtain ⟨_, counted, same⟩ := bind_eq_ok.mp read
  cases same
  exact ⟨rfl, List.length_eq_zero_iff.mp (Value.expectFields_eq_ok.mp counted)⟩

theorem toCbor_of_ofCbor {v : Value} {m : Message} (read : ofCbor v = .ok m) : m.toCbor = v := by
  obtain ⟨⟨tag, fields⟩, found, shape⟩ := bind_eq_ok.mp read
  rw [Value.splitMessage_eq_ok.mp found]
  split at shape <;> rename_i same <;> cases same
  case h_2 | h_7 | h_9 => cases shape
  case h_3 | h_4 | h_5 | h_8 =>
    obtain ⟨rfl, rfl⟩ := bare_eq_ok shape
    rfl
  case h_1 =>
    obtain ⟨last, goal, rest⟩ := bind_eq_ok.mp shape
    obtain ⟨first, start, whole⟩ := bind_eq_ok.mp rest
    cases whole
    rw [toCbor, Point.toCbor_of_ofCbor start, Point.toCbor_of_ofCbor goal]
  case h_6 =>
    obtain ⟨body, embedded, whole⟩ := bind_eq_ok.mp shape
    cases whole
    rw [toCbor, Value.asEmbedded_eq_ok.mp embedded]

theorem fits_of_ofCbor {v : Value} {m : Message} (read : ofCbor v = .ok m)
    (short : v.weight < UInt64.size) : m.Fits := by
  have same := toCbor_of_ofCbor read
  subst same
  cases m with
  | block body =>
    have held := Value.length_le_weight_embed body
    have within : (Value.embed body).weight ≤ (block body).toCbor.weight :=
      Value.weight_le_of_mem (by simp)
    exact Nat.lt_of_le_of_lt (Nat.le_trans held within) short
  | _ => trivial

end Message

theorem conveys : protocol.Conveys Message.Fits Message.carried where
  fits {m} fits := by cases m <;> exact fits
  delivered {m} fits := by
    have read : Message.ofCbor m.toCbor.sorted = .ok m.carried := by
      rw [m.sorted_toCbor, m.ofCbor_toCbor]
    exact Protocol.decode_encode (p := protocol) (m.plain_toCbor 254 fits) read
  moved s m := by cases s <;> cases m <;> rfl

end ChainRelay.BlockFetch
