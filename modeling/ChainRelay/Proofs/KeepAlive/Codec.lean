import ChainRelay.KeepAlive.Message
import ChainRelay.Proofs.Protocol.Codec

/-! Keep-alive messages on the wire. -/
namespace ChainRelay.KeepAlive
open Cbor (Value bind_eq_ok)

namespace Message

theorem plain_toCbor (d : Nat) (m : Message) : m.toCbor.Plain (d + 1) := by
  cases m <;> simp [toCbor, Value.Plain, UInt64.size]

theorem cookieOfCbor_toUInt64 (cookie : UInt32) :
    cookieOfCbor (.unsigned cookie.toUInt64) = .ok cookie := by
  have small : cookie.toUInt64 < 0x100000000 := by
    rw [UInt64.lt_iff_toNat_lt, UInt32.toNat_toUInt64]
    exact cookie.toNat_lt
  change (if cookie.toUInt64 < 0x100000000 then Except.ok cookie.toUInt64.toUInt32 else _) = _
  rw [if_pos small, UInt32.toUInt32_toUInt64]

theorem ofCbor_toCbor (m : Message) : ofCbor m.toCbor = .ok m := by
  cases m with
  | ping cookie =>
    change (do return ping (← cookieOfCbor (.unsigned cookie.toUInt64))) = _
    rw [cookieOfCbor_toUInt64]
    rfl
  | response cookie =>
    change (do return response (← cookieOfCbor (.unsigned cookie.toUInt64))) = _
    rw [cookieOfCbor_toUInt64]
    rfl
  | done => rfl

theorem toCbor_of_cookieOfCbor {v : Value} {cookie : UInt32} (read : cookieOfCbor v = .ok cookie) :
    .unsigned cookie.toUInt64 = v := by
  obtain ⟨n, number, bounded⟩ := bind_eq_ok.mp read
  rw [Value.asUnsigned_eq_ok.mp number]
  split at bounded
  · rename_i small
    cases bounded
    rw [UInt64.lt_iff_toNat_lt] at small
    congr 1
    apply UInt64.toNat_inj.mp
    rw [UInt32.toNat_toUInt64, UInt64.toNat_toUInt32]
    exact Nat.mod_eq_of_lt small
  · cases bounded

theorem toCbor_of_ofCbor {v : Value} {m : Message} (read : ofCbor v = .ok m) : m.toCbor = v := by
  obtain ⟨⟨tag, fields⟩, found, shape⟩ := bind_eq_ok.mp read
  rw [Value.splitMessage_eq_ok.mp found]
  split at shape <;> rename_i same <;> cases same
  case h_2 | h_4 | h_6 | h_7 => cases shape
  case h_1 | h_3 =>
    obtain ⟨cookie, number, whole⟩ := bind_eq_ok.mp shape
    cases whole
    rw [toCbor, toCbor_of_cookieOfCbor number]
  case h_5 =>
    cases shape
    rfl

theorem sorted_toCbor (m : Message) : m.toCbor.sorted = m.toCbor := by
  cases m <;> rfl

end Message

theorem conveys : protocol.Conveys (fun _ => True) id where
  fits _ := trivial
  delivered {m} _ := by
    have read : Message.ofCbor m.toCbor.sorted = .ok m := by
      rw [m.sorted_toCbor, m.ofCbor_toCbor]
    exact Protocol.decode_encode (p := protocol) (m.plain_toCbor 255) read
  moved _ _ := rfl

end ChainRelay.KeepAlive
