import ChainRelay.ChainSync.Message
import ChainRelay.Proofs.Chain.Codec
import ChainRelay.Proofs.Protocol.Codec

/-! Chain-sync messages on the wire. -/
namespace ChainRelay.ChainSync
open Cbor (Value bind_eq_ok)

namespace Message

/-- The message as the far end reads it. -/
def carried : Message → Message
  | rollForward header tip => rollForward header tip.carried
  | rollBackward point tip => rollBackward point.carried tip.carried
  | findIntersect points => findIntersect (points.map Point.carried)
  | intersectFound point tip => intersectFound point.carried tip.carried
  | intersectNotFound tip => intersectNotFound tip.carried
  | m => m

def Fits : Message → Prop
  | rollForward header _ => header.Fits
  | findIntersect points => points.length < UInt64.size
  | _ => True

theorem plain_toCbor {m : Message} (d : Nat) (fits : m.Fits) : m.toCbor.Plain (d + 4) := by
  cases m with
  | rollForward header tip =>
    simp [toCbor, Value.Plain, header.plain_toCbor d fits, tip.plain_toCbor, UInt64.size]
  | rollBackward point tip | intersectFound point tip =>
    simp [toCbor, Value.Plain, point.plain_toCbor, tip.plain_toCbor, UInt64.size]
  | intersectNotFound tip => simp [toCbor, Value.Plain, tip.plain_toCbor, UInt64.size]
  | findIntersect points =>
    have few : points.length < UInt64.size := fits
    have two : 2 < UInt64.size := by decide
    simp [toCbor, Value.Plain, Point.plain_toCbor, few, two]
  | requestNext | awaitReply | done => simp [toCbor, Value.Plain, UInt64.size]

theorem sorted_toCbor (m : Message) : m.toCbor.sorted = m.toCbor := by
  cases m <;> simp [toCbor, Value.sorted, Value.sortedAll, Point.sorted_toCbor, Tip.sorted_toCbor,
    HeaderContent.sorted_toCbor, Value.sortedAll_eq_map]

theorem ofCbor_toCbor {m : Message} (fits : m.Fits) : ofCbor m.toCbor = .ok m.carried := by
  cases m with
  | rollForward header tip =>
    change (do return rollForward (← HeaderContent.ofCbor header.toCbor) (← Tip.ofCbor tip.toCbor) :
      Except Cbor.Error Message) = _
    rw [HeaderContent.ofCbor_toCbor fits, Tip.ofCbor_toCbor]
    rfl
  | rollBackward point tip =>
    change (do return rollBackward (← Point.ofCbor point.toCbor) (← Tip.ofCbor tip.toCbor) :
      Except Cbor.Error Message) = _
    rw [Point.ofCbor_toCbor, Tip.ofCbor_toCbor]
    rfl
  | intersectFound point tip =>
    change (do return intersectFound (← Point.ofCbor point.toCbor) (← Tip.ofCbor tip.toCbor) :
      Except Cbor.Error Message) = _
    rw [Point.ofCbor_toCbor, Tip.ofCbor_toCbor]
    rfl
  | intersectNotFound tip =>
    change (do return intersectNotFound (← Tip.ofCbor tip.toCbor) :
      Except Cbor.Error Message) = _
    rw [Tip.ofCbor_toCbor]
    rfl
  | findIntersect points =>
    change (do return findIntersect (← (points.map Point.toCbor).mapM Point.ofCbor) :
      Except Cbor.Error Message) = _
    rw [List.mapM_map, Cbor.mapM_eq_ok fun p _ => p.ofCbor_toCbor]
    rfl
  | requestNext | awaitReply | done => rfl

def Whole : Message → Prop
  | rollForward header tip => header.Fits ∧ tip.point.Placed
  | rollBackward point tip | intersectFound point tip => point.Placed ∧ tip.point.Placed
  | findIntersect points => points.length < UInt64.size ∧ ∀ p ∈ points, p.Placed
  | intersectNotFound tip => tip.point.Placed
  | requestNext | awaitReply | done => True

theorem Whole.fits {m : Message} (whole : m.Whole) : m.Fits := by
  cases m with
  | rollForward header tip => exact whole.1
  | findIntersect points => exact whole.1
  | _ => trivial

theorem Whole.carried_eq {m : Message} (whole : m.Whole) : m.carried = m := by
  cases m with
  | rollForward header tip => rw [carried, Tip.carried_eq whole.2]
  | rollBackward point tip => rw [carried, whole.1.carried_eq, Tip.carried_eq whole.2]
  | intersectFound point tip => rw [carried, whole.1.carried_eq, Tip.carried_eq whole.2]
  | findIntersect points =>
    have each : points.map Point.carried = points :=
      (List.map_congr_left fun p member => (whole.2 p member).carried_eq).trans (List.map_id points)
    rw [carried, each]
  | intersectNotFound tip => rw [carried, Tip.carried_eq whole]
  | requestNext | awaitReply | done => rfl

theorem toCbor_of_ofCbor {v : Value} {m : Message} (read : ofCbor v = .ok m) : m.toCbor = v := by
  obtain ⟨⟨tag, fields⟩, found, shape⟩ := bind_eq_ok.mp read
  rw [Value.splitMessage_eq_ok.mp found]
  split at shape <;> rename_i same <;> cases same
  -- a known tag with other fields, or an unknown one
  case h_2 | h_4 | h_6 | h_8 | h_10 | h_12 | h_14 | h_16 | h_17 => cases shape
  case h_1 | h_3 | h_15 =>
    cases shape
    rfl
  case h_5 =>
    obtain ⟨header, content, rest⟩ := bind_eq_ok.mp shape
    obtain ⟨t, tip, whole⟩ := bind_eq_ok.mp rest
    cases whole
    rw [toCbor, HeaderContent.toCbor_of_ofCbor content, Tip.toCbor_of_ofCbor tip]
  case h_7 | h_11 =>
    obtain ⟨p, point, rest⟩ := bind_eq_ok.mp shape
    obtain ⟨t, tip, whole⟩ := bind_eq_ok.mp rest
    cases whole
    rw [toCbor, Point.toCbor_of_ofCbor point, Tip.toCbor_of_ofCbor tip]
  case h_9 =>
    obtain ⟨items, outer, rest⟩ := bind_eq_ok.mp shape
    obtain ⟨points, each, whole⟩ := bind_eq_ok.mp rest
    cases whole
    rw [toCbor, Value.asArray_eq_ok.mp outer,
      Cbor.map_eq_of_mapM_eq_ok (fun _ _ => Point.toCbor_of_ofCbor) each]
  case h_13 =>
    obtain ⟨t, tip, whole⟩ := bind_eq_ok.mp shape
    cases whole
    rw [toCbor, Tip.toCbor_of_ofCbor tip]

theorem fits_of_ofCbor {v : Value} {m : Message} (read : ofCbor v = .ok m)
    (short : v.weight < UInt64.size) : m.Fits := by
  have same := toCbor_of_ofCbor read
  subst same
  cases m with
  | rollForward header tip =>
    have parts : (do
        return rollForward (← HeaderContent.ofCbor header.toCbor) (← Tip.ofCbor tip.toCbor) :
        Except Cbor.Error Message) = .ok (rollForward header tip) := read
    obtain ⟨content, inner, rest⟩ := bind_eq_ok.mp parts
    obtain ⟨t, -, same⟩ := bind_eq_ok.mp rest
    cases same
    have within : header.toCbor.weight ≤ (rollForward header tip).toCbor.weight :=
      Value.weight_le_of_mem (by simp)
    exact HeaderContent.fits_of_ofCbor inner (Nat.lt_of_le_of_lt within short)
  | findIntersect points =>
    have counted := Value.length_le_weight_array (points.map Point.toCbor)
    have within : (Value.array (points.map Point.toCbor)).weight ≤
        (findIntersect points).toCbor.weight := Value.weight_le_of_mem (by simp)
    rw [List.length_map] at counted
    exact Nat.lt_of_le_of_lt (Nat.le_trans counted within) short
  | _ => trivial

end Message

theorem conveys : protocol.Conveys Message.Fits Message.carried where
  fits {m} fits := by
    cases m with
    | findIntersect points => simpa [Message.carried, Message.Fits] using fits
    | _ => exact fits
  delivered {m} fits := by
    have read : Message.ofCbor m.toCbor.sorted = .ok m.carried := by
      rw [m.sorted_toCbor, Message.ofCbor_toCbor fits]
    exact Protocol.decode_encode (p := protocol) (m.plain_toCbor 252 fits) read
  moved s m := by cases s <;> cases m <;> rfl

end ChainRelay.ChainSync
