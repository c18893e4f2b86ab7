import ChainRelay.Proofs.Wire.Segment
import Mathlib.Algebra.Order.Floor.Div
import Mathlib.Data.Nat.Bitwise

/-! Framing loses nothing. A head can be written in one way only, so a stream and the segments
read off it determine each other, and what no segment is read off is the front of one. -/
namespace ChainRelay

namespace Bytes

theorem eq_of_toNat_eq {a b : Bytes} (size : a.length = b.length) (same : toNat a = toNat b) :
    a = b := by
  induction a generalizing b with
  | nil => exact (List.eq_nil_of_length_eq_zero size.symm).symm
  | cons d a ih =>
    cases b with
    | nil => contradiction
    | cons e b =>
      have size' : a.length = b.length := Nat.succ.inj size
      have low := toNat_lt a
      have low' := toNat_lt b
      rw [toNat_cons, toNat_cons, ← size'] at same
      rw [← size'] at low'
      simp only [Nat.shiftLeft_eq, Nat.one_mul] at same low low'
      -- the rest is below its own weight, so a quotient leaves the first digit
      have high : d.toNat = e.toNat := by
        have first := congrArg (· / 2 ^ (8 * a.length)) same
        simpa only [Nat.mul_comm _ (2 ^ _), Nat.mul_add_div (Nat.two_pow_pos _),
          Nat.div_eq_of_lt low, Nat.div_eq_of_lt low', Nat.add_zero] using first
      rw [high] at same
      rw [UInt8.toNat_inj.mp high, ih size' (Nat.add_left_cancel same)]

theorem ofNat_toNat {width : Nat} {b : Bytes} (size : b.length = width) :
    ofNat width (toNat b) = b := by
  apply eq_of_toNat_eq
  · rw [length_ofNat, size]
  · exact toNat_ofNat_of_lt (toNat_lt_of_length size)

end Bytes

namespace Segment

theorem and_modeBit (w : UInt16) : w &&& modeBit = 0 ∨ w &&& modeBit = modeBit := by
  have bit : (w &&& modeBit).toNat = 2 ^ 15 * (w.toNat.testBit 15).toNat := by
    rw [UInt16.toNat_and, Nat.mul_comm]
    exact Nat.and_two_pow w.toNat 15
  rw [← UInt16.toNat_inj, ← UInt16.toNat_inj, bit]
  cases w.toNat.testBit 15 with
  | false => exact .inl rfl
  | true => exact .inr rfl

theorem word_channelOfWord (w : UInt16) : word (channelOfWord w) = w := by
  have halves : (w &&& 0x7fff) ||| (w &&& modeBit) = w := by
    apply UInt16.toNat_inj.mp
    have all : (0x7fff : Nat) ||| 0x8000 = 2 ^ 16 - 1 := by decide
    simp only [UInt16.toNat_or, UInt16.toNat_and]
    rw [← Nat.and_or_distrib_left]
    exact (congrArg (w.toNat &&& ·) all).trans
      ((Nat.and_two_pow_sub_one_eq_mod _ 16).trans (Nat.mod_eq_of_lt w.toNat_lt))
  have low : (0x7fff : UInt16) &&& 0x7fff = 0x7fff := by decide
  have set : modeBit ≠ 0 := by decide
  rcases and_modeBit w with clear | marked
  · rw [clear] at halves
    simp only [word, channelOfWord, clear, UInt16.and_assoc, low, if_true, halves]
  · rw [marked] at halves
    simp only [word, channelOfWord, marked, if_neg set, UInt16.and_assoc, low, halves]

theorem protocol_channelOfWord_lt (w : UInt16) : (channelOfWord w).protocol < 0x8000 := by
  rw [UInt16.lt_iff_toNat_lt, channelOfWord, UInt16.toNat_and]
  exact Nat.lt_of_le_of_lt Nat.and_le_right (by decide)

structure Framed (s : Segment) : Prop where
  low : s.channel.protocol < 0x8000
  fits : s.payload.length ≤ maxPayload

/-- No segment stands whole at the front. -/
def Incomplete (b : Bytes) : Prop := ∀ s : Segment, s.Framed → ¬ s.encode <+: b

theorem encode_ofHead {top payload : Bytes} (size : top.length = headSize)
    (announced : Bytes.toNat (top.drop 6) = payload.length) :
    (ofHead top payload).encode = top ++ payload := by
  have four : (top.take 4).length = 4 := by simp [size, headSize]
  have two : ((top.drop 4).take 2).length = 2 := by simp [size, headSize]
  have last : (top.drop 6).length = 2 := by simp [size, headSize]
  have time : (UInt32.ofNat (Bytes.toNat (top.take 4))).toNat = Bytes.toNat (top.take 4) :=
    UInt32.toNat_ofNat_of_lt' (Bytes.toNat_lt_of_length four)
  have number : (UInt16.ofNat (Bytes.toNat ((top.drop 4).take 2))).toNat =
      Bytes.toNat ((top.drop 4).take 2) :=
    UInt16.toNat_ofNat_of_lt' (Bytes.toNat_lt_of_length two)
  have parts : top.take 4 ++ (top.drop 4).take 2 ++ top.drop 6 = top := by
    rw [List.append_assoc, ← List.drop_drop (i := 2) (j := 4), List.take_append_drop,
      List.take_append_drop]
  simp only [encode, ofHead, word_channelOfWord, time, number, ← announced]
  rw [Bytes.ofNat_toNat four, Bytes.ofNat_toNat two, Bytes.ofNat_toNat last, parts]

theorem decode_encode_append_of_framed {s : Segment} (framed : s.Framed) (rest : Bytes) :
    decode (s.encode ++ rest) = some (s, rest) := by
  rw [decode_encode_append framed.fits, carried_eq_self framed.low]

theorem decode_eq_some_iff {b rest : Bytes} {s : Segment} :
    decode b = some (s, rest) ↔ b = s.encode ++ rest ∧ s.Framed := by
  constructor
  · intro read
    obtain ⟨top, size, announced, same, cut⟩ := exists_head_of_decode read
    have low : s.channel.protocol < 0x8000 := by
      rw [same]
      exact protocol_channelOfWord_lt _
    have written : s.encode = top ++ s.payload := by
      rw [same]
      exact encode_ofHead size announced
    exact ⟨by rw [cut, written, List.append_assoc], low, length_le_of_decode read⟩
  · rintro ⟨rfl, framed⟩
    exact decode_encode_append_of_framed framed rest

theorem decode_eq_none_iff {b : Bytes} : decode b = none ↔ Incomplete b := by
  constructor
  · rintro short s framed ⟨rest, rfl⟩
    rw [decode_encode_append_of_framed framed] at short
    contradiction
  · intro none
    cases read : decode b with
    | none => rfl
    | some found =>
      obtain ⟨cut, framed⟩ := decode_eq_some_iff.mp read
      exact absurd ⟨found.2, cut.symm⟩ (none found.1 framed)

theorem incomplete_iff {b : Bytes} :
    Incomplete b ↔ ∃ s : Segment, s.Framed ∧ b <+: s.encode ∧ b ≠ s.encode := by
  constructor
  · intro short
    -- behind zeros enough for any head and any payload a segment does come out
    let long := b ++ List.replicate (headSize + maxPayload) 0
    cases read : decode long with
    | none =>
      have bound := length_lt_of_decode_eq_none read
      simp only [long, List.length_append, List.length_replicate] at bound
      omega
    | some found =>
      obtain ⟨cut, framed⟩ := decode_eq_some_iff.mp read
      have beyond : ¬ found.1.encode <+: b := short found.1 framed
      have both : b <+: long ∧ found.1.encode <+: long := ⟨⟨_, rfl⟩, ⟨_, cut.symm⟩⟩
      refine ⟨found.1, framed, ?_, fun same => beyond (same ▸ List.prefix_rfl)⟩
      exact (List.prefix_or_prefix_of_prefix both.1 both.2).resolve_right beyond
  · rintro ⟨s, framed, ⟨more, cut⟩, strict⟩ t other ⟨rest, rfl⟩
    have whole := decode_encode_append_of_framed framed []
    rw [List.append_nil, ← cut, List.append_assoc, decode_encode_append_of_framed other] at whole
    obtain ⟨rfl, empty⟩ := Prod.mk.inj (Option.some.inj whole)
    obtain ⟨rfl, -⟩ := List.append_eq_nil_iff.mp empty
    exact strict (List.append_nil _)

theorem framed_of_mem_decodeAll {b : Bytes} {s : Segment} (member : s ∈ (decodeAll b).1) :
    s.Framed := by
  fun_induction decodeAll b with
  | case1 b short => cases member
  | case2 b first rest read shorter later left same ih =>
    rw [same] at ih
    rcases List.mem_cons.mp member with rfl | behind
    · exact (decode_eq_some_iff.mp read).2
    · exact ih behind

theorem length_le_of_mem_decodeAll {b : Bytes} {s : Segment} (member : s ∈ (decodeAll b).1) :
    s.payload.length ≤ maxPayload := (framed_of_mem_decodeAll member).fits

theorem flatMap_encode_decodeAll (b : Bytes) :
    (decodeAll b).1.flatMap encode ++ (decodeAll b).2 = b := by
  fun_induction decodeAll b with
  | case1 b short => rfl
  | case2 b first rest read shorter later left same ih =>
    rw [same] at ih
    rw [List.flatMap_cons, List.append_assoc, ih, (decode_eq_some_iff.mp read).1]

theorem decodeAll_eq_iff {b tail : Bytes} {segments : List Segment} :
    decodeAll b = (segments, tail) ↔
      b = segments.flatMap encode ++ tail ∧ (∀ s ∈ segments, s.Framed) ∧ Incomplete tail := by
  constructor
  · intro read
    obtain ⟨rfl, rfl⟩ := Prod.mk.inj read
    refine ⟨(flatMap_encode_decodeAll b).symm, fun s => framed_of_mem_decodeAll, ?_⟩
    exact decode_eq_none_iff.mp (decodeAll_left b)
  · rintro ⟨rfl, framed, short⟩
    have fit : ∀ s ∈ segments, s.payload.length ≤ maxPayload :=
      fun s member => (framed s member).fits
    rw [decodeAll_flatMap_encode_append fit (decode_eq_none_iff.mpr short),
      map_carried_eq_self fun s member => (framed s member).low]

theorem payloads_ne_nil (message : Bytes) : payloads message ≠ [] := by
  rw [payloads]
  split <;> exact List.cons_ne_nil _ _

theorem length_payloads (message : Bytes) :
    (payloads message).length = max 1 (message.length ⌈/⌉ maxPayload) := by
  fun_induction payloads message with
  | case1 message short =>
    simp only [List.length_singleton, Nat.ceilDiv_eq_add_pred_div, maxPayload] at short ⊢
    omega
  | case2 message long ih =>
    rw [List.length_cons, ih, List.length_drop]
    simp only [Nat.ceilDiv_eq_add_pred_div, maxPayload] at long ⊢
    omega

theorem length_of_mem_dropLast_payloads {message payload : Bytes}
    (member : payload ∈ (payloads message).dropLast) : payload.length = maxPayload := by
  fun_induction payloads message with
  | case1 message short => cases member
  | case2 message long ih =>
    rw [List.dropLast_cons_of_ne_nil (payloads_ne_nil _)] at member
    rcases List.mem_cons.mp member with rfl | later
    · rw [List.length_take]
      omega
    · exact ih later

/-- The segments carry the message in as few payloads as there can be, at least one, all full
but the last. -/
structure Cuts (time : UInt32) (c : Channel) (message : Bytes) (segments : List Segment) :
    Prop where
  count : segments.length = max 1 (message.length ⌈/⌉ maxPayload)
  address : ∀ s ∈ segments, s.timestamp = time ∧ s.channel = c
  full : ∀ s ∈ segments.dropLast, s.payload.length = maxPayload
  fits : ∀ s ∈ segments, s.payload.length ≤ maxPayload
  bytes : segments.flatMap (·.payload) = message

theorem cuts_ofMessage (time : UInt32) (c : Channel) (message : Bytes) :
    Cuts time c message (ofMessage time c message) where
  count := by rw [ofMessage, List.length_map, length_payloads]
  address s member := address_of_mem_ofMessage member
  full s member := by
    rw [ofMessage, ← List.map_dropLast] at member
    obtain ⟨payload, part, rfl⟩ := List.mem_map.mp member
    exact length_of_mem_dropLast_payloads part
  fits s member := length_le_of_mem_ofMessage member
  bytes := flatMap_payload_ofMessage time c message

theorem framed_of_mem_ofMessage {time : UInt32} {c : Channel} {message : Bytes} {s : Segment}
    (low : c.protocol < 0x8000) (member : s ∈ ofMessage time c message) : s.Framed where
  low := by rwa [(address_of_mem_ofMessage member).2]
  fits := length_le_of_mem_ofMessage member

/-- A stream is read as its segments and an incomplete rest, and as nothing else; one segment is
read back from its own bytes and written as these again; where none is complete, nothing is read;
and a message comes back as the segments that it was cut into. -/
theorem framing_lossless (b tail : Bytes) (segments : List Segment) :
    (decodeAll b = (segments, tail) ↔
      b = segments.flatMap encode ++ tail ∧ (∀ s ∈ segments, s.Framed) ∧ Incomplete tail) ∧
    (∀ s rest, decode b = some (s, rest) ↔ b = s.encode ++ rest ∧ s.Framed) ∧
    ((decode b = none ↔ Incomplete b) ∧ (Incomplete b → decodeAll b = ([], b)) ∧
      (Incomplete b ↔ ∃ s : Segment, s.Framed ∧ b <+: s.encode ∧ b ≠ s.encode)) ∧
    ∀ time c message, Cuts time c message (ofMessage time c message) ∧
      (c.protocol < 0x8000 → Incomplete tail →
        decodeAll (writeMessage time c message ++ tail) = (ofMessage time c message, tail)) := by
  refine ⟨decodeAll_eq_iff, fun s rest => decode_eq_some_iff,
    ⟨decode_eq_none_iff, ?_, incomplete_iff⟩, ?_⟩
  · intro short
    exact decodeAll_of_decode_none (decode_eq_none_iff.mpr short)
  · intro time c message
    refine ⟨cuts_ofMessage time c message, ?_⟩
    intro low short
    have framed : ∀ s ∈ ofMessage time c message, s.Framed :=
      fun s member => framed_of_mem_ofMessage low member
    exact decodeAll_eq_iff.mpr ⟨rfl, framed, short⟩

/-- Two channels with one protocol number, an empty payload and half a head; and a message of
exactly two full payloads. -/
theorem framing_lossless_fullPayloads :
    let s : Segment := ⟨0xdeadbeef, ⟨0x7fff, .responder⟩, [1, 2, 3]⟩
    let t : Segment := ⟨0, ⟨0x7fff, .initiator⟩, []⟩
    let tail : Bytes := [0, 0, 0, 1, 0]
    let m : Bytes := List.replicate 131070 0
    (∀ x ∈ [s, t], x.Framed) ∧ Incomplete tail ∧
      decodeAll ([s, t].flatMap encode ++ tail) = ([s, t], tail) ∧
      decode (s.encode ++ tail) = some (s, tail) ∧
      (∃ x : Segment, x.Framed ∧ tail <+: x.encode ∧ tail ≠ x.encode) ∧
      (⟨3, .responder⟩ : Channel).protocol < 0x8000 ∧
      decodeAll (writeMessage 7 ⟨3, .responder⟩ m ++ tail) =
        (ofMessage 7 ⟨3, .responder⟩ m, tail) ∧
      (ofMessage 7 ⟨3, .responder⟩ m).length = 2 := by
  intro s t tail m
  have framed : ∀ x ∈ [s, t], x.Framed := by
    intro x member
    rcases List.mem_cons.mp member with rfl | second
    · exact ⟨by decide, by decide⟩
    · rw [List.mem_singleton.mp second]
      exact ⟨by decide, by decide⟩
  have low : (⟨3, .responder⟩ : Channel).protocol < 0x8000 := by decide
  obtain ⟨-, -, ⟨waits, -, cutOff⟩, message⟩ := framing_lossless tail tail []
  have short : Incomplete tail := waits.mp rfl
  obtain ⟨cuts, back⟩ := message 7 ⟨3, .responder⟩ m
  have two : max 1 (m.length ⌈/⌉ maxPayload) = 2 := by
    rw [List.length_replicate]
    decide
  exact ⟨framed, short, (framing_lossless _ tail [s, t]).1.mpr ⟨rfl, framed, short⟩,
    ((framing_lossless _ tail []).2.1 s tail).mpr ⟨rfl, framed s (by simp)⟩, cutOff.mp short,
    low, back low short, cuts.count.trans two⟩

end Segment
end ChainRelay
