import ChainRelay.Wire.Segment

/-! Framing. The head of a segment gives back what was written into it, a whole
segment is read the same whatever follows it, and so the segments at the front of a
stream do not depend on how much of the stream is there. -/
namespace ChainRelay

namespace Bytes

theorem foldl_digits (b : Bytes) (n : Nat) :
    b.foldl (fun n d => n * 256 + d.toNat) n = n <<< (8 * b.length) + toNat b := by
  induction b generalizing n with
  | nil => simp [toNat]
  | cons d b ih =>
    have first : toNat (d :: b) = d.toNat <<< (8 * b.length) + toNat b := by
      rw [toNat, List.foldl_cons, Nat.zero_mul, Nat.zero_add, ih]
    have shift : n <<< (8 * (b.length + 1)) = (n * 256) <<< (8 * b.length) := by
      rw [Nat.mul_add, Nat.add_comm, Nat.shiftLeft_add, Nat.shiftLeft_eq n]
    rw [List.foldl_cons, ih, first, List.length_cons, shift]
    simp only [Nat.shiftLeft_eq, Nat.add_mul]
    omega

theorem toNat_cons (d : UInt8) (b : Bytes) :
    toNat (d :: b) = d.toNat <<< (8 * b.length) + toNat b := by
  rw [toNat, List.foldl_cons, Nat.zero_mul, Nat.zero_add, foldl_digits]

theorem toNat_lt (b : Bytes) : toNat b < 1 <<< (8 * b.length) := by
  induction b with
  | nil => decide
  | cons d b ih =>
    have scaled : d.toNat <<< (8 * b.length) = d.toNat * (1 <<< (8 * b.length)) := by
      rw [Nat.shiftLeft_eq, Nat.shiftLeft_eq, Nat.one_mul]
    have wider : 1 <<< (8 * b.length + 8) = (1 <<< (8 * b.length)) * 256 := by
      rw [Nat.shiftLeft_add, Nat.shiftLeft_eq _ 8]
    have most : (d.toNat + 1) * (1 <<< (8 * b.length)) ≤ 256 * (1 <<< (8 * b.length)) :=
      Nat.mul_le_mul_right _ d.toNat_lt
    rw [Nat.succ_mul] at most
    rw [toNat_cons, List.length_cons, Nat.mul_succ, scaled, wider]
    omega

theorem toNat_lt_of_length {b : Bytes} {width : Nat} (size : b.length = width) :
    toNat b < 1 <<< (8 * width) := by
  rw [← size]
  exact toNat_lt b

theorem toNat_ofNat (width n : Nat) : toNat (ofNat width n) = n % (1 <<< (8 * width)) := by
  induction width with
  | zero => simp [ofNat, toNat, Nat.mod_one]
  | succ width ih =>
    have high : (UInt8.ofNat (n >>> (8 * width))).toNat = n / 2 ^ (8 * width) % 256 := by
      simp [Nat.shiftRight_eq_div_pow]
    rw [ofNat, toNat_cons, length_ofNat, ih, high]
    simp only [Nat.shiftLeft_eq, Nat.one_mul, Nat.mul_add, Nat.pow_add]
    rw [Nat.mod_mul, Nat.mul_comm, Nat.add_comm]

theorem toNat_ofNat_of_lt {width n : Nat} (fits : n < 1 <<< (8 * width)) :
    toNat (ofNat width n) = n := by
  rw [toNat_ofNat, Nat.mod_eq_of_lt fits]

end Bytes

namespace Segment

theorem or_and_distrib (a b c : UInt16) : (a ||| b) &&& c = (a &&& c) ||| (b &&& c) := by
  apply UInt16.toNat_inj.mp
  simp only [UInt16.toNat_and, UInt16.toNat_or, Nat.and_or_distrib_right]

theorem channelOfWord_word (c : Channel) :
    channelOfWord (word c) = ⟨c.protocol &&& 0x7fff, c.mode⟩ := by
  have low : (0x7fff : UInt16) &&& 0x7fff = 0x7fff := by decide
  have apart : (0x7fff : UInt16) &&& modeBit = 0 := by decide
  have apart' : modeBit &&& (0x7fff : UInt16) = 0 := by decide
  have self : modeBit &&& modeBit = modeBit := by decide
  have set : modeBit ≠ 0 := by decide
  cases c with
  | mk protocol mode =>
    cases mode with
    | initiator =>
      simp only [channelOfWord, word, UInt16.or_zero, UInt16.and_assoc, low, apart,
        UInt16.and_zero, if_true]
    | responder =>
      simp only [channelOfWord, word, or_and_distrib, UInt16.and_assoc, low, apart, apart', self,
        UInt16.and_zero, UInt16.or_zero, UInt16.zero_or, if_neg set]

/-- The segment as the far end reads it: the protocol number has lost the mode bit. -/
def carried (s : Segment) : Segment :=
  { s with channel := ⟨s.channel.protocol &&& 0x7fff, s.channel.mode⟩ }

theorem carried_eq_self {s : Segment} (low : s.channel.protocol < 0x8000) : s.carried = s := by
  have keep : s.channel.protocol &&& 0x7fff = s.channel.protocol := by
    apply UInt16.toNat_inj.mp
    rw [UInt16.toNat_and]
    have small : s.channel.protocol.toNat < 2 ^ 15 := UInt16.lt_iff_toNat_lt.mp low
    exact (Nat.and_two_pow_sub_one_eq_mod _ 15).trans (Nat.mod_eq_of_lt small)
  simp only [carried, keep]

theorem map_carried_eq_self {segments : List Segment}
    (low : ∀ s ∈ segments, s.channel.protocol < 0x8000) : segments.map carried = segments :=
  calc segments.map carried = segments.map id :=
        List.map_congr_left fun s member => carried_eq_self (low s member)
    _ = segments := List.map_id segments

def ofHead (top payload : Bytes) : Segment where
  timestamp := UInt32.ofNat (Bytes.toNat (top.take 4))
  channel := channelOfWord (UInt16.ofNat (Bytes.toNat ((top.drop 4).take 2)))
  payload := payload

theorem decode_head {top payload : Bytes} (size : top.length = headSize)
    (announced : Bytes.toNat (top.drop 6) = payload.length) (rest : Bytes) :
    decode (top ++ (payload ++ rest)) = some (ofHead top payload, rest) := by
  have eight : headSize = top.length := size.symm
  simp only [decode, List.splitAt_eq, eight, List.take_left, List.drop_left, announced,
    Nat.lt_irrefl, if_false, ofHead]

theorem exists_head_of_decode {b rest : Bytes} {s : Segment} (read : decode b = some (s, rest)) :
    ∃ top, top.length = headSize ∧ Bytes.toNat (top.drop 6) = s.payload.length ∧
      s = ofHead top s.payload ∧ b = top ++ (s.payload ++ rest) := by
  simp only [decode, List.splitAt_eq] at read
  split at read
  · contradiction
  · rename_i whole
    split at read
    · contradiction
    · rename_i filled
      cases Option.some.inj read
      refine ⟨b.take headSize, ?_, ?_, rfl, ?_⟩
      · rw [List.length_take] at whole ⊢
        omega
      · rw [List.length_take] at filled ⊢
        omega
      · rw [List.take_append_drop, List.take_append_drop]

theorem length_le_of_decode {b rest : Bytes} {s : Segment} (read : decode b = some (s, rest)) :
    s.payload.length ≤ maxPayload := by
  obtain ⟨top, size, announced, -, -⟩ := exists_head_of_decode read
  have two : (top.drop 6).length = 2 := by
    rw [List.length_drop, size]
    rfl
  have bound := Bytes.toNat_lt_of_length two
  rw [announced] at bound
  simp only [maxPayload]
  omega

theorem length_lt_of_decode_eq_none {b : Bytes} (short : decode b = none) :
    b.length < headSize + maxPayload := by
  have announced : Bytes.toNat ((b.take headSize).drop 6) < 65536 := by
    have two : ((b.take headSize).drop 6).length ≤ 2 := by
      simp only [List.length_drop, List.length_take, headSize]
      omega
    apply Nat.lt_of_lt_of_le (Bytes.toNat_lt _)
    rw [Nat.shiftLeft_eq, Nat.one_mul]
    exact Nat.pow_le_pow_right (by decide) (Nat.mul_le_mul_left 8 two)
  simp only [decode, List.splitAt_eq] at short
  split at short
  · rename_i noHead
    rw [List.length_take] at noHead
    simp only [headSize, maxPayload] at noHead ⊢
    omega
  · split at short
    · rename_i noPayload
      rw [List.length_take, List.length_drop] at noPayload
      simp only [headSize, maxPayload] at noPayload announced ⊢
      omega
    · contradiction

theorem decode_append {b rest : Bytes} {s : Segment} (read : decode b = some (s, rest))
    (more : Bytes) : decode (b ++ more) = some (s, rest ++ more) := by
  obtain ⟨top, size, announced, same, cut⟩ := exists_head_of_decode read
  rw [cut, List.append_assoc, List.append_assoc, decode_head size announced, ← same]

theorem head_fields {time number : Bytes} (four : time.length = 4) (two : number.length = 2)
    (length : Bytes) :
    (time ++ (number ++ length)).take 4 = time ∧
      ((time ++ (number ++ length)).drop 4).take 2 = number ∧
      (time ++ (number ++ length)).drop 6 = length := by
  refine ⟨List.take_left' four, ?_, ?_⟩
  · rw [List.drop_left' four, List.take_left' two]
  · rw [← List.append_assoc, List.drop_left' (by rw [List.length_append, four, two])]

theorem decode_encode_append {s : Segment} (fits : s.payload.length ≤ maxPayload) (rest : Bytes) :
    decode (s.encode ++ rest) = some (s.carried, rest) := by
  have time : Bytes.toNat (Bytes.ofNat 4 s.timestamp.toNat) = s.timestamp.toNat :=
    Bytes.toNat_ofNat_of_lt s.timestamp.toNat_lt
  have number : Bytes.toNat (Bytes.ofNat 2 (word s.channel).toNat) = (word s.channel).toNat :=
    Bytes.toNat_ofNat_of_lt (word s.channel).toNat_lt
  have length : Bytes.toNat (Bytes.ofNat 2 s.payload.length) = s.payload.length :=
    Bytes.toNat_ofNat_of_lt (Nat.lt_succ_of_le fits)
  have cut : s.encode ++ rest = Bytes.ofNat 4 s.timestamp.toNat ++
      (Bytes.ofNat 2 (word s.channel).toNat ++ Bytes.ofNat 2 s.payload.length) ++
        (s.payload ++ rest) := by
    simp only [encode, List.append_assoc]
  obtain ⟨first, second, third⟩ := head_fields (Bytes.length_ofNat 4 s.timestamp.toNat)
    (Bytes.length_ofNat 2 (word s.channel).toNat) (Bytes.ofNat 2 s.payload.length)
  rw [cut, decode_head (by simp [headSize]) (by rw [third, length])]
  simp only [ofHead, carried, first, second, time, number, UInt32.ofNat_toNat, UInt16.ofNat_toNat,
    channelOfWord_word]

theorem decodeAll_of_decode_none {b : Bytes} (short : decode b = none) : decodeAll b = ([], b) := by
  rw [decodeAll]
  split
  · rfl
  · rename_i read
    rw [short] at read
    contradiction

theorem decodeAll_of_decode {b rest : Bytes} {s : Segment} (read : decode b = some (s, rest)) :
    decodeAll b = (s :: (decodeAll rest).1, (decodeAll rest).2) := by
  rw [decodeAll]
  split
  · rename_i short
    rw [read] at short
    contradiction
  · rename_i found
    rw [read] at found
    cases found
    rfl

/-- The segments of a longer stream: those already whole, then those that the rest
completes with what they left. -/
theorem decodeAll_append (a b : Bytes) :
    decodeAll (a ++ b) = ((decodeAll a).1 ++ (decodeAll ((decodeAll a).2 ++ b)).1,
      (decodeAll ((decodeAll a).2 ++ b)).2) := by
  fun_induction decodeAll a with
  | case1 a short => rfl
  | case2 a s rest read shorter later left same ih =>
    rw [decodeAll_of_decode (decode_append read b), ih, same]
    rfl

theorem decodeAll_left (b : Bytes) : decode (decodeAll b).2 = none := by
  fun_induction decodeAll b with
  | case1 b short => exact short
  | case2 b s rest read shorter later left same ih =>
    rw [same] at ih
    exact ih

theorem decodeAll_flatMap_encode (segments : List Segment)
    (fit : ∀ s ∈ segments, s.payload.length ≤ maxPayload) :
    decodeAll (segments.flatMap encode) = (segments.map carried, []) := by
  induction segments with
  | nil =>
    rw [List.flatMap_nil, decodeAll_of_decode_none (by simp [decode, headSize])]
    rfl
  | cons s segments ih =>
    rw [List.flatMap_cons, decodeAll_of_decode (decode_encode_append (fit s (by simp)) _),
      ih fun s member => fit s (by simp [member])]
    rfl

theorem decodeAll_flatMap_encode_append {segments : List Segment} {tail : Bytes}
    (fit : ∀ s ∈ segments, s.payload.length ≤ maxPayload) (short : decode tail = none) :
    decodeAll (segments.flatMap encode ++ tail) = (segments.map carried, tail) := by
  rw [decodeAll_append, decodeAll_flatMap_encode segments fit, List.nil_append,
    decodeAll_of_decode_none short, List.append_nil]

theorem flatten_payloads (message : Bytes) : (payloads message).flatten = message := by
  fun_induction payloads message with
  | case1 message short => simp
  | case2 message long ih => rw [List.flatten_cons, ih, List.take_append_drop]

theorem length_le_of_mem_payloads {message payload : Bytes} (member : payload ∈ payloads message) :
    payload.length ≤ maxPayload := by
  fun_induction payloads message with
  | case1 message short => simp_all
  | case2 message long ih =>
    rcases List.mem_cons.mp member with first | later
    · rw [first, List.length_take]
      omega
    · exact ih later

theorem address_of_mem_ofMessage {time : UInt32} {c : Channel} {message : Bytes} {s : Segment}
    (member : s ∈ ofMessage time c message) : s.timestamp = time ∧ s.channel = c := by
  obtain ⟨payload, -, rfl⟩ := List.mem_map.mp member
  exact ⟨rfl, rfl⟩

theorem length_le_of_mem_ofMessage {time : UInt32} {c : Channel} {message : Bytes} {s : Segment}
    (member : s ∈ ofMessage time c message) : s.payload.length ≤ maxPayload := by
  obtain ⟨payload, part, rfl⟩ := List.mem_map.mp member
  exact length_le_of_mem_payloads part

theorem flatMap_payload_ofMessage (time : UInt32) (c : Channel) (message : Bytes) :
    (ofMessage time c message).flatMap (·.payload) = message := by
  rw [ofMessage, List.flatMap_map, List.flatMap_id', flatten_payloads]

end Segment
end ChainRelay
