import ChainRelay.Chain.Header
import ChainRelay.Proofs.Cbor.Canonical
import ChainRelay.Proofs.Cbor.Shape

/-! Points, tips and headers on the wire. A point without a hash arrives as the origin
and everything else as it was. What is read out of stored bytes can be written again, and
is written as what it was read from. -/
namespace ChainRelay
open Cbor (Value bind_eq_ok)

namespace Point

/-- The origin, or a point that can be that of a block. -/
def Placed (p : Point) : Prop := p = origin ∨ p.hash.isSome

/-- The point as the far end reads it. -/
def carried (p : Point) : Point := if p.hash.isNone then origin else p

theorem plain_toCbor (d : Nat) (p : Point) : p.toCbor.Plain (d + 1) := by
  obtain ⟨slot, hash⟩ := p
  cases hash with
  | none => simp [toCbor, Value.Plain]
  | some h => simp [toCbor, Value.Plain, h.length_bytes, UInt64.size]

theorem sorted_toCbor (p : Point) : p.toCbor.sorted = p.toCbor := by
  obtain ⟨slot, hash⟩ := p
  cases hash <;> rfl

theorem ofCbor_toCbor (p : Point) : ofCbor p.toCbor = .ok p.carried := by
  obtain ⟨slot, hash⟩ := p
  cases hash with
  | none => rfl
  | some h =>
    have whole : BlockHash.ofBytes? h.bytes = some h := dif_pos h.length_bytes
    simp only [ofCbor, toCbor, Value.asArray, Value.asUnsigned, Value.asBytes, bind, Except.bind,
      whole]
    rfl

theorem Placed.carried_eq {p : Point} (placed : p.Placed) : p.carried = p := by
  rcases placed with rfl | hash
  · rfl
  · rw [carried, if_neg]
    simp [Option.isSome_iff_ne_none.mp hash]

theorem toCbor_of_ofCbor {v : Value} {p : Point} (read : ofCbor v = .ok p) : p.toCbor = v := by
  obtain ⟨items, outer, fields⟩ := bind_eq_ok.mp read
  rw [Value.asArray_eq_ok.mp outer]
  split at fields
  · cases fields
    rfl
  · obtain ⟨slot, number, hashed⟩ := bind_eq_ok.mp fields
    obtain ⟨b, bytes, sized⟩ := bind_eq_ok.mp hashed
    rw [Value.asUnsigned_eq_ok.mp number, Value.asBytes_eq_ok.mp bytes]
    split at sized
    · rename_i hash whole
      cases sized
      rw [BlockHash.ofBytes?] at whole
      split at whole
      · cases whole
        rfl
      · cases whole
    · cases sized
  · cases fields

end Point

namespace Tip

def carried (t : Tip) : Tip := { t with point := t.point.carried }

theorem plain_toCbor (d : Nat) (t : Tip) : t.toCbor.Plain (d + 2) := by
  simp [toCbor, Value.Plain, t.point.plain_toCbor d, UInt64.size]

theorem sorted_toCbor (t : Tip) : t.toCbor.sorted = t.toCbor := by
  simp [toCbor, Value.sorted, Value.sortedAll, Point.sorted_toCbor]

theorem ofCbor_toCbor (t : Tip) : ofCbor t.toCbor = .ok t.carried := by
  change (do return ⟨← Point.ofCbor t.point.toCbor, t.blockNumber⟩ : Except Cbor.Error Tip) = _
  rw [Point.ofCbor_toCbor]
  rfl

theorem carried_eq {t : Tip} (placed : t.point.Placed) : t.carried = t := by
  rw [carried, placed.carried_eq]

theorem toCbor_of_ofCbor {v : Value} {t : Tip} (read : ofCbor v = .ok t) : t.toCbor = v := by
  obtain ⟨items, outer, fields⟩ := bind_eq_ok.mp read
  obtain ⟨rfl, -⟩ := Value.asArrayOf_eq_ok.mp outer
  split at fields
  · obtain ⟨p, point, counted⟩ := bind_eq_ok.mp fields
    obtain ⟨n, number, same⟩ := bind_eq_ok.mp counted
    cases same
    rw [toCbor, Point.toCbor_of_ofCbor point, Value.asUnsigned_eq_ok.mp number]
  · cases fields

end Tip

theorem Cbor.Value.plain_embed {d : Nat} {b : Bytes} (fits : b.length < UInt64.size) :
    (embed b).Plain (d + 1) := by
  refine ⟨fun big => absurd big.1 (by decide), ?_⟩
  cases d <;> exact fits

namespace HeaderContent

structure Fits (h : HeaderContent) : Prop where
  length : h.raw.length < UInt64.size
  era : ∀ {era b}, h = shelley era b → era ≠ 0

theorem plain_toCbor {h : HeaderContent} (d : Nat) (fits : h.Fits) : h.toCbor.Plain (d + 3) := by
  have body : ∀ d, (Value.embed h.raw).Plain (d + 1) := fun d => Value.plain_embed fits.length
  have two : 2 < UInt64.size := by decide
  cases h with
  | shelley era b => simpa [toCbor, Value.Plain, raw, two] using body (d + 1)
  | byronMain size b => simpa [toCbor, byronToCbor, Value.Plain, raw, two] using body d
  | byronBoundary size b => simpa [toCbor, byronToCbor, Value.Plain, raw, two] using body d
  | block b => exact body (d + 2)

theorem sorted_toCbor (h : HeaderContent) : h.toCbor.sorted = h.toCbor := by
  cases h <;> rfl

theorem ofCbor_toCbor {h : HeaderContent} (fits : h.Fits) : ofCbor h.toCbor = .ok h := by
  cases h with
  | shelley era b =>
    have late : ¬ era = 0 := fits.era rfl
    change (if era = 0 then byronOfCbor (.embed b) else return shelley era b) = _
    rw [if_neg late]
    rfl
  | byronMain size b => rfl
  | byronBoundary size b => rfl
  | block b => rfl

theorem decode_encode {h : HeaderContent} (fits : h.Fits) {b : Bytes}
    (written : h.encode = .ok b) : decode b = .ok h := by
  have plain := h.plain_toCbor 253 fits
  rw [encode, Cbor.encode_eq_write plain] at written
  cases written
  rw [decode, Cbor.decode_write plain, h.sorted_toCbor]
  exact ofCbor_toCbor fits

theorem toCbor_of_byronOfCbor {v : Value} {h : HeaderContent} (read : byronOfCbor v = .ok h) :
    h.toCbor = .array [.unsigned 0, v] := by
  obtain ⟨items, outer, pair⟩ := bind_eq_ok.mp read
  obtain ⟨rfl, -⟩ := Value.asArrayOf_eq_ok.mp outer
  split at pair
  · obtain ⟨fields, inner, variants⟩ := bind_eq_ok.mp pair
    obtain ⟨rfl, -⟩ := Value.asArrayOf_eq_ok.mp inner
    split at variants
    · obtain ⟨variant, kind, sized⟩ := bind_eq_ok.mp variants
      obtain ⟨size, number, bodied⟩ := bind_eq_ok.mp sized
      obtain ⟨b, body, chosen⟩ := bind_eq_ok.mp bodied
      rw [Value.asUnsigned_eq_ok.mp kind, Value.asUnsigned_eq_ok.mp number,
        Value.asEmbedded_eq_ok.mp body]
      split at chosen
      · rename_i boundary
        cases chosen
        rw [boundary]
        rfl
      · split at chosen
        · rename_i main
          cases chosen
          rw [main]
          rfl
        · cases chosen
    · cases variants
  · cases pair

theorem toCbor_of_ofCbor {v : Value} {h : HeaderContent} (read : ofCbor v = .ok h) :
    h.toCbor = v := by
  unfold ofCbor at read
  split at read
  · obtain ⟨b, body, same⟩ := bind_eq_ok.mp read
    cases same
    rw [Value.asEmbedded_eq_ok.mp body]
    rfl
  · obtain ⟨items, outer, pair⟩ := bind_eq_ok.mp read
    obtain ⟨rfl, -⟩ := Value.asArrayOf_eq_ok.mp outer
    split at pair
    · obtain ⟨era, number, eras⟩ := bind_eq_ok.mp pair
      rw [Value.asUnsigned_eq_ok.mp number]
      split at eras
      · rename_i early
        rw [toCbor_of_byronOfCbor eras, early]
      · obtain ⟨b, body, same⟩ := bind_eq_ok.mp eras
        cases same
        rw [Value.asEmbedded_eq_ok.mp body]
        rfl
    · cases pair

theorem byronOfCbor_eq_ok {v : Value} {h : HeaderContent} (read : byronOfCbor v = .ok h) :
    ∃ lead b size, v = .array [lead, .embed b] ∧
      (h = byronBoundary size b ∨ h = byronMain size b) := by
  obtain ⟨items, outer, pair⟩ := bind_eq_ok.mp read
  obtain ⟨rfl, -⟩ := Cbor.Value.asArrayOf_eq_ok.mp outer
  split at pair
  · rename_i lead embedded
    obtain ⟨fields, inner, variants⟩ := bind_eq_ok.mp pair
    split at variants
    · obtain ⟨variant, -, sized⟩ := bind_eq_ok.mp variants
      obtain ⟨size, -, bodied⟩ := bind_eq_ok.mp sized
      obtain ⟨b, body, chosen⟩ := bind_eq_ok.mp bodied
      cases Cbor.Value.asEmbedded_eq_ok.mp body
      refine ⟨lead, b, size, rfl, ?_⟩
      split at chosen
      · cases chosen
        exact .inl rfl
      · split at chosen
        · cases chosen
          exact .inr rfl
        · cases chosen
    · cases variants
  · cases pair

theorem fits_of_ofCbor {v : Value} {h : HeaderContent} (read : ofCbor v = .ok h)
    (short : v.weight < UInt64.size) : h.Fits := by
  have within : ∀ {b : Bytes} {items : List Value}, .embed b ∈ items →
      b.length ≤ (Value.array items).weight := fun member =>
    Nat.le_trans (Cbor.Value.length_le_weight_embed _) (Cbor.Value.weight_le_of_mem member)
  simp only [ofCbor] at read
  split at read
  · obtain ⟨b, body, same⟩ := bind_eq_ok.mp read
    cases same
    rw [Cbor.Value.asEmbedded_eq_ok.mp body] at short
    exact ⟨Nat.lt_of_le_of_lt (Cbor.Value.length_le_weight_embed b) short, nofun⟩
  · obtain ⟨items, outer, pair⟩ := bind_eq_ok.mp read
    obtain ⟨rfl, -⟩ := Cbor.Value.asArrayOf_eq_ok.mp outer
    split at pair
    · rename_i first body _
      obtain ⟨era, -, eras⟩ := bind_eq_ok.mp pair
      have inside := Cbor.Value.weight_le_of_mem (v := body)
        (List.mem_cons_of_mem first (List.mem_singleton_self body))
      split at eras
      · obtain ⟨lead, b, size, rfl, same⟩ := byronOfCbor_eq_ok eras
        have long := within (b := b) (List.mem_cons_of_mem lead (List.mem_singleton_self _))
        have fits : b.length < UInt64.size := by omega
        rcases same with rfl | rfl
        · exact ⟨fits, nofun⟩
        · exact ⟨fits, nofun⟩
      · rename_i late
        obtain ⟨b, embedded, same⟩ := bind_eq_ok.mp eras
        cases same
        cases Cbor.Value.asEmbedded_eq_ok.mp embedded
        have long := within (b := b) (List.mem_cons_of_mem first (List.mem_singleton_self _))
        refine ⟨by simp only [raw]; omega, ?_⟩
        intro e c same
        cases same
        exact late
    · cases pair

theorem fits_of_decode {b : Bytes} {h : HeaderContent} (read : decode b = .ok h)
    (short : b.length < UInt64.size) : h.Fits := by
  obtain ⟨v, item, shape⟩ := bind_eq_ok.mp read
  exact fits_of_ofCbor shape (Nat.lt_of_le_of_lt (Cbor.weight_le_of_decode item) short)

end HeaderContent
end ChainRelay
