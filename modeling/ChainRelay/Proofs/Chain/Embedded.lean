import ChainRelay.Chain.Header
import ChainRelay.Proofs.Cbor.Inner
import ChainRelay.Proofs.Cbor.Shape

/-! A block carries its header as the first item of its body. It sits at the slot of the
header by itself, and at the same point where the header's bytes are those that its
encoding has. -/
namespace ChainRelay.HeaderContent
open Cbor (Value Head bind_eq_ok map_eq_ok read_of_decode)
open Cbor.Reader (bind_eq_done)

def alone (era size : UInt64) (h : Bytes) : HeaderContent :=
  if era = 0 then byronBoundary size h
  else if era = 1 then byronMain size h
  else shelley era h

/-- The bytes are one block `[era, [header, ..]]`, in which `h` stands behind the head of
the body. The two arrays may be of indefinite form, and the three heads before the header
wider than needed. -/
def Embeds (b : Bytes) (era : UInt64) (h : Bytes) : Prop :=
  ∃ outer inner onEra onBody behind header others,
    Head.read b = .done (.array outer) onEra ∧
    Value.read onEra = .done (.unsigned era) onBody ∧
    Head.read onBody = .done (.array inner) (h ++ behind) ∧
    Cbor.decode b = .ok (.array [.unsigned era, .array (header :: others)])

theorem ofBlock_of_decode {b : Bytes} {era : UInt64} {header : Value} {others : List Value}
    (whole : Cbor.decode b = .ok (.array [.unsigned era, .array (header :: others)])) :
    ofBlock b = .ok (era, header) := by
  rw [ofBlock, whole]
  rfl

theorem Embeds.ofBlock_eq {b h : Bytes} {era : UInt64} {v : Value} (embeds : Embeds b era h)
    (whole : Cbor.decode h = .ok v) : ofBlock b = .ok (era, v) := by
  obtain ⟨outer, inner, onEra, onBody, behind, header, others, opens, eraRead, bodyOpens, block⟩ :=
    embeds
  suffices header = v from this ▸ ofBlock_of_decode block
  -- how much is left to read behind each of the three heads
  have onEraShorter : onEra.length ≤ b.length := (Head.suffix_of_read opens).length_le
  have onBodyShorter : onBody.length ≤ onEra.length := (Value.suffix_of_read eraRead).length_le
  have itemsShorter : (h ++ behind).length ≤ onBody.length :=
    (Head.suffix_of_read bodyOpens).length_le
  obtain ⟨opener, later, opened, items⟩ := bind_eq_done.mp (read_of_decode block)
  rw [opens] at opened
  cases opened
  obtain ⟨_, row⟩ := Value.row_of_array items
  cases row with
  | cons first body =>
    have sameEra := Value.read_of_inner (by decide) (by omega) first
    rw [eraRead] at sameEra
    cases sameEra
    cases body with
    | cons second _ =>
      obtain ⟨opener, later, opened, items⟩ := bind_eq_done.mp second
      rw [bodyOpens] at opened
      cases opened
      obtain ⟨_, row⟩ := Value.row_of_array items
      cases row with
      | cons first _ =>
        have inBlock := Value.read_of_inner (by decide) (by omega) first
        have byItself := Value.read_append_of_done (read_of_decode whole) behind
        rw [inBlock] at byItself
        cases byItself
        rfl

theorem point_eq_ok {c : HeaderContent} {p : Point} :
    c.point = .ok p ↔
      ∃ slot hash, c.slot = .ok slot ∧ c.hash = .ok hash ∧ p = ⟨slot, some hash⟩ := by
  constructor
  · intro sits
    obtain ⟨slot, found, rest⟩ := bind_eq_ok.mp sits
    obtain ⟨hash, hashed, same⟩ := bind_eq_ok.mp rest
    cases same
    exact ⟨slot, hash, found, hashed, rfl⟩
  · rintro ⟨slot, hash, found, hashed, rfl⟩
    rw [point, found, hashed]
    rfl

theorem hash_alone (era size : UInt64) (h : Bytes) :
    (alone era size h).hash = .ok (.digest h) := by
  unfold alone
  split
  · rfl
  · split <;> rfl

theorem hash_block {b h : Bytes} {era : UInt64} {v : Value} (embeds : Embeds b era h)
    (whole : Cbor.decode h = .ok v) : (block b).hash = (Cbor.encode v).map .digest := by
  rw [hash, embeds.ofBlock_eq whole]
  change (Cbor.encode v >>= fun written => .ok (BlockHash.digest written)) = _
  cases Cbor.encode v <;> rfl

theorem slot_block {b h : Bytes} {era : UInt64} {v : Value} (size : UInt64)
    (embeds : Embeds b era h) (whole : Cbor.decode h = .ok v) :
    (block b).slot = (alone era size h).slot := by
  rw [slot, embeds.ofBlock_eq whole, alone]
  by_cases boundary : era = 0
  · rw [if_pos boundary, slot, whole]
    exact if_pos boundary
  · by_cases main : era = 1
    · rw [if_neg boundary, if_pos main, slot, whole]
      exact (if_neg boundary).trans (if_pos main)
    · rw [if_neg boundary, if_neg main, slot, whole]
      exact (if_neg boundary).trans (if_neg main)

/-- A block sits at the slot of its header, and its hash is the digest of the header's
encoding. So it sits at the point of the header where the header's bytes are canonical,
and otherwise only if the two digests are the same. -/
theorem block_sits {b h : Bytes} {era : UInt64} {v : Value} (size : UInt64)
    (embeds : Embeds b era h) (whole : Cbor.decode h = .ok v) :
    (block b).slot = (alone era size h).slot ∧
      (alone era size h).hash = .ok (.digest h) ∧
      (block b).hash = (Cbor.encode v).map .digest ∧
      (Cbor.encode v = .ok h → (block b).point = (alone era size h).point) ∧
      ∀ p, (alone era size h).point = .ok p →
        ((block b).point = .ok p ↔ ∃ written, Cbor.encode v = .ok written ∧
          BlockHash.digest written = .digest h) := by
  have sameSlot := slot_block size embeds whole
  have sameHash := hash_block embeds whole
  refine ⟨sameSlot, hash_alone era size h, sameHash, ?_, ?_⟩
  · intro canonical
    rw [point, point, sameSlot, sameHash, canonical, hash_alone]
    rfl
  · intro p sits
    obtain ⟨slot, hash, found, hashed, rfl⟩ := point_eq_ok.mp sits
    rw [hash_alone] at hashed
    cases hashed
    rw [point_eq_ok, sameSlot, sameHash, found]
    constructor
    · rintro ⟨_, hash, -, written, same⟩
      obtain ⟨bytes, encoded, rfl⟩ := map_eq_ok.mp written
      exact ⟨bytes, encoded, by simpa using congrArg Point.hash same.symm⟩
    · rintro ⟨written, encoded, same⟩
      exact ⟨slot, .digest h, rfl, map_eq_ok.mpr ⟨written, encoded, same⟩, rfl⟩

/-- The header `[[1, 5], h'']` in a block of era 6. The block's arrays are of indefinite form
and its era is wider than needed, and more items follow the header. -/
theorem block_sits_indefinite :
    let header : Bytes := [0x82, 0x82, 0x01, 0x05, 0x40]
    let wrapped : Bytes := [0x9f, 0x18, 0x06, 0x9f] ++ header ++ [0x80, 0xff, 0xff]
    let v : Value := .array [.array [.unsigned 1, .unsigned 5], .bytes []]
    Embeds wrapped 6 header ∧ Cbor.decode header = .ok v ∧ Cbor.encode v = .ok header ∧
      (block wrapped).point = (shelley 6 header).point := by
  intro header wrapped v
  have embeds : Embeds wrapped 6 header :=
    ⟨none, none, _, _, [0x80, 0xff, 0xff], v, [.array []], rfl, rfl, rfl, rfl⟩
  have whole : Cbor.decode header = .ok v := rfl
  have canonical : Cbor.encode v = .ok header := rfl
  exact ⟨embeds, whole, canonical, (block_sits 0 embeds whole).2.2.2.1 canonical⟩

end ChainRelay.HeaderContent
