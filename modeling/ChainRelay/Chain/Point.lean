import ChainRelay.Cbor.Shape
import ChainRelay.Digest

/-! Where a block sits: its slot and the hash of its header. The origin, slot 0
without a hash, stands before the first block. On the wire every point without a
hash is the empty array. -/
namespace ChainRelay

structure BlockHash where
  bytes : Bytes
  length_bytes : bytes.length = 32
  deriving DecidableEq, Repr

namespace BlockHash

def ofBytes? (b : Bytes) : Option BlockHash :=
  if h : b.length = 32 then some ⟨b, h⟩ else none

def digest (b : Bytes) : BlockHash := ⟨Digest.blake3 b, Digest.length_blake3 b⟩

def zero : BlockHash := ⟨List.replicate 32 0, rfl⟩

instance : Inhabited BlockHash := ⟨zero⟩

def toHex (h : BlockHash) : String := Bytes.toHex h.bytes

def ofHex (s : String) : Except HexError BlockHash := do
  match ofBytes? (← Bytes.ofHex s) with
  | some h => return h
  | none => .error .wrongSize

def short (h : BlockHash) : String := Bytes.toHex (h.bytes.take 8)

def compare (a b : BlockHash) : Ordering :=
  if a.bytes < b.bytes then .lt else if a.bytes = b.bytes then .eq else .gt

end BlockHash

structure Point where
  slot : UInt64
  hash : Option BlockHash
  deriving DecidableEq, Repr, Inhabited

namespace Point

def origin : Point := ⟨0, none⟩

def isOrigin (p : Point) : Bool := p.slot = 0 && p.hash.isNone

def display (p : Point) : String :=
  match p.hash with
  | some h => s!"{p.slot}@{h.short}"
  | none => if p.slot = 0 then "origin" else s!"{p.slot}@-"

def toCbor (p : Point) : Cbor.Value :=
  match p.hash with
  | none => .array []
  | some h => .array [.unsigned p.slot, .bytes h.bytes]

def ofCbor (v : Cbor.Value) : Except Cbor.Error Point := do
  match ← v.asArray "point" with
  | [] => return origin
  | [slot, hash] =>
    let slot ← slot.asUnsigned "point.slot"
    match BlockHash.ofBytes? (← hash.asBytes "point.hash") with
    | some h => return ⟨slot, some h⟩
    | none => Cbor.Value.fault "point.hash" .hashSize
  | items => Cbor.Value.fault "point" (.pointSize items.length)

end Point

structure Tip where
  point : Point
  blockNumber : UInt64
  deriving DecidableEq, Repr, Inhabited

namespace Tip

def origin : Tip := ⟨.origin, 0⟩

def display (t : Tip) : String := s!"{t.point.display} #{t.blockNumber}"

def toCbor (t : Tip) : Cbor.Value := .array [t.point.toCbor, .unsigned t.blockNumber]

def ofCbor (v : Cbor.Value) : Except Cbor.Error Tip := do
  match ← v.asArrayOf 2 "tip" with
  | [point, number] => return ⟨← Point.ofCbor point, ← number.asUnsigned "tip.block_number"⟩
  | items => Cbor.Value.fault "tip" (.itemCount 2 items.length)

end Tip
end ChainRelay
