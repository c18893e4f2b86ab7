import ChainRelay.Cbor.Reader
import ChainRelay.Cbor.Writer
import ChainRelay.Chain.Point

/-! What a roll-forward carries: a header of one of three eras' forms, or a whole
block. The bytes are opaque but for the few fields that give the slot:

* Shelley header `[[height, slot, ..], signature]`
* Byron main header `[magic, previous, proof, [[epoch, slot], ..], extra]`
* Byron boundary header `[magic, previous, proof, [epoch, difficulty], extra]`
* block `[era, [header, ..]]`
-/
namespace ChainRelay

inductive HeaderContent where
  | shelley (era : UInt64) (bytes : Bytes)
  | byronMain (size : UInt64) (bytes : Bytes)
  | byronBoundary (size : UInt64) (bytes : Bytes)
  | block (bytes : Bytes)
  deriving DecidableEq, Repr, Inhabited

namespace HeaderContent
open Cbor (Value Error)

def byronEpochSlots : UInt64 := 21600

def raw : HeaderContent → Bytes
  | shelley _ b | byronMain _ b | byronBoundary _ b | block b => b

def byronToCbor (variant size : UInt64) (b : Bytes) : Value :=
  .array [.unsigned 0, .array [.array [.unsigned variant, .unsigned size], .embed b]]

def toCbor : HeaderContent → Value
  | shelley era b => .array [.unsigned era, .embed b]
  | byronMain size b => byronToCbor 1 size b
  | byronBoundary size b => byronToCbor 0 size b
  | block b => .embed b

def byronOfCbor (v : Value) : Except Error HeaderContent := do
  match ← v.asArrayOf 2 "byron header" with
  | [lead, embedded] =>
    match ← lead.asArrayOf 2 "byron prefix" with
    | [variant, size] =>
      let variant ← variant.asUnsigned "byron variant"
      let size ← size.asUnsigned "byron size"
      let b ← embedded.asEmbedded "byron bytes"
      if variant = 0 then return byronBoundary size b
      else if variant = 1 then return byronMain size b
      else Value.fault "byron variant" (.unknownVariant variant)
    | items => Value.fault "byron prefix" (.itemCount 2 items.length)
  | items => Value.fault "byron header" (.itemCount 2 items.length)

def ofCbor (v : Value) : Except Error HeaderContent := do
  match v with
  | .tag _ _ => return block (← v.asEmbedded "block")
  | _ =>
    match ← v.asArrayOf 2 "header" with
    | [era, body] =>
      let era ← era.asUnsigned "header.era"
      if era = 0 then byronOfCbor body
      else return shelley era (← body.asEmbedded "header.bytes")
    | items => Value.fault "header" (.itemCount 2 items.length)

def encode (h : HeaderContent) : Except Error Bytes := Cbor.encode h.toCbor

def decode (b : Bytes) : Except Error HeaderContent := do ofCbor (← Cbor.decode b)

def ofBlock (b : Bytes) : Except Error (UInt64 × Value) := do
  match ← (← Cbor.decode b).asArrayOf 2 "block" with
  | [era, body] =>
    let era ← era.asUnsigned "block.era"
    match ← body.asArray "block.body" with
    | header :: _ => return (era, header)
    | [] => Value.fault "block.body" (.missing "header")
  | items => Value.fault "block" (.itemCount 2 items.length)

def shelleySlot (header : Value) : Except Error UInt64 := do
  match ← header.asArray "shelley header" with
  | [] => Value.fault "shelley header" (.missing "body")
  | body :: _ =>
    match ← body.asArray "shelley header body" with
    | _ :: slot :: _ => slot.asUnsigned "shelley slot"
    | _ => Value.fault "shelley header body" (.missing "slot")

def byronMainSlot (header : Value) : Except Error UInt64 := do
  match ← header.asArray "byron header" with
  | _ :: _ :: _ :: consensus :: _ =>
    match ← consensus.asArray "byron consensus" with
    | [] => Value.fault "byron consensus" (.missing "slot id")
    | slotId :: _ =>
      match ← slotId.asArrayOf 2 "byron slot id" with
      | [epoch, slot] =>
        let epoch ← epoch.asUnsigned "byron epoch"
        let slot ← slot.asUnsigned "byron slot"
        return epoch * byronEpochSlots + slot
      | items => Value.fault "byron slot id" (.itemCount 2 items.length)
  | _ => Value.fault "byron header" (.missing "consensus data")

def byronBoundarySlot (header : Value) : Except Error UInt64 := do
  match ← header.asArray "byron boundary header" with
  | _ :: _ :: _ :: consensus :: _ =>
    match ← consensus.asArray "byron boundary consensus" with
    | [] => Value.fault "byron boundary consensus" (.missing "epoch")
    | epoch :: _ => return (← epoch.asUnsigned "byron boundary epoch") * byronEpochSlots
  | _ => Value.fault "byron boundary header" (.missing "consensus data")

/-- The digest of the header's own bytes. A block's header is written again, which
gives those bytes back when they were canonical. -/
def hash : HeaderContent → Except Error BlockHash
  | block b => do
    let (_, header) ← ofBlock b
    return .digest (← Cbor.encode header)
  | other => .ok (.digest other.raw)

def slot : HeaderContent → Except Error UInt64
  | shelley _ b => do shelleySlot (← Cbor.decode b)
  | byronMain _ b => do byronMainSlot (← Cbor.decode b)
  | byronBoundary _ b => do byronBoundarySlot (← Cbor.decode b)
  | block b => do
    let (era, header) ← ofBlock b
    if era = 0 then byronBoundarySlot header
    else if era = 1 then byronMainSlot header
    else shelleySlot header

def point (h : HeaderContent) : Except Error Point := do
  let slot ← h.slot
  let hash ← h.hash
  return ⟨slot, some hash⟩

end HeaderContent
end ChainRelay
