import ChainRelay.Chain.Store

/-! Synthetic chains. Block `i`, counted from 1, sits at slot `20 * i` and names
the hash of the block before it; the salt makes the blocks of two chains differ.
Its header has the Shelley form and its body the form of a whole block, so one
chain serves header sync, block sync and block fetch. -/
namespace ChainRelay

structure Fixture where
  blocks : List StoredBlock
  salt : UInt8
  deriving Repr

namespace Fixture

def era : UInt64 := 6

def slotSpacing : UInt64 := 20

def withSalt (salt : UInt8) : Fixture := ⟨[], salt⟩

def headerValue (number slot : UInt64) (previous : Option BlockHash) (salt : UInt8) : Cbor.Value :=
  let previous : Cbor.Value := match previous with
    | some h => .bytes h.bytes
    | none => .null
  .array [.array [.unsigned number, .unsigned slot, previous], .bytes (List.replicate 8 salt)]

def block (number : UInt64) (previous : Option BlockHash) (salt : UInt8) : StoredBlock :=
  let slot := number * slotSpacing
  let header := headerValue number slot previous salt
  let payload := Bytes.ofText s!"tx {number} {salt}"
  let body : Cbor.Value := .array [.unsigned era, .array [header, .array [.bytes payload]]]
  { point := ⟨slot, some (.digest header.write)⟩
    blockNumber := number
    header := (HeaderContent.shelley era header.write).toCbor.write
    body := body.write }

def push (f : Fixture) : Fixture :=
  let number := UInt64.ofNat (f.blocks.length + 1)
  { f with blocks := f.blocks ++ [block number (f.blocks.getLast?.map (·.hash)) f.salt] }

def extend (f : Fixture) : Nat → Fixture
  | 0 => f
  | n + 1 => f.push.extend n

def fork (f : Fixture) (keep : Nat) (salt : UInt8) : Fixture := ⟨f.blocks.take keep, salt⟩

def tip (f : Fixture) : Tip := (f.blocks.getLast?.map (·.tip)).getD .origin

def loadInto (f : Fixture) (store : ChainStore) : Except ChainError Unit × ChainStore :=
  store.appendAll f.blocks

end Fixture
end ChainRelay
