import ChainRelay.Chain.Point
import ChainRelay.Json.Shape

/-! Hashes, points and tips as JSON. A hash is an array of 32 numbers. -/
namespace ChainRelay
open Json (Value)

def BlockHash.ofJson : Value → Option BlockHash
  | .array items => do BlockHash.ofBytes? (← items.mapM Value.asUInt8)
  | _ => none

def BlockHash.toJson (h : BlockHash) : Value := .array (h.bytes.map fun b => .nat b.toNat)

/-- A missing hash is null, but an array is never short. -/
def Point.ofJson (v : Value) : Option Point := do
  match ← v.members ["slot", "hash"] with
  | [some slot, hash] =>
    if hash.isNone && v.isArray then none
    return ⟨← slot.asUInt64, ← Value.member (Value.asOption BlockHash.ofJson) none hash⟩
  | _ => none

def Point.toJson (p : Point) : Value :=
  .record [("slot", .nat p.slot.toNat), ("hash", .option BlockHash.toJson p.hash)]

def Tip.ofJson (v : Value) : Option Tip := do
  match ← v.members ["point", "block_number"] with
  | [some point, some number] => return ⟨← Point.ofJson point, ← number.asUInt64⟩
  | _ => none

end ChainRelay
