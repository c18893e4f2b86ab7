import ChainRelay.Chain.Header

/-! Blocks as a chain holds them, and what can go wrong when a chain is asked or
changed. -/
namespace ChainRelay

/-- The header is in its stored form and the body is opaque. -/
structure StoredBlock where
  point : Point
  blockNumber : UInt64
  header : Bytes
  body : Bytes
  deriving DecidableEq, Repr, Inhabited

namespace StoredBlock

def ofHeader (header : HeaderContent) (blockNumber : UInt64) (body : Bytes) :
    Except Cbor.Error StoredBlock := do
  let point ← header.point
  return ⟨point, blockNumber, ← header.encode, body⟩

def hash (b : StoredBlock) : BlockHash := b.point.hash.getD .zero

def tip (b : StoredBlock) : Tip := ⟨b.point, b.blockNumber⟩

end StoredBlock

inductive AppendResult where
  | appended
  | alreadyExists
  deriving DecidableEq, Repr

inductive ChainError where
  | database
  | codec (error : Cbor.Error)
  | notFound (point : Point)
  | notExtending (slot tipSlot : UInt64)
  | migration (version : Nat)
  | unavailable (reason : String)
  deriving DecidableEq, Repr

/-- What a database says about a refused statement is not worded further. -/
def ChainError.message : ChainError → String
  | .database => "database error: "
  | .codec e => s!"codec error: {e.message}"
  | .notFound p => s!"point not on chain: {p.display}"
  | .notExtending slot tipSlot =>
    s!"block at slot {slot} does not extend tip at slot {tipSlot}"
  | .migration version => s!"migration error: unknown migration version: {version}"
  | .unavailable reason => s!"backend unavailable: {reason}"

def ChainError.kind : ChainError → String
  | .database => "Database"
  | .codec _ => "Codec"
  | .notFound _ => "NotFound"
  | .notExtending _ _ => "NotExtending"
  | .migration _ => "Migration"
  | .unavailable _ => "Unavailable"

end ChainRelay
