import ChainRelay.Cbor.Shape

/-! The parameters of one protocol version. How many of them the wire carries, and
which, depends on the version. -/
namespace ChainRelay
open Cbor (Value Error)

structure VersionData where
  networkMagic : UInt64
  initiatorOnly : Bool
  peerSharing : UInt8
  query : Bool
  deriving DecidableEq, Repr, Inhabited

namespace VersionData

def clientFlag : UInt64 := 0x8000

def isClientVersion (version : UInt64) : Bool := version &&& clientFlag ≠ 0

/-- From here on versions between nodes carry peer sharing and query. -/
def extendedNode : UInt64 := 11

/-- From here on versions to a client carry query. -/
def extendedClient : UInt64 := 0x800f

def new (networkMagic : UInt64) : VersionData := ⟨networkMagic, false, 0, false⟩

def toCbor (version : UInt64) (d : VersionData) : Value :=
  let magic : Value := .unsigned d.networkMagic
  if isClientVersion version then
    if extendedClient ≤ version then .array [magic, .bool d.query] else magic
  else if extendedNode ≤ version then
    .array [magic, .bool d.initiatorOnly, .unsigned d.peerSharing.toUInt64, .bool d.query]
  else .array [magic, .bool d.initiatorOnly]

def peerSharingOfCbor (v : Value) : Except Error UInt8 := do
  let n ← v.asUnsigned "peer sharing"
  if n < 256 then return n.toUInt8 else Value.fault "peer sharing" .tooLarge

def extend (version : UInt64) (d : VersionData) (items : List Value) : Except Error VersionData :=
  match isClientVersion version, items with
  | _, [] => .ok d
  | true, [query] => do return { d with query := ← query.asBool "query" }
  | false, [initiatorOnly] => do
    return { d with initiatorOnly := ← initiatorOnly.asBool "initiator only" }
  | false, [initiatorOnly, peerSharing, query] => do
    let initiatorOnly ← initiatorOnly.asBool "initiator only"
    let peerSharing ← peerSharingOfCbor peerSharing
    let query ← query.asBool "query"
    return { d with initiatorOnly, peerSharing, query }
  | _, _ => Value.fault "version params" (.versionFields version (items.length + 1))

/-- A bare number is the magic with everything else at its default. -/
def ofCbor (version : UInt64) (v : Value) : Except Error VersionData := do
  match v with
  | .unsigned _ | .negative _ => return new (← v.asUnsigned "version params")
  | _ =>
    match ← v.asArray "version params" with
    | [] => Value.fault "version params" .empty
    | magic :: rest => extend version (new (← magic.asUnsigned "network magic")) rest

end VersionData
end ChainRelay
