import ChainRelay.Connection.AnyHandle
import ChainRelay.Json.Shape

/-! Golden messages: complete messages as hexadecimal text, which reading and
writing must give back exactly. They pin the codecs to the wire. -/
namespace ChainRelay

structure GoldenVector where
  name : String
  protocol : UInt16
  hex : String
  deriving DecidableEq, Repr

namespace GoldenVector

def ofJson (v : Json.Value) : Option GoldenVector := do
  match ← v.members ["name", "protocol", "hex"] with
  | [some name, some protocol, some hex] =>
    return ⟨← name.asString, ← protocol.asUInt16, ← hex.asString⟩
  | _ => none

def toJson (v : GoldenVector) : Json.Value :=
  .record [("name", .string v.name), ("protocol", .nat v.protocol.toNat), ("hex", .string v.hex)]

inductive Problem where
  | hex (error : HexError)
  | codec (error : Cbor.Error)
  | noCodec (protocol : UInt16)
  deriving DecidableEq, Repr

def Problem.message : Problem → String
  | .hex e => e.message
  | .codec e => e.message
  | .noCodec protocol => s!"no codec for protocol {protocol}"

def reencode (v : GoldenVector) : Except Problem (String × String) := do
  let b ← (Bytes.ofHex v.hex).mapError .hex
  match Family.ofNumber? v.protocol with
  | none => .error (.noCodec v.protocol)
  | some family =>
    let m ← (family.decode b).mapError .codec
    return ((← m.encode.mapError .codec).toHex, m.name)

def all : List GoldenVector :=
  [⟨"keep-alive ping", 8, "820019dd7d"⟩,
   ⟨"keep-alive response beyond u16", 8, "82011a0001869f"⟩,
   ⟨"keep-alive done", 8, "8102"⟩,
   ⟨"chain-sync request next", 2, "8100"⟩,
   ⟨"chain-sync await reply", 2, "8101"⟩,
   ⟨"chain-sync find intersect at origin", 2, "82048180"⟩,
   ⟨"chain-sync intersect not found on empty chain", 2, "8206828000"⟩,
   ⟨"chain-sync done", 2, "8107"⟩,
   ⟨"block-fetch client done", 3, "8101"⟩,
   ⟨"block-fetch start batch", 3, "8102"⟩,
   ⟨"block-fetch no blocks", 3, "8103"⟩,
   ⟨"block-fetch wrapped block", 3, "8204d8184180"⟩,
   ⟨"block-fetch batch done", 3, "8105"⟩,
   ⟨"handshake refuse version mismatch", 0, "82028200820708"⟩,
   ⟨"handshake accept node-to-node v14", 0, "83010e84182af400f4"⟩,
   ⟨"handshake accept node-to-client v16", 0, "830119801082182af4"⟩]

def verify (v : GoldenVector) : Bool × String :=
  match v.reencode with
  | .ok (hex, _) => (hex == v.hex, hex)
  | .error e => (false, e.message)

end GoldenVector
end ChainRelay
