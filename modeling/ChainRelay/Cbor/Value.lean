import ChainRelay.Bytes

/-! A CBOR data item. Integers are split as on the wire, so that every value of
the type lies in the range that one head can carry. Map entries keep the order in
which they were given, and duplicate keys stay. -/
namespace ChainRelay.Cbor

inductive Value where
  | unsigned (n : UInt64)
  /-- stands for `-1 - n` -/
  | negative (n : UInt64)
  | bytes (b : Bytes)
  | text (s : String)
  | array (items : List Value)
  | map (entries : List (Value × Value))
  | tag (number : UInt64) (inner : Value)
  | bool (b : Bool)
  | null
  /-- the bits of a double -/
  | float (bits : UInt64)
  deriving Inhabited, Repr

inductive Kind where
  | integer | bytes | text | array | map | tag | bool | null | float
  deriving DecidableEq, Repr

def Kind.name : Kind → String
  | .integer => "integer"
  | .bytes => "bytes"
  | .text => "text"
  | .array => "array"
  | .map => "map"
  | .tag => "tag"
  | .bool => "bool"
  | .null => "null"
  | .float => "float"

namespace Value

def kind : Value → Kind
  | unsigned _ | negative _ => .integer
  | bytes _ => .bytes
  | text _ => .text
  | array _ => .array
  | map _ => .map
  | tag _ _ => .tag
  | bool _ => .bool
  | null => .null
  | float _ => .float

mutual

def hasFloat : Value → Bool
  | float _ => true
  | array items => anyFloat items
  | map entries => anyEntryFloat entries
  | tag _ inner => hasFloat inner
  | _ => false

def anyFloat : List Value → Bool
  | [] => false
  | v :: vs => hasFloat v || anyFloat vs

def anyEntryFloat : List (Value × Value) → Bool
  | [] => false
  | (k, v) :: es => hasFloat k || hasFloat v || anyEntryFloat es

end

end Value
end ChainRelay.Cbor
