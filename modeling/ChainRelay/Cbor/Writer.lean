import ChainRelay.Cbor.Error

/-! The canonical form of an item: shortest heads, definite lengths, map entries
in the order of their written keys, entries with equal keys as given. Floats have a
written form here but no canonical one, and `encode` refuses an item with a float
anywhere. -/
namespace ChainRelay.Cbor

def bytesLe (a b : Bytes) : Bool := decide (a ≤ b)

def head (major : Nat) (n : Nat) : Bytes :=
  let initial (info : Nat) : UInt8 := UInt8.ofNat (32 * major + info)
  if n < 24 then [initial n]
  else if n < UInt8.size then initial 24 :: Bytes.ofNat 1 n
  else if n < UInt16.size then initial 25 :: Bytes.ofNat 2 n
  else if n < UInt32.size then initial 26 :: Bytes.ofNat 4 n
  else initial 27 :: Bytes.ofNat 8 n

namespace Value

def joinEntries (written : List (Bytes × Bytes)) : Bytes :=
  (written.mergeSort fun x y => bytesLe x.1 y.1).flatMap fun e => e.1 ++ e.2

mutual

def write : Value → Bytes
  | unsigned n => head 0 n.toNat
  | negative n => head 1 n.toNat
  | bytes b => head 2 b.length ++ b
  | text s => head 3 (Bytes.ofText s).length ++ Bytes.ofText s
  | array items => head 4 items.length ++ writeItems items
  | map entries => head 5 entries.length ++ joinEntries (writeEntries entries)
  | tag number inner => head 6 number.toNat ++ write inner
  | bool b => [if b then 0xf5 else 0xf4]
  | null => [0xf6]
  | float bits => 0xfb :: Bytes.ofNat 8 bits.toNat

def writeItems : List Value → Bytes
  | [] => []
  | v :: vs => write v ++ writeItems vs

def writeEntries : List (Value × Value) → List (Bytes × Bytes)
  | [] => []
  | (k, v) :: es => (write k, write v) :: writeEntries es

end

end Value

def encode (v : Value) : Except Error Bytes :=
  if v.hasFloat then .error .floats else .ok v.write

end ChainRelay.Cbor
