/-! JSON values as they are written. An object keeps its fields in order, repeated
ones included, and a text says whether its escapes spell characters, because not
every place where a value can stand asks for the same care. -/
namespace ChainRelay.Json

/-- A number: its leading digits, as many as fit 64 bits, times a power of ten. -/
structure Number where
  negative : Bool
  digits : Nat
  exponent : Int
  /-- written without a fraction and without an exponent -/
  isWhole : Bool
  deriving DecidableEq, Repr

/-- A string, or `none` if half of a surrogate pair stands alone in it. -/
abbrev Text := Option String

inductive Value where
  | null
  | bool (b : Bool)
  | number (n : Number)
  | text (s : Text)
  | array (items : List Value)
  | object (fields : List (Text × Value))
  deriving Repr, Inhabited

/-- The halfway point between the largest double and what would follow it. -/
def doubleBound : Nat := 1 <<< 1024 - 1 <<< 970

/-- A whole number to 53 significant bits; a tie goes to the even neighbour. -/
def roundToDouble (n : Nat) : Nat :=
  let shift := n.log2 - 52
  let (kept, rest) := (n >>> shift, n % (1 <<< shift))
  let isUp := 1 <<< shift < 2 * rest || (1 <<< shift = 2 * rest && kept % 2 = 1)
  (if isUp then kept + 1 else kept) <<< shift

/-- Can the number be held as a double? It is computed as a product of two doubles,
the digits and the power of ten, each rounded before, and may be too large only by
that. What is too small becomes zero. -/
def Number.fitsDouble (n : Number) : Bool :=
  n.digits = 0 || n.exponent < 0 ||
    (n.exponent ≤ 308 &&
      roundToDouble n.digits * roundToDouble (Nat.pow 10 n.exponent.toNat) < doubleBound)

namespace Value

def nat (n : Nat) : Value := .number ⟨false, n, 0, true⟩

def string (s : String) : Value := .text (some s)

def option {α : Type} (f : α → Value) : Option α → Value
  | none => .null
  | some a => f a

def record (fields : List (String × Value)) : Value :=
  .object (fields.map fun (name, v) => (some name, v))

mutual

def depth : Value → Nat
  | .array items => depthItems items + 1
  | .object fields => depthFields fields + 1
  | _ => 0

def depthItems : List Value → Nat
  | [] => 0
  | v :: rest => max v.depth (depthItems rest)

def depthFields : List (Text × Value) → Nat
  | [] => 0
  | (_, v) :: rest => max v.depth (depthFields rest)

end

mutual

def isPlain : Value → Bool
  | .number n => n.fitsDouble
  | .text s => s.isSome
  | .array items => plainItems items
  | .object fields => plainFields fields
  | _ => true

def plainItems : List Value → Bool
  | [] => true
  | v :: rest => v.isPlain && plainItems rest

def plainFields : List (Text × Value) → Bool
  | [] => true
  | (name, v) :: rest => name.isSome && v.isPlain && plainFields rest

end

end Value
end ChainRelay.Json
