import ChainRelay.Bytes

/-! The head of an item: its major type with the argument that follows, as far as
the item can be told without reading its content. A reader answers one of three
things: the item and the bytes after it, that the input ends too early, or that no
continuation of the input can be read. -/
namespace ChainRelay.Cbor

inductive Outcome (α : Type) where
  | done (value : α) (rest : Bytes)
  | incomplete
  | malformed
  deriving Repr

def Outcome.bind {α β : Type} (o : Outcome α) (f : α → Bytes → Outcome β) : Outcome β :=
  match o with
  | done value rest => f value rest
  | incomplete => incomplete
  | malformed => malformed

def Reader (α : Type) := Bytes → Outcome α

namespace Reader

instance : Monad Reader where
  pure a := fun b => .done a b
  bind r f := fun b => (r b).bind f

def malformed {α : Type} : Reader α := fun _ => .malformed

def byte : Reader UInt8
  | [] => .incomplete
  | x :: rest => .done x rest

def take (n : Nat) : Reader Bytes := fun b =>
  let (front, rest) := b.splitAt n
  if front.length < n then .incomplete else .done front rest

def bigEndian (width : Nat) : Reader Nat := do return Bytes.toNat (← take width)

end Reader

/-- The bits of the double equal to the half-precision number with these bits. A
NaN becomes quiet and keeps its payload. -/
def doubleOfHalf (h : Nat) : Nat :=
  let sign := h >>> 15 <<< 63
  let exponent := h >>> 10 % 32
  let fraction := h % 1024
  if exponent = 31 then
    if fraction = 0 then sign + 2047 <<< 52
    else sign + 2047 <<< 52 + (fraction <<< 42 ||| 1 <<< 51)
  else if exponent = 0 then
    if fraction = 0 then sign
    else
      let top := fraction.log2
      sign + (top + 999) <<< 52 + (fraction - 1 <<< top) <<< (52 - top)
  else sign + (exponent + 1008) <<< 52 + fraction <<< 42

def doubleOfSingle (s : Nat) : Nat :=
  let sign := s >>> 31 <<< 63
  let exponent := s >>> 23 % 256
  let fraction := s % 8388608
  if exponent = 255 then
    if fraction = 0 then sign + 2047 <<< 52
    else sign + 2047 <<< 52 + (fraction <<< 29 ||| 1 <<< 51)
  else if exponent = 0 then
    if fraction = 0 then sign
    else
      let top := fraction.log2
      sign + (top + 874) <<< 52 + (fraction - 1 <<< top) <<< (52 - top)
  else sign + (exponent + 896) <<< 52 + fraction <<< 29

/-- In the four kinds with a length, `none` is the indefinite form. -/
inductive Head where
  | unsigned (n : UInt64)
  | negative (n : UInt64)
  | bytes (length : Option Nat)
  | text (length : Option Nat)
  | array (length : Option Nat)
  | map (length : Option Nat)
  | tag (number : UInt64)
  | simple (number : UInt8)
  | float (bits : UInt64)
  | stop
  deriving DecidableEq, Repr

namespace Head

/-- The argument announced by the low five bits of the initial byte; `none` is the
indefinite form. Forms 28 to 30 are reserved. -/
def argument (info : UInt8) : Reader (Option Nat) :=
  if info < 24 then return some info.toNat
  else if info = 24 then do return some (← Reader.bigEndian 1)
  else if info = 25 then do return some (← Reader.bigEndian 2)
  else if info = 26 then do return some (← Reader.bigEndian 4)
  else if info = 27 then do return some (← Reader.bigEndian 8)
  else if info = 31 then return none
  else Reader.malformed

def definite (info : UInt8) : Reader UInt64 := do
  match ← argument info with
  | some n => return UInt64.ofNat n
  | none => Reader.malformed

def special (info : UInt8) : Reader Head :=
  if info < 24 then return simple info
  else if info = 24 then do return simple (← Reader.byte)
  else if info = 25 then do return float (UInt64.ofNat (doubleOfHalf (← Reader.bigEndian 2)))
  else if info = 26 then do return float (UInt64.ofNat (doubleOfSingle (← Reader.bigEndian 4)))
  else if info = 27 then do return float (UInt64.ofNat (← Reader.bigEndian 8))
  else if info = 31 then return stop
  else Reader.malformed

def read : Reader Head := do
  let first ← Reader.byte
  let info := first &&& 31
  match (first >>> 5).toNat with
  | 0 => return unsigned (← definite info)
  | 1 => return negative (← definite info)
  | 2 => return bytes (← argument info)
  | 3 => return text (← argument info)
  | 4 => return array (← argument info)
  | 5 => return map (← argument info)
  | 6 => return tag (← definite info)
  | _ => special info

end Head
end ChainRelay.Cbor
