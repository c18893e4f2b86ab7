import ChainRelay.Cbor.Error
import ChainRelay.Cbor.Head

/-! Reading one item from the front of a byte string. Heads may be wider than
needed and strings and containers may be of indefinite form. Containers and tags
nest at most 256 deep; the budget is the recursion. The two loops whose end the
input announces by a break are bounded by the number of bytes at hand, which they
never reach, because each round uses one. -/
namespace ChainRelay.Cbor

def maxDepth : Nat := 256

namespace Reader

variable {α : Type}

/-- `n` items in a row, in front of those already read, which are in reverse. -/
def countFrom (item : Reader α) : Nat → List α → Reader (List α)
  | 0, read => fun b => .done read.reverse b
  | n + 1, read => fun b =>
    match item b with
    | .done v rest => countFrom item n (v :: read) rest
    | .incomplete => .incomplete
    | .malformed => .malformed

def count (item : Reader α) (n : Nat) : Reader (List α) := countFrom item n []

def untilStopFrom (item : Reader α) : Nat → List α → Reader (List α)
  | 0, _ => fun _ => .incomplete
  | fuel + 1, read => fun b =>
    match b with
    | 0xff :: rest => .done read.reverse rest
    | _ =>
      match item b with
      | .done v rest => untilStopFrom item fuel (v :: read) rest
      | .incomplete => .incomplete
      | .malformed => .malformed

def untilStop (item : Reader α) (fuel : Nat) : Reader (List α) := untilStopFrom item fuel []

def items (fuel : Nat) (item : Reader α) : Option Nat → Reader (List α)
  | some n => count item n
  | none => untilStop item fuel

def pair (item : Reader α) : Reader (α × α) := do
  let key ← item
  let value ← item
  return (key, value)

/-- The segments of a string of indefinite form, in order: those of definite form,
each put through `segment`, and those of further strings of indefinite form. `still`
counts the strings that are open beyond the outermost, and `read` holds the segments
already read, in reverse. -/
def segments (segment : Nat → Reader α) (own : Head → Option (Option Nat)) :
    Nat → Nat → List α → Reader (List α)
  | 0, _, _ => fun _ => .incomplete
  | fuel + 1, still, read => fun b =>
    match Head.read b with
    | .done .stop rest =>
      match still with
      | 0 => .done read.reverse rest
      | still + 1 => segments segment own fuel still read rest
    | .done head rest =>
      match own head with
      | some none => segments segment own fuel (still + 1) read rest
      | some (some n) =>
        match segment n rest with
        | .done part rest => segments segment own fuel still (part :: read) rest
        | .incomplete => .incomplete
        | .malformed => .malformed
      | none => .malformed
    | .incomplete => .incomplete
    | .malformed => .malformed

def windowSize : Nat := 4096

/-- How many bytes at the end of a window belong to a character that may go on in
the next one. No character leaves more than three. -/
def unfinished? (window : Bytes) : Option Nat :=
  [0, 1, 2, 3].find? fun k => (Bytes.toText? (window.take (window.length - k))).isSome

/-- Does a window that the input fills show that no text begins so? A window starts
with what the one before it left unfinished. -/
def isBrokenFor : Nat → Bytes → Bool
  | 0, _ => false
  | fuel + 1, b =>
    let window := b.take windowSize
    if window.length < windowSize then false
    else
      match unfinished? window with
      | some k => isBrokenFor fuel (b.drop (windowSize - k))
      | none => true

def isBroken (b : Bytes) : Bool := isBrokenFor (b.length / (windowSize - 3) + 1) b

/-- `n` bytes that are UTF-8. Where the input ends before them, it may still be
broken already. -/
def utf8 (n : Nat) : Reader String := fun b =>
  match take n b with
  | .done part rest =>
    match Bytes.toText? part with
    | some s => .done s rest
    | none => .malformed
  | .incomplete => if isBroken b then .malformed else .incomplete
  | .malformed => .malformed

def byteLength : Head → Option (Option Nat)
  | .bytes n => some n
  | _ => none

def textLength : Head → Option (Option Nat)
  | .text n => some n
  | _ => none

end Reader

namespace Value

/-- The longest content of tags 2 and 3 that is taken as a big number. -/
def maxBigLength : Nat := 16

def dropZeros (b : Bytes) : Bytes := b.dropWhile (· = 0)

def isBigTag (number : UInt64) : Bool := number = 2 || number = 3

def ofBig (isNegative : Bool) (content : Bytes) : Reader Value :=
  let n := Bytes.toNat content
  if n < UInt64.size then
    return if isNegative then negative (UInt64.ofNat n) else unsigned (UInt64.ofNat n)
  else if isNegative && 1 <<< 127 ≤ n then Reader.malformed
  else return tag (if isNegative then 3 else 2) (bytes (dropZeros content))

def ofSimple (number : UInt8) : Reader Value :=
  if number = 20 then return bool false
  else if number = 21 then return bool true
  else if number = 22 || number = 23 then return null
  else Reader.malformed

/-- The rest of an item whose head has been read. `nested` reads what lies one
level deeper, and is `none` where no level is left. A tag is known to be too deep only
once the head after it has been read, because a big number takes no level. -/
def ofHead (fuel : Nat) (nested : Option (Head → Reader Value)) : Head → Reader Value
  | .unsigned n => return unsigned n
  | .negative n => return negative n
  | .bytes (some n) => do return bytes (← Reader.take n)
  | .bytes none => do
    return bytes (← Reader.segments Reader.take Reader.byteLength fuel 0 []).flatten
  | .text (some n) => do return text (← Reader.utf8 n)
  | .text none => do
    return text (String.join (← Reader.segments Reader.utf8 Reader.textLength fuel 0 []))
  | .array length =>
    match nested with
    | some inner => do return array (← Reader.items fuel (Head.read >>= inner) length)
    | none => Reader.malformed
  | .map length =>
    match nested with
    | some inner => do return map (← Reader.items fuel (Reader.pair (Head.read >>= inner)) length)
    | none => Reader.malformed
  | .tag number => do
    let head ← Head.read
    match isBigTag number, head with
    | true, .bytes (some n) =>
      if n ≤ maxBigLength then ofBig (number = 3) (← Reader.take n) else tagged number head
    | _, _ => tagged number head
  | .simple number => ofSimple number
  | .float bits => return float bits
  | .stop => Reader.malformed
where
  tagged (number : UInt64) (head : Head) : Reader Value :=
    match nested with
    | some inner => do return tag number (← inner head)
    | none => Reader.malformed

def readAt (fuel : Nat) : Nat → Head → Reader Value
  | 0 => ofHead fuel none
  | depth + 1 => ofHead fuel (some (readAt fuel depth))

def read : Reader Value := fun b => (Head.read >>= readAt (b.length + 1) maxDepth) b

end Value

/-- The first item and the number of bytes it uses; `none` if the input ends
before the item does. -/
def decodePrefix (b : Bytes) : Except Error (Option (Value × Nat)) :=
  match Value.read b with
  | .done v rest => .ok (some (v, b.length - rest.length))
  | .incomplete => .ok none
  | .malformed => .error .malformed

def decode (b : Bytes) : Except Error Value :=
  match Value.read b with
  | .done v [] => .ok v
  | .done _ rest => .error (.trailing rest.length)
  | .incomplete => .error .truncated
  | .malformed => .error .malformed

end ChainRelay.Cbor
