import ChainRelay.Text.Quoted

/-! Byte strings are plain lists. Numbers are written big-endian at a fixed
width, and hexadecimal text is lower case when written and of either case when
read. Reading hexadecimal reports the first fault: an odd length before anything
else, then the leftmost character that is no digit. -/
namespace ChainRelay

abbrev Bytes := List UInt8

namespace Bytes

def ofText (s : String) : Bytes := s.toUTF8.data.toList

def toText? (b : Bytes) : Option String := String.fromUTF8? ⟨b.toArray⟩

/-- The low `width` base-256 digits of `n`, most significant first. -/
def ofNat : Nat → Nat → Bytes
  | 0, _ => []
  | width + 1, n => UInt8.ofNat (n >>> (8 * width)) :: ofNat width n

def toNat (b : Bytes) : Nat := b.foldl (fun n d => n * 256 + d.toNat) 0

@[simp] theorem length_ofNat (width n : Nat) : (ofNat width n).length = width := by
  induction width with
  | zero => rfl
  | succ width ih => simp [ofNat, ih]

def hexDigit (n : Nat) : Char := if n < 10 then Char.ofNat (48 + n) else Char.ofNat (87 + n)

def hexValue? (b : UInt8) : Option UInt8 :=
  if 48 ≤ b && b ≤ 57 then some (b - 48)
  else if 97 ≤ b && b ≤ 102 then some (b - 87)
  else if 65 ≤ b && b ≤ 70 then some (b - 55)
  else none

def toHex (b : Bytes) : String :=
  String.ofList (b.flatMap fun x => [hexDigit (x.toNat / 16), hexDigit (x.toNat % 16)])

end Bytes

inductive HexError where
  | oddLength
  | invalidDigit (digit : UInt8) (index : Nat)
  | wrongSize
  deriving DecidableEq, Repr

/-- A byte that is no digit is shown as the character with its number. -/
def HexError.message : HexError → String
  | .oddLength => "Odd number of digits"
  | .invalidDigit digit index =>
    s!"Invalid character {Text.quoteChar (Char.ofNat digit.toNat)} at position {index}"
  | .wrongSize => "Invalid string length"

def HexError.kind : HexError → String
  | .oddLength => "OddLength"
  | .invalidDigit _ _ => "InvalidHexCharacter"
  | .wrongSize => "InvalidStringLength"

namespace Bytes

def ofHexDigits (index : Nat) (acc : Bytes) : Bytes → Except HexError Bytes
  | high :: low :: rest =>
    match hexValue? high, hexValue? low with
    | some h, some l => ofHexDigits (index + 2) ((h * 16 + l) :: acc) rest
    | none, _ => .error (.invalidDigit high index)
    | _, none => .error (.invalidDigit low (index + 1))
  | _ => .ok acc.reverse

def ofHex (s : String) : Except HexError Bytes :=
  let digits := ofText s
  if digits.length % 2 = 1 then .error .oddLength else ofHexDigits 0 [] digits

end Bytes
end ChainRelay
