import ChainRelay.Json.Value

/-! JSON out of text. A reader takes the characters that are left and gives a result
with the characters left after it; any fault ends the whole reading. -/
namespace ChainRelay.Json

def isBlank (c : Char) : Bool := c = ' ' || c = '\t' || c = '\n' || c = '\r'

def skipBlanks (s : List Char) : List Char := s.dropWhile isBlank

def hexDigit? (c : Char) : Option Nat :=
  if '0' ≤ c && c ≤ '9' then some (c.toNat - 48)
  else if 'a' ≤ c && c ≤ 'f' then some (c.toNat - 87)
  else if 'A' ≤ c && c ≤ 'F' then some (c.toNat - 55)
  else none

/-- A piece of a string: a character, or a number written after `\u`. -/
inductive Piece where
  | char (c : Char)
  | unit (n : Nat)
  deriving DecidableEq, Repr

def escape? : Char → Option Char
  | '"' => some '"'
  | '\\' => some '\\'
  | '/' => some '/'
  | 'b' => some '\x08'
  | 'f' => some '\x0c'
  | 'n' => some '\n'
  | 'r' => some '\r'
  | 't' => some '\t'
  | _ => none

/-- The pieces up to the closing quote. Control characters must be escaped. -/
def readPieces : List Char → Option (List Piece × List Char)
  | [] => none
  | '"' :: rest => some ([], rest)
  | '\\' :: 'u' :: a :: b :: c :: d :: rest => do
    let n := (((← hexDigit? a) * 16 + (← hexDigit? b)) * 16 + (← hexDigit? c)) * 16 + (← hexDigit? d)
    let (pieces, rest) ← readPieces rest
    return (.unit n :: pieces, rest)
  | '\\' :: e :: rest => do
    let c ← escape? e
    let (pieces, rest) ← readPieces rest
    return (.char c :: pieces, rest)
  | c :: rest => do
    if c.toNat < 0x20 || c = '\\' then none
    let (pieces, rest) ← readPieces rest
    return (.char c :: pieces, rest)

def isHighHalf (n : Nat) : Bool := 0xd800 ≤ n && n < 0xdc00

def isLowHalf (n : Nat) : Bool := 0xdc00 ≤ n && n < 0xe000

/-- Two halves of a surrogate pair, next to each other, are one character. -/
def assemble : List Piece → Option (List Char)
  | [] => some []
  | .char c :: rest => (assemble rest).map (c :: ·)
  | .unit high :: .unit low :: rest =>
    if isHighHalf high then
      if isLowHalf low then
        (assemble rest).map (Char.ofNat (0x10000 + (high - 0xd800) * 0x400 + (low - 0xdc00)) :: ·)
      else none
    else if isLowHalf high then none
    else (assemble (.unit low :: rest)).map (Char.ofNat high :: ·)
  | .unit n :: rest =>
    if isHighHalf n || isLowHalf n then none else (assemble rest).map (Char.ofNat n :: ·)

def readText (s : List Char) : Option (Text × List Char) := do
  let (pieces, rest) ← readPieces s
  return ((assemble pieces).map String.ofList, rest)

def readDigits (s : List Char) : Option (List Char × List Char) :=
  let digits := s.takeWhile Char.isDigit
  if digits.isEmpty then none else some (digits, s.dropWhile Char.isDigit)

def digitValue (c : Char) : Nat := c.toNat - 48

def natOfDigits (ds : List Char) : Nat := ds.foldl (fun n c => n * 10 + digitValue c) 0

/-- Append digits to a number while it fits 64 bits; the rest are left over. -/
def appendDigits (n : Nat) : List Char → Nat × List Char
  | [] => (n, [])
  | c :: rest =>
    let m := n * 10 + digitValue c
    if m < UInt64.size then appendDigits m rest else (n, c :: rest)

/-- The number with these digits before and behind the point. Digits before the point
that do not fit count for the power of ten; digits behind it are still appended after
such, as long as they fit. -/
def numberOfDigits (negative : Bool) (whole fraction : List Char) (exponent : Option Int) : Number :=
  let (n, beyond) := appendDigits 0 whole
  let (n, unread) := appendDigits n fraction
  ⟨negative, n, exponent.getD 0 + beyond.length - (fraction.length - unread.length),
    fraction.isEmpty && exponent.isNone⟩

def readFraction : List Char → Option (List Char × List Char)
  | '.' :: rest => readDigits rest
  | s => some ([], s)

def readExponent : List Char → Option (Option Int × List Char)
  | 'e' :: rest | 'E' :: rest => do
    let (sign, rest) := match rest with
      | '-' :: rest => (-1, rest)
      | '+' :: rest => (1, rest)
      | rest => ((1 : Int), rest)
    let (digits, rest) ← readDigits rest
    return (some (sign * natOfDigits digits), rest)
  | s => some (none, s)

def readNumber (s : List Char) : Option (Number × List Char) := do
  let (negative, s) := match s with
    | '-' :: rest => (true, rest)
    | s => (false, s)
  let (whole, s) ← match s with
    | '0' :: rest => some (['0'], rest)
    | s => readDigits s
  let (fraction, s) ← readFraction s
  let (exponent, s) ← readExponent s
  return (numberOfDigits negative whole fraction exponent, s)

mutual

/-- A value at the front, blanks before it allowed. Each call takes a character, so
that the number of characters is fuel enough. -/
def readValue : Nat → List Char → Option (Value × List Char)
  | 0, _ => none
  | fuel + 1, s =>
    match skipBlanks s with
    | 'n' :: 'u' :: 'l' :: 'l' :: rest => some (.null, rest)
    | 't' :: 'r' :: 'u' :: 'e' :: rest => some (.bool true, rest)
    | 'f' :: 'a' :: 'l' :: 's' :: 'e' :: rest => some (.bool false, rest)
    | '"' :: rest => (readText rest).map fun (s, rest) => (.text s, rest)
    | '[' :: rest =>
      match skipBlanks rest with
      | ']' :: rest => some (.array [], rest)
      | rest => (readItems fuel rest).map fun (items, rest) => (.array items, rest)
    | '{' :: rest =>
      match skipBlanks rest with
      | '}' :: rest => some (.object [], rest)
      | rest => (readFields fuel rest).map fun (fields, rest) => (.object fields, rest)
    | s => (readNumber s).map fun (n, rest) => (.number n, rest)

def readItems : Nat → List Char → Option (List Value × List Char)
  | 0, _ => none
  | fuel + 1, s => do
    let (v, rest) ← readValue fuel s
    match skipBlanks rest with
    | ',' :: rest =>
      let (items, rest) ← readItems fuel rest
      return (v :: items, rest)
    | ']' :: rest => return ([v], rest)
    | _ => none

def readFields : Nat → List Char → Option (List (Text × Value) × List Char)
  | 0, _ => none
  | fuel + 1, s =>
    match skipBlanks s with
    | '"' :: rest => do
      let (name, rest) ← readText rest
      match skipBlanks rest with
      | ':' :: rest =>
        let (v, rest) ← readValue fuel rest
        match skipBlanks rest with
        | ',' :: rest =>
          let (fields, rest) ← readFields fuel rest
          return ((name, v) :: fields, rest)
        | '}' :: rest => return ([(name, v)], rest)
        | _ => none
      | _ => none
    | _ => none

end

def Value.parse (text : String) : Option Value :=
  let s := text.toList
  match readValue (2 * s.length + 2) s with
  | some (v, rest) => if (skipBlanks rest).isEmpty then some v else none
  | none => none

end ChainRelay.Json
