import ChainRelay.Text.Quoted

/-! The level from which log lines are written, named by a word of either case or
by a number from 1 to 5. -/
namespace ChainRelay.Telemetry

inductive Level where
  | error
  | warn
  | info
  | debug
  | trace
  deriving DecidableEq, Repr

def levelNames : List (String × Level) :=
  [("error", .error), ("warn", .warn), ("info", .info), ("debug", .debug), ("trace", .trace)]

/-- Decimal digits, perhaps behind a plus sign. -/
def number? (s : String) : Option Nat :=
  let digits := match s.toList with
    | '+' :: rest => rest
    | cs => cs
  if !digits.isEmpty && digits.all Char.isDigit then
    some (digits.foldl (fun n c => n * 10 + (c.toNat - 48)) 0)
  else none

def Level.ofNumber? : Nat → Option Level
  | 1 => some error
  | 2 => some warn
  | 3 => some info
  | 4 => some debug
  | 5 => some trace
  | _ => none

def Level.ofText? (s : String) : Option Level :=
  match (number? s).bind ofNumber? with
  | some level => some level
  | none => levelNames.lookup (s.map Char.toLower)

def level (s : String) : Except String Level :=
  match Level.ofText? s with
  | some level => .ok level
  | none => .error s!"invalid log level {Text.quote s}"

end ChainRelay.Telemetry
