import ChainRelay.Json.Reader

/-! What a field of a record asks of its value. A record is an object, or an array of
its fields in order; an object may hold further fields, which are passed over, but
none of the record's own twice. -/
namespace ChainRelay.Json.Value

def asNat (bound : Nat) : Value → Option Nat
  | .number n =>
    if n.isWhole && !n.negative && n.exponent = 0 && n.digits < bound then some n.digits else none
  | _ => none

def asUInt8 (v : Value) : Option UInt8 := (v.asNat UInt8.size).map UInt8.ofNat

def asUInt16 (v : Value) : Option UInt16 := (v.asNat UInt16.size).map UInt16.ofNat

def asUInt32 (v : Value) : Option UInt32 := (v.asNat UInt32.size).map UInt32.ofNat

def asUInt64 (v : Value) : Option UInt64 := (v.asNat UInt64.size).map UInt64.ofNat

def asBool : Value → Option Bool
  | .bool b => some b
  | _ => none

def asString : Value → Option String
  | .text s => s
  | _ => none

def asOption {α : Type} (f : Value → Option α) : Value → Option (Option α)
  | .null => some none
  | v => (f v).map some

def isArray : Value → Bool
  | .array _ => true
  | _ => false

def field? (name : String) (fields : List (Text × Value)) : Option (Option Value) :=
  match fields.filter (·.1 = some name) with
  | [] => some none
  | [(_, v)] => some (some v)
  | _ => none

/-- The values of a record's fields, in order; `none` for one that is missing. -/
def members (names : List String) : Value → Option (List (Option Value))
  | .object fields =>
    if fields.all (·.1.isSome) then names.mapM fun name => field? name fields else none
  | .array items =>
    if items.length ≤ names.length then
      some (items.map some ++ List.replicate (names.length - items.length) none)
    else none
  | _ => none

def member {α : Type} (f : Value → Option α) (fallback : α) : Option Value → Option α
  | none => some fallback
  | some v => f v

end ChainRelay.Json.Value
