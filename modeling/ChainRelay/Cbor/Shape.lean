import ChainRelay.Cbor.Error

/-! Taking an item apart. Each function looks for one shape and, where it does not
find it, names the defect and the place, so that message readers never index
blindly. -/
namespace ChainRelay.Cbor

def embeddedTag : UInt64 := 24

namespace Value

def embed (b : Bytes) : Value := tag embeddedTag (bytes b)

def fault {α : Type} (context : String) (defect : Defect) : Except Error α :=
  .error (.shape context defect)

def asArray (context : String) : Value → Except Error (List Value)
  | array items => .ok items
  | v => fault context (.notArray v.kind)

def asArrayOf (n : Nat) (context : String) (v : Value) : Except Error (List Value) := do
  let items ← v.asArray context
  if items.length = n then return items else fault context (.itemCount n items.length)

def asUnsigned (context : String) : Value → Except Error UInt64
  | unsigned n => .ok n
  | negative _ => fault context .negative
  | v => fault context (.notUnsigned v.kind)

def asBool (context : String) : Value → Except Error Bool
  | bool b => .ok b
  | v => fault context (.notBool v.kind)

def asBytes (context : String) : Value → Except Error Bytes
  | bytes b => .ok b
  | v => fault context (.notBytes v.kind)

def asText (context : String) : Value → Except Error String
  | text s => .ok s
  | v => fault context (.notText v.kind)

def asEmbedded (context : String) (v : Value) : Except Error Bytes :=
  match v with
  | tag number inner =>
    if number = embeddedTag then inner.asBytes context else fault context (.notEmbedded v.kind)
  | v => fault context (.notEmbedded v.kind)

def splitMessage (context : String) (v : Value) : Except Error (UInt64 × List Value) := do
  match ← v.asArray context with
  | [] => fault context .emptyMessage
  | first :: fields => return (← first.asUnsigned context, fields)

def expectFields (n : Nat) (context : String) (fields : List Value) : Except Error Unit :=
  if fields.length = n then .ok () else fault context (.fieldCount n fields.length)

end Value
end ChainRelay.Cbor
