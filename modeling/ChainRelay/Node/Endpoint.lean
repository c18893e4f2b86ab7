import ChainRelay.Json.Shape

/-! Where a node listens. In JSON the field `type` says which kind it is, or the first
item of an array whose other items are the fields in order; whatever else an object
holds must be values that can be held. -/
namespace ChainRelay
open Json (Value)

inductive Endpoint where
  | tcp (host : String) (portNumber : UInt16)
  | unix (path : String)
  deriving DecidableEq, Repr, Inhabited

namespace Endpoint

def describe : Endpoint → String
  | tcp host number => s!"{host}:{number}"
  | unix path => path

def depthLimit : Nat := 127

def splitKind : Value → Option (String × Value)
  | .object fields => do
    let kind ← (← Value.field? "type" fields).bind Value.asString
    return (kind, .object (fields.filter (·.1 ≠ some "type")))
  | .array (kind :: rest) => do return (← kind.asString, .array rest)
  | _ => none

def ofJson (outer : Nat) (v : Value) : Option Endpoint := do
  if !v.isPlain || v.depth + outer > depthLimit then none
  match ← splitKind v with
  | ("tcp", rest) =>
    match ← rest.members ["host", "port"] with
    | [some host, some number] => return tcp (← host.asString) (← number.asUInt16)
    | _ => none
  | ("unix", rest) =>
    match ← rest.members ["path"] with
    | [some path] => return unix (← path.asString)
    | _ => none
  | _ => none

def toJson : Endpoint → Value
  | tcp host number =>
    .record [("type", .string "tcp"), ("host", .string host), ("port", .nat number.toNat)]
  | unix path => .record [("type", .string "unix"), ("path", .string path)]

end Endpoint
end ChainRelay
