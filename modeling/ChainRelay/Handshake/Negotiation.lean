import ChainRelay.Handshake.VersionData
import ChainRelay.Handshake.VersionMap

/-! Choosing the version of a connection. A proposal's parameters stay in wire form
until a version is chosen, so those of other versions never decide anything. -/
namespace ChainRelay
open Cbor (Value Error)

abbrev VersionTable := VersionMap VersionData

abbrev ProposedVersions := VersionMap Value

namespace VersionTable

def nodeToNode (networkMagic : UInt64) : VersionTable :=
  .ofList <| [7, 8, 9, 10, 11, 12, 13, 14].map fun v => (v, VersionData.new networkMagic)

def nodeToClient (networkMagic : UInt64) : VersionTable :=
  .ofList <| [16, 17, 18, 19, 20, 21].map fun v =>
    (VersionData.clientFlag ||| v, VersionData.new networkMagic)

def intoQuery (t : VersionTable) : VersionTable := t.map fun _ d => { d with query := true }

def toCbor (t : VersionTable) : Value :=
  .map (t.entries.map fun (v, d) => (.unsigned v, d.toCbor v))

def entryOfCbor (entry : Value × Value) : Except Error (UInt64 × VersionData) := do
  let version ← entry.1.asUnsigned "version number"
  return (version, ← VersionData.ofCbor version entry.2)

def ofCbor : Value → Except Error VersionTable
  | .map entries => do return .ofList (← entries.mapM entryOfCbor)
  | _ => Value.fault "version table" .notMap

end VersionTable

namespace ProposedVersions

def ofTable (t : VersionTable) : ProposedVersions := t.map fun v d => d.toCbor v

def params (p : ProposedVersions) (version : UInt64) : Option (Except Error VersionData) :=
  (p.get? version).map (VersionData.ofCbor version)

def isReadable (entry : UInt64 × Value) : Bool := (VersionData.ofCbor entry.1 entry.2).toBool

/-- The highest version, if there is one and no entry can be decoded. -/
def unreadable (p : ProposedVersions) : Option UInt64 :=
  if p.entries.any isReadable then none else p.versions.getLast?

def toCbor (p : ProposedVersions) : Value :=
  .map (p.entries.map fun (v, params) => (.unsigned v, params))

def ofCbor : Value → Except Error ProposedVersions
  | .map entries => do
    let keyed ← entries.mapM fun e => do return (← e.1.asUnsigned "version number", e.2)
    return .ofList keyed
  | _ => Value.fault "version table" .notMap

end ProposedVersions

inductive RefuseReason where
  /-- no common version; the refusing side's versions -/
  | versionMismatch (versions : List UInt64)
  | decodeError (version : UInt64) (message : String)
  | refused (version : UInt64) (message : String)
  deriving DecidableEq, Repr

namespace RefuseReason

def displayList (versions : List UInt64) : String :=
  "[" ++ ", ".intercalate (versions.map toString) ++ "]"

def display : RefuseReason → String
  | versionMismatch versions => s!"version mismatch, peer supports {displayList versions}"
  | decodeError version message => s!"decode error for version {version}: {message}"
  | refused version message => s!"refused version {version}: {message}"

def toCbor : RefuseReason → Value
  | versionMismatch versions => .array [.unsigned 0, .array (versions.map .unsigned)]
  | decodeError version message => .array [.unsigned 1, .unsigned version, .text message]
  | refused version message => .array [.unsigned 2, .unsigned version, .text message]

def worded (fields : List Value) : Except Error (UInt64 × String) :=
  match fields with
  | [version, message] => do
    let version ← version.asUnsigned "version number"
    return (version, ← message.asText "refuse message")
  | fields => Value.fault "refuse reason" (.fieldCount 2 fields.length)

def ofCbor (v : Value) : Except Error RefuseReason := do
  match ← v.splitMessage "refuse reason" with
  | (0, [versions]) =>
    let items ← versions.asArray "version mismatch"
    return versionMismatch (← items.mapM (·.asUnsigned "version number"))
  | (0, fields) => Value.fault "version mismatch" (.fieldCount 1 fields.length)
  | (1, fields) =>
    let (version, message) ← worded fields
    return decodeError version message
  | (2, fields) =>
    let (version, message) ← worded fields
    return refused version message
  | (tag, _) => .error (.unknownTag "refuse reason" tag)

end RefuseReason

namespace VersionTable

/-- The parameters of a connection: the accepting side's magic, the stricter of the
two sides' limits, and the proposer's query. -/
def combine (own theirs : VersionData) : VersionData where
  networkMagic := own.networkMagic
  initiatorOnly := own.initiatorOnly || theirs.initiatorOnly
  peerSharing := min own.peerSharing theirs.peerSharing
  query := theirs.query

def highestCommon (t : VersionTable) (p : ProposedVersions) : Option (UInt64 × VersionData) :=
  t.entries.reverse.find? fun e => p.contains e.1

def negotiate (t : VersionTable) (p : ProposedVersions) :
    Except RefuseReason (UInt64 × VersionData) :=
  match t.highestCommon p with
  | none =>
    match p.unreadable with
    | some version =>
      .error (.decodeError version "no proposed version has readable parameters")
    | none => .error (.versionMismatch t.versions)
  | some (version, own) =>
    match p.params version with
    | some (.ok theirs) =>
      if own.networkMagic = theirs.networkMagic then .ok (version, combine own theirs)
      else
        .error (.refused version
          s!"network magic mismatch: local {own.networkMagic} remote {theirs.networkMagic}")
    | some (.error e) => .error (.decodeError version e.message)
    | none => .error (.versionMismatch t.versions)

end VersionTable
end ChainRelay
