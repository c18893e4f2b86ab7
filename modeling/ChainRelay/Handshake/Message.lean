import ChainRelay.Handshake.Negotiation
import ChainRelay.Protocol.Basic

/-! Handshake: the client proposes versions, and the server accepts one, refuses,
or answers a query with its own table.

* propose versions `[0, {version: params}]`
* accept version `[1, version, params]`
* refuse `[2, reason]`
* query reply `[3, {version: params}]`
-/
namespace ChainRelay.Handshake
open Cbor (Value Error)

inductive Message where
  | proposeVersions (proposed : ProposedVersions)
  | acceptVersion (version : UInt64) (data : VersionData)
  | refuse (reason : RefuseReason)
  | queryReply (table : VersionTable)
  deriving Repr

inductive State where
  | propose
  | confirm
  | done
  deriving DecidableEq, Repr

def State.name : State → String
  | propose => "Propose"
  | confirm => "Confirm"
  | done => "Done"

def State.agency : State → Agency
  | propose => .client
  | confirm => .server
  | done => .nobody

def protocolName : String := "handshake"

namespace Message

def name : Message → String
  | proposeVersions _ => "ProposeVersions"
  | acceptVersion _ _ => "AcceptVersion"
  | refuse _ => "Refuse"
  | queryReply _ => "QueryReply"

def toCbor : Message → Value
  | proposeVersions proposed => .array [.unsigned 0, ProposedVersions.toCbor proposed]
  | acceptVersion version data => .array [.unsigned 1, .unsigned version, data.toCbor version]
  | refuse reason => .array [.unsigned 2, reason.toCbor]
  | queryReply table => .array [.unsigned 3, VersionTable.toCbor table]

def ofCbor (v : Value) : Except Error Message := do
  match ← v.splitMessage protocolName with
  | (0, [proposed]) => return proposeVersions (← ProposedVersions.ofCbor proposed)
  | (0, fields) => Value.fault "MsgProposeVersions" (.fieldCount 1 fields.length)
  | (1, [version, data]) =>
    let version ← version.asUnsigned "version number"
    return acceptVersion version (← VersionData.ofCbor version data)
  | (1, fields) => Value.fault "MsgAcceptVersion" (.fieldCount 2 fields.length)
  | (2, [reason]) => return refuse (← RefuseReason.ofCbor reason)
  | (2, fields) => Value.fault "MsgRefuse" (.fieldCount 1 fields.length)
  | (3, [table]) => return queryReply (← VersionTable.ofCbor table)
  | (3, fields) => Value.fault "MsgQueryReply" (.fieldCount 1 fields.length)
  | (tag, _) => .error (.unknownTag protocolName tag)

end Message

def State.move : State → Message → Option State
  | propose, .proposeVersions _ => some confirm
  | confirm, .acceptVersion _ _ | confirm, .refuse _ | confirm, .queryReply _ => some done
  | _, _ => none

def protocol : Protocol State Message where
  name := protocolName
  initial := .propose
  agency := State.agency
  move := State.move
  stateName := State.name
  messageName := Message.name
  toCbor := Message.toCbor
  ofCbor := Message.ofCbor

def number : UInt16 := 0

end ChainRelay.Handshake
