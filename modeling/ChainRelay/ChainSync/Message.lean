import ChainRelay.Chain.Header
import ChainRelay.Protocol.Basic

/-! Chain sync: the client finds a common point with the server's chain and then
asks for one update after the other.

* request next `[0]`
* await reply `[1]`
* roll forward `[2, header, tip]`
* roll backward `[3, point, tip]`
* find intersect `[4, [point*]]`
* intersect found `[5, point, tip]`
* intersect not found `[6, tip]`
* done `[7]`

A request is answered at once by an update or, at the tip, by a promise to send
one, after which the server must.
-/
namespace ChainRelay.ChainSync
open Cbor (Value Error)

inductive Message where
  | requestNext
  | awaitReply
  | rollForward (header : HeaderContent) (tip : Tip)
  | rollBackward (point : Point) (tip : Tip)
  | findIntersect (points : List Point)
  | intersectFound (point : Point) (tip : Tip)
  | intersectNotFound (tip : Tip)
  | done
  deriving DecidableEq, Repr

inductive State where
  | idle
  | intersect
  | canAwait
  | mustReply
  | done
  deriving DecidableEq, Repr

def State.name : State → String
  | idle => "Idle"
  | intersect => "Intersect"
  | canAwait => "CanAwait"
  | mustReply => "MustReply"
  | done => "Done"

def State.agency : State → Agency
  | idle => .client
  | intersect | canAwait | mustReply => .server
  | done => .nobody

def protocolName : String := "chain-sync"

namespace Message

def name : Message → String
  | requestNext => "RequestNext"
  | awaitReply => "AwaitReply"
  | rollForward _ _ => "RollForward"
  | rollBackward _ _ => "RollBackward"
  | findIntersect _ => "FindIntersect"
  | intersectFound _ _ => "IntersectFound"
  | intersectNotFound _ => "IntersectNotFound"
  | done => "Done"

def toCbor : Message → Value
  | requestNext => .array [.unsigned 0]
  | awaitReply => .array [.unsigned 1]
  | rollForward header tip => .array [.unsigned 2, header.toCbor, tip.toCbor]
  | rollBackward point tip => .array [.unsigned 3, point.toCbor, tip.toCbor]
  | findIntersect points => .array [.unsigned 4, .array (points.map Point.toCbor)]
  | intersectFound point tip => .array [.unsigned 5, point.toCbor, tip.toCbor]
  | intersectNotFound tip => .array [.unsigned 6, tip.toCbor]
  | done => .array [.unsigned 7]

def ofCbor (v : Value) : Except Error Message := do
  match ← v.splitMessage protocolName with
  | (0, []) => return requestNext
  | (0, fields) => Value.fault "MsgRequestNext" (.fieldCount 0 fields.length)
  | (1, []) => return awaitReply
  | (1, fields) => Value.fault "MsgAwaitReply" (.fieldCount 0 fields.length)
  | (2, [header, tip]) => return rollForward (← HeaderContent.ofCbor header) (← Tip.ofCbor tip)
  | (2, fields) => Value.fault "MsgRollForward" (.fieldCount 2 fields.length)
  | (3, [point, tip]) => return rollBackward (← Point.ofCbor point) (← Tip.ofCbor tip)
  | (3, fields) => Value.fault "MsgRollBackward" (.fieldCount 2 fields.length)
  | (4, [points]) =>
    return findIntersect (← (← points.asArray "MsgFindIntersect").mapM Point.ofCbor)
  | (4, fields) => Value.fault "MsgFindIntersect" (.fieldCount 1 fields.length)
  | (5, [point, tip]) => return intersectFound (← Point.ofCbor point) (← Tip.ofCbor tip)
  | (5, fields) => Value.fault "MsgIntersectFound" (.fieldCount 2 fields.length)
  | (6, [tip]) => return intersectNotFound (← Tip.ofCbor tip)
  | (6, fields) => Value.fault "MsgIntersectNotFound" (.fieldCount 1 fields.length)
  | (7, []) => return done
  | (7, fields) => Value.fault "MsgDone" (.fieldCount 0 fields.length)
  | (tag, _) => .error (.unknownTag protocolName tag)

end Message

def State.move : State → Message → Option State
  | idle, .requestNext => some canAwait
  | idle, .findIntersect _ => some intersect
  | idle, .done => some done
  | canAwait, .awaitReply => some mustReply
  | canAwait, .rollForward _ _ | canAwait, .rollBackward _ _ => some idle
  | mustReply, .rollForward _ _ | mustReply, .rollBackward _ _ => some idle
  | intersect, .intersectFound _ _ | intersect, .intersectNotFound _ => some idle
  | _, _ => none

def protocol : Protocol State Message where
  name := protocolName
  initial := .idle
  agency := State.agency
  move := State.move
  stateName := State.name
  messageName := Message.name
  toCbor := Message.toCbor
  ofCbor := Message.ofCbor

/-- What a roll-forward carries: headers between nodes, whole blocks to a client.
Each has its own protocol number. -/
inductive Flavor where
  | headers
  | blocks
  deriving DecidableEq, Repr, Inhabited

def Flavor.number : Flavor → UInt16
  | headers => 2
  | blocks => 5

end ChainRelay.ChainSync
