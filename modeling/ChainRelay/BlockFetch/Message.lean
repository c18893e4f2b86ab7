import ChainRelay.Chain.Point
import ChainRelay.Protocol.Basic

/-! Block fetch: the client asks for an inclusive range of points, and the server
streams the bodies between a start and an end mark or says that it has none.

* request range `[0, from, to]`
* client done `[1]`
* start batch `[2]`
* no blocks `[3]`
* block `[4, embedded body]`
* batch done `[5]`
-/
namespace ChainRelay.BlockFetch
open Cbor (Value Error)

structure Range where
  first : Point
  last : Point
  deriving DecidableEq, Repr, Inhabited

inductive Message where
  | requestRange (range : Range)
  | clientDone
  | startBatch
  | noBlocks
  | block (body : Bytes)
  | batchDone
  deriving DecidableEq, Repr

inductive State where
  | idle
  | busy
  | streaming
  | done
  deriving DecidableEq, Repr

def State.name : State → String
  | idle => "Idle"
  | busy => "Busy"
  | streaming => "Streaming"
  | done => "Done"

def State.agency : State → Agency
  | idle => .client
  | busy | streaming => .server
  | done => .nobody

def protocolName : String := "block-fetch"

namespace Message

def name : Message → String
  | requestRange _ => "RequestRange"
  | clientDone => "ClientDone"
  | startBatch => "StartBatch"
  | noBlocks => "NoBlocks"
  | block _ => "Block"
  | batchDone => "BatchDone"

def toCbor : Message → Value
  | requestRange r => .array [.unsigned 0, r.first.toCbor, r.last.toCbor]
  | clientDone => .array [.unsigned 1]
  | startBatch => .array [.unsigned 2]
  | noBlocks => .array [.unsigned 3]
  | block body => .array [.unsigned 4, .embed body]
  | batchDone => .array [.unsigned 5]

def bare (m : Message) (fields : List Value) : Except Error Message := do
  Value.expectFields 0 "block-fetch message" fields
  return m

/-- The end of a range is read before its start. -/
def ofCbor (v : Value) : Except Error Message := do
  match ← v.splitMessage protocolName with
  | (0, [first, last]) =>
    let last ← Point.ofCbor last
    let first ← Point.ofCbor first
    return requestRange ⟨first, last⟩
  | (0, fields) => Value.fault "MsgRequestRange" (.fieldCount 2 fields.length)
  | (1, fields) => bare clientDone fields
  | (2, fields) => bare startBatch fields
  | (3, fields) => bare noBlocks fields
  | (4, [body]) => return block (← body.asEmbedded "MsgBlock")
  | (4, fields) => Value.fault "MsgBlock" (.fieldCount 1 fields.length)
  | (5, fields) => bare batchDone fields
  | (tag, _) => .error (.unknownTag protocolName tag)

end Message

def State.move : State → Message → Option State
  | idle, .requestRange _ => some busy
  | idle, .clientDone => some done
  | busy, .startBatch => some streaming
  | busy, .noBlocks => some idle
  | streaming, .block _ => some streaming
  | streaming, .batchDone => some idle
  | _, _ => none

def protocol : Protocol State Message where
  name := protocolName
  initial := .idle
  agency := State.agency
  move := State.move
  stateName := State.name
  messageName := Message.name
  toCbor := Message.toCbor
  ofCbor := Message.ofCbor

def number : UInt16 := 3

end ChainRelay.BlockFetch
