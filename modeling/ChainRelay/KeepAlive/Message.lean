import ChainRelay.Cbor.Shape
import ChainRelay.Protocol.Basic

/-! Keep-alive: the client pings with a cookie and the server echoes it.

* ping `[0, cookie]`
* response `[1, cookie]`
* done `[2]`
-/
namespace ChainRelay.KeepAlive
open Cbor (Value Error)

inductive Message where
  | ping (cookie : UInt32)
  | response (cookie : UInt32)
  | done
  deriving DecidableEq, Repr

inductive State where
  | client
  | server
  | done
  deriving DecidableEq, Repr

def State.name : State → String
  | client => "Client"
  | server => "Server"
  | done => "Done"

def State.agency : State → Agency
  | client => .client
  | server => .server
  | done => .nobody

def protocolName : String := "keep-alive"

namespace Message

def name : Message → String
  | ping _ => "KeepAlive"
  | response _ => "KeepAliveResponse"
  | done => "Done"

def toCbor : Message → Value
  | ping cookie => .array [.unsigned 0, .unsigned cookie.toUInt64]
  | response cookie => .array [.unsigned 1, .unsigned cookie.toUInt64]
  | done => .array [.unsigned 2]

def cookieOfCbor (v : Value) : Except Error UInt32 := do
  let n ← v.asUnsigned "keep-alive cookie"
  if n < 0x100000000 then return n.toUInt32 else Value.fault "keep-alive cookie" .tooLarge

def ofCbor (v : Value) : Except Error Message := do
  match ← v.splitMessage protocolName with
  | (0, [cookie]) => return ping (← cookieOfCbor cookie)
  | (0, fields) => Value.fault "MsgKeepAlive" (.fieldCount 1 fields.length)
  | (1, [cookie]) => return response (← cookieOfCbor cookie)
  | (1, fields) => Value.fault "MsgKeepAliveResponse" (.fieldCount 1 fields.length)
  | (2, []) => return done
  | (2, fields) => Value.fault "MsgDone" (.fieldCount 0 fields.length)
  | (tag, _) => .error (.unknownTag protocolName tag)

end Message

def State.move : State → Message → Option State
  | client, .ping _ => some server
  | client, .done => some done
  | server, .response _ => some client
  | _, _ => none

def protocol : Protocol State Message where
  name := protocolName
  initial := .client
  agency := State.agency
  move := State.move
  stateName := State.name
  messageName := Message.name
  toCbor := Message.toCbor
  ofCbor := Message.ofCbor

def number : UInt16 := 8

end ChainRelay.KeepAlive
