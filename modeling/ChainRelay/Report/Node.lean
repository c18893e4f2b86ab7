import ChainRelay.Network.Basic
import ChainRelay.Report.Agent

/-! Client nodes as JSON: their state, and what they and their agents have reported. -/
namespace ChainRelay.Report
open Json (Value)

def nodeError (e : NodeError) : Value := error e.kind e.message

def source : AnyEvent → String
  | .handshake _ => "handshake"
  | .chainSync _ => "chain_sync"
  | .blockFetch _ => "block_fetch"
  | .keepAlive _ => "keep_alive"

def sessionEvent : SessionEvent → Value
  | .connected peer v d =>
    .record [("on", "connected"), ("peer", peer), ("version", long v), ("data", d.toJson)]
  | .disconnected peer => .record [("on", "disconnected"), ("peer", peer)]
  | .connectFailed k m => .record [("on", "connect_failed"), ("attempt", num k), ("message", m)]

def notice (client : Nat) : Notice → Option (String × Value)
  | .session c _ e => if c = client then some ("session", sessionEvent e) else none
  | .start c .started => if c = client then some ("start", .record [("on", "started")]) else none
  | .start c (.failed e) =>
    let e := NodeError.session e
    if c = client then
      some ("start", .record (("on", "start_failed") :: errorFields e.kind e.message))
    else none
  | .shutDown c => if c = client then some ("shutdown", .record [("on", "shut_down")]) else none
  | .closed c => if c = client then some ("wait_closed", .record [("on", "closed")]) else none

/-- Values by their keys, in the order in which keys and values first come. -/
def grouped (entries : List (String × Value)) : Value :=
  .record ((entries.map (·.1)).eraseDups.map fun key =>
    (key, .array ((entries.filter (·.1 = key)).map (·.2))))

/-- What a client tells: its state and its agents', and the events since they were
last taken. The cookies of pings may be left out. -/
def client {σ : Type} (showCookies : Bool) (n : Network σ) (i : Nat) (c : ClientNode) : Value :=
  let handle (place : Nat) := n.board.handles[place]?
  let calls := (n.board.calls.filter fun k => c.crew.places.contains k.place).map fun k =>
    (source k.event, Value.record ((event k.event).filter fun f => showCookies || f.1 ≠ "cookie"))
  let negotiated := match handle c.crew.handshake with
    | some (.handshake h) => h.agent.negotiated
    | _ => none
  let part (key : String) (place : Option Nat) : List (String × Value) :=
    ((place.bind handle).map fun x => (key, Value.record (work x))).toList
  .record ([("state", Value.string c.state.name), ("negotiated", .option agreed negotiated),
      ("events", grouped (calls ++ n.notices.filterMap (notice i)))] ++
    part "chain_sync" c.chainSync ++ part "block_fetch" c.blockFetch ++ part "keep_alive" c.keepAlive)

end ChainRelay.Report
