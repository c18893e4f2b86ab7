import ChainRelay.Connection.AnyHandle
import ChainRelay.Report.Basic

/-! Messages, events and the state of agents as JSON. -/
namespace ChainRelay.Report
open Json (Value)

def proposed (p : ProposedVersions) : Value :=
  list (fun (v, _) => pair (long v) (.option (fun
    | .ok d => VersionData.toJson d
    | .error e => codecError e) (p.params v))) p.entries

def messageFields : AnyMessage → List (String × Value)
  | .handshake (.proposeVersions p) =>
    [("proposed", proposed p), ("len", num p.size), ("empty", p.isEmpty)]
  | .handshake (.acceptVersion v d) => [("version", long v), ("data", d.toJson)]
  | .handshake (.refuse r) => [("reason", reason r)]
  | .handshake (.queryReply t) => [("table", table t)]
  | .chainSync (.rollForward h t) => [("header", header h), ("tip", tip t)]
  | .chainSync (.rollBackward p t) | .chainSync (.intersectFound p t) =>
    [("point", point p), ("tip", tip t)]
  | .chainSync (.findIntersect ps) => [("points", list point ps)]
  | .chainSync (.intersectNotFound t) => [("tip", tip t)]
  | .blockFetch (.requestRange r) => [("from", point r.first), ("to", point r.last)]
  | .blockFetch (.block b) => [("body", bytes b)]
  | .keepAlive (.ping c) | .keepAlive (.response c) => [("cookie", num c.toNat)]
  | _ => []

def message (m : AnyMessage) : Value := .record (("type", Value.string m.name) :: messageFields m)

def packet (p : Packet) : List (String × Value) :=
  [("protocol", num p.channel.protocol.toNat), ("mode", p.channel.mode.name), ("payload", bytes p.payload)]

def reading (p : Packet) : Value :=
  .option message ((Family.ofNumber? p.channel.protocol).bind fun f => (f.decode p.payload).toOption)

def demuxError (e : DemuxError) : Value :=
  .record (errorFields e.kind e.message ++
    [("protocol", num e.channel.protocol.toNat), ("mode", e.channel.mode.name)])

def agentError (e : AgentError) : Value := error e.kind e.message

/-- The name of the observer's call and its arguments. A range is named by its first
point. -/
def event : AnyEvent → List (String × Value)
  | .handshake (.accepted v d) => [("on", "handshake_ok"), ("version", long v), ("data", d.toJson)]
  | .handshake (.refused r) => [("on", "handshake_error"), ("reason", reason r)]
  | .chainSync (.intersectFound p t) => [("on", "intersect_found"), ("point", point p), ("tip", tip t)]
  | .chainSync (.intersectNotFound t) => [("on", "intersect_not_found"), ("tip", tip t)]
  | .chainSync (.rollForward era h t) =>
    [("on", "roll_forward"), ("era", long era), ("header", bytes h), ("tip", tip t)]
  | .chainSync (.rollForwardByron h t) =>
    [("on", "roll_forward_byron"), ("header", bytes h), ("tip", tip t)]
  | .chainSync (.rollForwardByronBoundary h t) =>
    [("on", "roll_forward_byron_ebb"), ("header", bytes h), ("tip", tip t)]
  | .chainSync (.rollForwardBlock b t) =>
    [("on", "roll_forward_block"), ("block", bytes b), ("tip", tip t)]
  | .chainSync (.rollBackward p t) => [("on", "roll_backward"), ("point", point p), ("tip", tip t)]
  | .chainSync .awaitReply => [("on", "await_reply")]
  | .blockFetch (.batchStarted r) => [("on", "batch_started"), ("from", point r.first)]
  | .blockFetch (.batchDone r) => [("on", "batch_done"), ("from", point r.first)]
  | .blockFetch (.noBlocks r) => [("on", "no_blocks"), ("from", point r.first)]
  | .blockFetch (.blockReceived b) => [("on", "block_received"), ("body", bytes b)]
  | .keepAlive (.response c) => [("on", "keep_alive_response"), ("cookie", num c.toNat)]

def work : AnyHandle → List (String × Value)
  | .handshake h =>
    [("outcome", .option outcome h.agent.outcome), ("negotiated", .option agreed h.agent.negotiated),
      ("versions", list long h.agent.versions.versions)]
  | .chainSyncClient h =>
    [("cursor", .option point h.agent.cursor), ("peer_tip", .option tip h.agent.peerTip),
      ("intersected", h.agent.intersected)]
  | .chainSyncServer h =>
    [("last_sent", .option point h.agent.lastSent), ("tip_waiting", h.agent.tipWaiting),
      ("pending", num h.agent.replies.length)]
  | .blockFetchClient h =>
    [("in_flight", .option (fun r : BlockFetch.Range => pair (point r.first) (point r.last)) h.agent.inFlight)]
  | .blockFetchServer h => [("pending", num h.agent.replies.length)]
  | .keepAliveClient h => [("waiting", h.agent.isWaiting), ("has_rtt", h.agent.answered)]
  | .keepAliveServer _ => []

def agent {σ : Type} (chain : ChainSource σ) (x : AnyHandle) : List (String × Value) :=
  x.inspect chain (fun k a =>
    [("state", Value.string (k.protocol.stateName (k.state a))), ("agency", k.hasAgency a),
      ("done", k.isDone a)]) ++ work x

end ChainRelay.Report
