import ChainRelay.Connection.AnyHandle
import ChainRelay.Node.Config
import ChainRelay.Session.Error

/-! What a client node brings to a connection: the handshake, the agents that the
application asked for, and pings where the family of protocols has them. -/
namespace ChainRelay

inductive NodeError where
  | session (error : SessionError)
  | config (detail : String)
  deriving DecidableEq, Repr

def NodeError.message : NodeError → String
  | session e => s!"session error: {e.message}"
  | config detail => s!"invalid configuration: {detail}"

def NodeError.kind : NodeError → String
  | session e => e.kind
  | config _ => "Config"

structure ClientAgents where
  handshake : AnyHandle
  chainSync : Option AnyHandle
  blockFetch : Option AnyHandle
  keepAlive : Option AnyHandle
  deriving Repr

namespace ClientAgents

def build (config : NodeConfig) (chainSync : Option ChainSync.Client)
    (blockFetch : Option BlockFetch.Client) : Except NodeError ClientAgents :=
  if config.nodeToClient && blockFetch.isSome then
    .error (.config "block-fetch is not part of the node-to-client protocol family")
  else
    .ok {
      handshake := .handshake (.new (.new .client config.versions))
      chainSync := chainSync.map fun c =>
        .chainSyncClient (.new (if config.nodeToClient then { c with flavor := .blocks } else c))
      blockFetch := blockFetch.map fun c => .blockFetchClient (.new c)
      keepAlive := if config.nodeToClient then none else some (.keepAliveClient (.new .new)) }

def inOrder (a : ClientAgents) : List AnyHandle :=
  a.chainSync.toList ++ a.blockFetch.toList ++ a.keepAlive.toList

end ClientAgents
end ChainRelay
