import ChainRelay.Connection.AnyHandle
import ChainRelay.Server.Config

/-! What a server node brings to each connection. -/
namespace ChainRelay

structure NodeServer where
  networkMagic : UInt64
  nodeToClient : Bool
  config : ServerConfig
  rollbackWindow : Nat
  maxBatch : Nat
  deriving Repr

namespace NodeServer

def new (networkMagic : UInt64) : NodeServer :=
  ⟨networkMagic, false, .standard, ChainSync.Server.defaultWindow, BlockFetch.Server.defaultMaxBatch⟩

def handshake (s : NodeServer) : AnyHandle :=
  let versions := if s.nodeToClient then VersionTable.nodeToClient s.networkMagic
    else .nodeToNode s.networkMagic
  .handshake (.new (.new .server versions))

def agents (s : NodeServer) : List AnyHandle :=
  if s.nodeToClient then [.chainSyncServer (.new (.new .blocks s.rollbackWindow))]
  else
    [.chainSyncServer (.new (.new .headers s.rollbackWindow)),
      .blockFetchServer (.new (.new s.maxBatch)), .keepAliveServer (.new .new)]

end NodeServer
end ChainRelay
