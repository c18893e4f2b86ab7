import ChainRelay.Connection.AnyHandle

/-! What an application asks of its agents, and a node of its servers. A request
goes through the handle, so that whatever it makes ready is sent. An agent of
another kind ignores it. -/
namespace ChainRelay

inductive Request where
  | ping (cookie : UInt32)
  | fetch (range : BlockFetch.Range)
  | resetTo (point : Point)
  | setCandidates (points : List Point)
  | requestDone
  | notifyNewBlock
  deriving DecidableEq, Repr

namespace Request

def ofKeepAlive (r : Request) (c : KeepAlive.Client) : KeepAlive.Client :=
  match r with
  | ping cookie => c.ping cookie
  | requestDone => c.requestDone
  | _ => c

def ofBlockFetch (r : Request) (c : BlockFetch.Client) : BlockFetch.Client :=
  match r with
  | fetch range => c.fetch range
  | requestDone => c.requestDone
  | _ => c

def ofChainSync (r : Request) (c : ChainSync.Client) : ChainSync.Client :=
  match r with
  | resetTo point => c.resetTo point
  | setCandidates points => c.setCandidates points
  | requestDone => c.requestDone
  | _ => c

def ofChainServer {σ : Type} (chain : ChainSource σ) (r : Request) (s : ChainSync.Server) (w : σ) :
    ChainSync.Server × σ :=
  match r with
  | notifyNewBlock => s.notifyNewBlock chain w
  | _ => (s, w)

end Request

namespace AnyHandle

variable {σ : Type} (chain : ChainSource σ)

def request (r : Request) (w : σ) : AnyHandle → (Effects AnyEvent × σ) × AnyHandle
  | keepAliveClient h =>
    let (e, h, w) := h.update (KeepAlive.Client.kind σ) (fun c w => (r.ofKeepAlive c, w)) w
    ((effects ⟨.keepAlive, (·.keepAlive?), .keepAlive⟩ e, w), .keepAliveClient h)
  | blockFetchClient h =>
    let (e, h, w) := h.update (BlockFetch.Client.kind σ) (fun c w => (r.ofBlockFetch c, w)) w
    ((effects ⟨.blockFetch, (·.blockFetch?), .blockFetch⟩ e, w), .blockFetchClient h)
  | chainSyncClient h =>
    let (e, h, w) := h.update (ChainSync.Client.kind σ) (fun c w => (r.ofChainSync c, w)) w
    ((effects ⟨.chainSync, (·.chainSync?), .chainSync⟩ e, w), .chainSyncClient h)
  | chainSyncServer h =>
    let (e, h, w) := h.update (ChainSync.Server.kind chain) (r.ofChainServer chain) w
    ((effects ⟨.chainSync, (·.chainSync?), nofun⟩ e, w), .chainSyncServer h)
  | x => ((⟨[], []⟩, w), x)

end AnyHandle
end ChainRelay
