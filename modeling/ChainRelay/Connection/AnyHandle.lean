import ChainRelay.BlockFetch.Client
import ChainRelay.BlockFetch.Server
import ChainRelay.ChainSync.Client
import ChainRelay.ChainSync.Server
import ChainRelay.Handshake.Party
import ChainRelay.KeepAlive.Client
import ChainRelay.KeepAlive.Server

/-! A handle of any agent that a connection can carry. An operation is written once,
for every kind of agent, and `AnyHandle.visit` applies it. -/
namespace ChainRelay

inductive AnyMessage where
  | handshake (m : Handshake.Message)
  | chainSync (m : ChainSync.Message)
  | blockFetch (m : BlockFetch.Message)
  | keepAlive (m : KeepAlive.Message)
  deriving Repr

inductive AnyEvent where
  | handshake (e : Handshake.Event)
  | chainSync (e : ChainSync.Event)
  | blockFetch (e : BlockFetch.Event)
  | keepAlive (e : KeepAlive.Event)
  deriving Repr

namespace AnyMessage

def handshake? : AnyMessage → Option Handshake.Message
  | handshake m => some m
  | _ => none

def chainSync? : AnyMessage → Option ChainSync.Message
  | chainSync m => some m
  | _ => none

def blockFetch? : AnyMessage → Option BlockFetch.Message
  | blockFetch m => some m
  | _ => none

def keepAlive? : AnyMessage → Option KeepAlive.Message
  | keepAlive m => some m
  | _ => none

def name : AnyMessage → String
  | handshake m => m.name
  | chainSync m => m.name
  | blockFetch m => m.name
  | keepAlive m => m.name

def encode : AnyMessage → Except Cbor.Error Bytes
  | handshake m => Handshake.protocol.encode m
  | chainSync m => ChainSync.protocol.encode m
  | blockFetch m => BlockFetch.protocol.encode m
  | keepAlive m => KeepAlive.protocol.encode m

end AnyMessage

inductive Family where
  | handshake
  | chainSync
  | blockFetch
  | keepAlive
  deriving DecidableEq, Repr

namespace Family

/-- Chain sync has two numbers, one for each flavor. -/
def ofNumber? (n : UInt16) : Option Family :=
  if n = Handshake.number then some handshake
  else if n = ChainSync.Flavor.headers.number || n = ChainSync.Flavor.blocks.number then
    some chainSync
  else if n = BlockFetch.number then some blockFetch
  else if n = KeepAlive.number then some keepAlive
  else none

def decode (f : Family) (b : Bytes) : Except Cbor.Error AnyMessage :=
  match f with
  | handshake => .handshake <$> Handshake.protocol.decode b
  | chainSync => .chainSync <$> ChainSync.protocol.decode b
  | blockFetch => .blockFetch <$> BlockFetch.protocol.decode b
  | keepAlive => .keepAlive <$> KeepAlive.protocol.decode b

end Family

inductive AnyHandle where
  | handshake (h : Handle Handshake.Party)
  | chainSyncClient (h : Handle ChainSync.Client)
  | chainSyncServer (h : Handle ChainSync.Server)
  | blockFetchClient (h : Handle BlockFetch.Client)
  | blockFetchServer (h : Handle BlockFetch.Server)
  | keepAliveClient (h : Handle KeepAlive.Client)
  | keepAliveServer (h : Handle KeepAlive.Server)
  deriving Repr

/-- How the messages and events of one agent kind stand among all. -/
structure Casing (Message Event : Type) where
  wrap : Message → AnyMessage
  unwrap : AnyMessage → Option Message
  event : Event → AnyEvent

namespace AnyHandle

variable {σ : Type} (chain : ChainSource σ)

def visit {R : Type} (f : ∀ {A S M E : Type}, AgentKind σ A S M E → Casing M E → Handle A →
    R × Handle A) : AnyHandle → R × AnyHandle
  | handshake h =>
    let (r, h) := f (Handshake.Party.kind σ) ⟨.handshake, (·.handshake?), .handshake⟩ h
    (r, .handshake h)
  | chainSyncClient h =>
    let (r, h) := f (ChainSync.Client.kind σ) ⟨.chainSync, (·.chainSync?), .chainSync⟩ h
    (r, .chainSyncClient h)
  | chainSyncServer h =>
    let (r, h) := f (ChainSync.Server.kind chain) ⟨.chainSync, (·.chainSync?), nofun⟩ h
    (r, .chainSyncServer h)
  | blockFetchClient h =>
    let (r, h) := f (BlockFetch.Client.kind σ) ⟨.blockFetch, (·.blockFetch?), .blockFetch⟩ h
    (r, .blockFetchClient h)
  | blockFetchServer h =>
    let (r, h) := f (BlockFetch.Server.kind chain) ⟨.blockFetch, (·.blockFetch?), nofun⟩ h
    (r, .blockFetchServer h)
  | keepAliveClient h =>
    let (r, h) := f (KeepAlive.Client.kind σ) ⟨.keepAlive, (·.keepAlive?), .keepAlive⟩ h
    (r, .keepAliveClient h)
  | keepAliveServer h =>
    let (r, h) := f (KeepAlive.Server.kind σ) ⟨.keepAlive, (·.keepAlive?), nofun⟩ h
    (r, .keepAliveServer h)

def inspect {R : Type} (f : ∀ {A S M E : Type}, AgentKind σ A S M E → A → R) (x : AnyHandle) : R :=
  (x.visit chain fun k _ h => (f k h.agent, h)).1

def family : AnyHandle → Family
  | handshake _ => .handshake
  | chainSyncClient _ | chainSyncServer _ => .chainSync
  | blockFetchClient _ | blockFetchServer _ => .blockFetch
  | keepAliveClient _ | keepAliveServer _ => .keepAlive

def line : AnyHandle → Option Line
  | handshake h => h.line
  | chainSyncClient h => h.line
  | chainSyncServer h => h.line
  | blockFetchClient h => h.line
  | blockFetchServer h => h.line
  | keepAliveClient h => h.line
  | keepAliveServer h => h.line

def isBound (x : AnyHandle) : Bool := x.line.isSome

def role (x : AnyHandle) : Role := x.inspect chain fun k a => k.role a

def isDone (x : AnyHandle) : Bool := x.inspect chain fun k a => k.isDone a

def inbound (x : AnyHandle) : Channel :=
  x.inspect chain fun k a => ⟨k.number a, (k.role a).inbound⟩

def effects {M E : Type} (c : Casing M E) (e : Effects E) : Effects AnyEvent :=
  ⟨e.sent, e.calls.map fun (id, event) => (id, c.event event)⟩

def deliver (payload : Bytes) (w : σ) (x : AnyHandle) : (Effects AnyEvent × σ) × AnyHandle :=
  x.visit chain fun k c h =>
    let (e, h, w) := h.deliver k payload w
    ((effects c e, w), h)

/-- Take in a message that has been decoded; one of another protocol is dropped. -/
def receive (m : AnyMessage) (w : σ) (x : AnyHandle) :
    (Except Violation Unit × Effects AnyEvent × σ) × AnyHandle :=
  x.visit chain fun k c h =>
    match c.unwrap m with
    | none => ((.ok (), ⟨[], []⟩, w), h)
    | some m =>
      let (r, e, h, w) := h.receive k m w
      ((r, effects c e, w), h)

def sendNext (x : AnyHandle) : (Except AgentError Bool × Effects AnyEvent) × AnyHandle :=
  x.visit chain fun k c h =>
    let (r, e, h) := h.sendNext k
    ((r, effects c e), h)

/-- The message that the agent would send next, whoever holds agency. -/
def produce (x : AnyHandle) : Option AnyMessage :=
  (x.visit chain fun k c h => ((k.produce h.agent).map c.wrap, h)).1

def takeNext (x : AnyHandle) : Option AnyMessage × AnyHandle :=
  x.visit chain fun k c h =>
    match k.takeNext h.agent with
    | none => (none, h)
    | some (m, agent) => (some (c.wrap m), { h with agent })

def drain (x : AnyHandle) : List AnyMessage × AnyHandle :=
  x.visit chain fun k c h =>
    let (ms, agent) := k.drain h.agent
    (ms.map c.wrap, { h with agent })

def addListener (x : AnyHandle) : Except AgentError Nat × AnyHandle :=
  x.visit chain fun k _ h =>
    match k.addListener h.agent with
    | .error e => (.error e, h)
    | .ok (id, agent) => (.ok id, { h with agent })

def removeListener (id : Nat) (x : AnyHandle) : Bool × AnyHandle :=
  x.visit chain fun k _ h =>
    let (was, agent) := k.removeListener id h.agent
    (was, { h with agent })

def takeCalls (x : AnyHandle) : List (Nat × AnyEvent) × AnyHandle :=
  x.visit chain fun k c h =>
    let (calls, agent) := k.takeCalls h.agent
    (calls.map fun (id, event) => (id, c.event event), { h with agent })

def bind (line : Line) (x : AnyHandle) : (Except AgentError Unit × Effects AnyEvent) × AnyHandle :=
  x.visit chain fun k c h =>
    let (r, e, h) := h.bind k line
    ((r, effects c e), h)

def unbind (x : AnyHandle) : AnyHandle := (x.visit chain fun _ _ h => ((), h.unbind)).2

def closeLine (x : AnyHandle) : AnyHandle := (x.visit chain fun _ _ h => ((), h.closeLine)).2

def reset (x : AnyHandle) : AnyHandle := (x.visit chain fun k _ h => ((), h.reset k)).2

def sealListeners (x : AnyHandle) : AnyHandle := (x.visit chain fun k _ h => ((), h.sealListeners k)).2

end AnyHandle
end ChainRelay
