import ChainRelay.Network.Stream
import ChainRelay.Node.Client
import ChainRelay.Node.Server
import ChainRelay.Server.Gate
import ChainRelay.Session.Attempt

/-! Nodes in one memory: streams between them, a clock that moves only when it is
moved, and whatever waits for one or the other. Everything else about a node is its
handles on the board. -/
namespace ChainRelay

structure Acceptor where
  queue : List StreamEnd
  isOpen : Bool
  deriving Repr

structure Wire where
  link : Link
  stream : StreamEnd
  deriving Repr

inductive SessionState where
  | disconnected
  | connecting
  | handshaking
  | active
  deriving DecidableEq, Repr

def SessionState.name : SessionState → String
  | disconnected => "Disconnected"
  | connecting => "Connecting"
  | handshaking => "Handshaking"
  | active => "Active"

inductive Wait where
  | due
  | connecting (limit : Nat)
  | handshaking (wire limit : Nat)
  | pausing (limit : Nat)
  | live (wire : Nat)
  deriving DecidableEq, Repr

def Wait.limit? : Wait → Option Nat
  | connecting limit | handshaking _ limit | pausing limit => some limit
  | due | live _ => none

structure Task where
  id : Nat
  course : Session.Course
  wait : Wait
  deriving Repr

inductive Reach where
  | network
  /-- it dials and is never answered -/
  | nowhere
  deriving DecidableEq, Repr

structure ClientNode where
  config : NodeConfig
  reach : Reach
  crew : Crew
  chainSync : Option Nat
  blockFetch : Option Nat
  keepAlive : Option Nat
  state : SessionState
  isStopping : Bool
  isRunning : Bool
  listeners : Listeners SessionEvent
  tasks : List Task
  nextTask : Nat
  /-- the task that a shutdown has to wait for -/
  supervisor : Option Nat
  leaving : List Nat
  watchers : Nat
  nextPing : Option Nat
  isDropped : Bool
  deriving Repr

structure Peer where
  crew : Crew
  wire : Nat
  phase : GatePhase
  limit : Nat
  deriving Repr

structure Host where
  node : NodeServer
  acceptor : Nat
  isAccepting : Bool
  isStopping : Bool
  peers : List Peer
  deriving Repr

inductive Notice where
  | session (client : Nat) (listener : Nat) (event : SessionEvent)
  | start (client : Nat) (result : StartResult)
  | shutDown (client : Nat)
  | closed (client : Nat)
  deriving Repr

structure Network (σ : Type) where
  name : String
  now : Nat
  board : Board σ
  streams : Streams
  wires : List Wire
  acceptors : List Acceptor
  listener : Option Nat
  hosts : List Host
  clients : List ClientNode
  notices : List Notice

namespace Network

variable {σ : Type}

def new (name : String) (world : σ) : Network σ :=
  ⟨name, 0, .empty world, .empty, [], [], none, [], [], []⟩

def peer (n : Network σ) : String := s!"memory:{n.name}"

def report (notice : Notice) (n : Network σ) : Network σ :=
  { n with notices := n.notices ++ [notice] }

/-! ### Streams -/

def dial (n : Network σ) : Except String (StreamEnd × Network σ) :=
  let refused := .error s!"nothing listening on memory network {n.name}"
  match n.listener with
  | none => refused
  | some i =>
    match n.acceptors[i]? with
    | some a =>
      if a.isOpen then
        let (near, streams) := n.streams.add
        let acceptors := n.acceptors.set i { a with queue := a.queue ++ [near.other] }
        .ok (near, { n with streams, acceptors })
      else refused
    | none => refused

/-- Listen in place of whoever has listened so far. -/
def listen (n : Network σ) : Nat × Network σ :=
  (n.acceptors.length,
    { n with acceptors := n.acceptors ++ [⟨[], true⟩], listener := some n.acceptors.length })

def accept (i : Nat) (n : Network σ) : Option (StreamEnd × Network σ) :=
  match n.acceptors[i]? with
  | some ⟨e :: rest, isOpen⟩ => some (e, { n with acceptors := n.acceptors.set i ⟨rest, isOpen⟩ })
  | _ => none

/-- Accept no more; streams that wait are closed. -/
def stopListening (i : Nat) (n : Network σ) : Network σ :=
  match n.acceptors[i]? with
  | some a =>
    { n with
      acceptors := n.acceptors.set i ⟨[], false⟩
      streams := a.queue.foldl Streams.close n.streams }
  | none => n

def write (e : StreamEnd) (b : Bytes) (n : Network σ) : Option (Network σ) :=
  (n.streams.write e b).map fun streams => { n with streams }

def read (e : StreamEnd) (n : Network σ) : Bytes × Network σ :=
  let (b, streams) := n.streams.read e
  (b, { n with streams })

def close (e : StreamEnd) (n : Network σ) : Network σ := { n with streams := n.streams.close e }

/-! ### The board and the wires -/

def flush (n : Network σ) : Network σ :=
  let streams := n.board.sent.foldl (fun streams s =>
    match n.wires[s.connection]? with
    | some w => (streams.write w.stream (Segment.writeMessage 0 s.packet.channel s.packet.payload)).getD streams
    | none => streams) n.streams
  { n with streams, board := { n.board with sent := [] } }

def onBoard (f : Board σ → Board σ) (n : Network σ) : Network σ :=
  { n with board := f n.board }.flush

/-- Work with a wire's link. A link that comes back closed closes its stream, once
what it has sent is out. -/
def onWire {R : Type} (i : Nat) (f : Link → Board σ → R × Link × Board σ) (n : Network σ) :
    Option (R × Network σ) :=
  match n.wires[i]? with
  | none => none
  | some w =>
    let (r, link, board) := f w.link n.board
    let n := { n with board, wires := n.wires.set i { w with link } }.flush
    some (r, if link.isOpen then n else n.close w.stream)

def addWire (stream : StreamEnd) (limit : Nat) (n : Network σ) : Nat × Network σ :=
  let i := n.wires.length
  (i, { n with wires := n.wires ++ [⟨.new i limit, stream⟩] })

def isWireOpen (i : Nat) (n : Network σ) : Bool :=
  match n.wires[i]? with
  | some w => w.link.isOpen
  | none => false

variable (chain : ChainSource σ)

def closeWire (i : Nat) (n : Network σ) : Network σ :=
  match n.onWire i fun l b => ((), l.close chain b) with
  | some ((), n) => n
  | none => n

def readWire (n : Network σ) : Option (Network σ) :=
  let isReady (w : Wire) : Bool :=
    w.link.isOpen && (!(n.streams.waiting w.stream).isEmpty || n.streams.isAtEnd w.stream)
  match n.wires.findIdx? isReady with
  | none => none
  | some i =>
    match n.wires[i]? with
    | none => none
    | some w =>
      if n.streams.isAtEnd w.stream then some (n.closeWire chain i)
      else
        let (bytes, n) := n.read w.stream
        (n.onWire i fun l b => l.receive chain bytes b).map (·.2)

end Network
end ChainRelay
