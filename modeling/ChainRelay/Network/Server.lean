import ChainRelay.Network.Basic

/-! Server nodes in the network: whom they let in, and each peer's way through the
gate. -/
namespace ChainRelay.Network

variable {σ : Type} (chain : ChainSource σ)

def setHost (h : Nat) (host : Host) (n : Network σ) : Network σ :=
  { n with hosts := n.hosts.set h host }

def closeHost (h : Nat) (host : Host) (n : Network σ) : Network σ :=
  (n.stopListening host.acceptor).setHost h { host with isAccepting := false, isStopping := true }

def addHandles (handles : List AnyHandle) (n : Network σ) : List Nat × Network σ :=
  handles.foldl (fun (places, n) x =>
    let (place, board) := n.board.add x
    (places ++ [place], { n with board })) (([] : List Nat), n)

def onGate (peer : Peer) (f : Gate → Board σ → Gate × Board σ) (n : Network σ) : Peer × Network σ :=
  let worked := n.onWire peer.wire fun l b =>
    let (g, b) := f ⟨peer.crew, l, peer.phase⟩ b
    (g.phase, g.link, b)
  match worked with
  | some (phase, n) => ({ peer with phase }, n)
  | none => ({ peer with phase := .ended }, n)

/-- A stream has been accepted: beyond the permitted number it is closed at once. -/
def welcome (h : Nat) (host : Host) (stream : StreamEnd) (n : Network σ) : Network σ :=
  let config := host.node.config
  if config.maxConnections.any (·.toNat ≤ host.peers.length) then n.close stream
  else
    let (handshake, board) := n.board.add host.node.handshake
    let (agents, n) := { n with board }.addHandles host.node.agents
    let (wire, n) := n.addWire stream config.maxMessageLen.toNat
    let crew : Crew := ⟨handshake, agents⟩
    let peer : Peer := ⟨crew, wire, .waiting, n.now + config.handshakeTimeout.toNat⟩
    let (peer, n) := n.onGate peer fun g b => Gate.begin chain g.crew g.link b
    n.setHost h { host with peers := host.peers ++ [peer] }

/-- Let a peer go on: through the gate once the handshake has an outcome, and away
when its connection is closed, its time is up or the server stops. -/
def movePeer (host : Host) (peer : Peer) (n : Network σ) : Option (Peer × Network σ) :=
  let isWaiting := peer.phase = .waiting
  if isWaiting && (n.board.outcome peer.crew.handshake).isSome then
    some (n.onGate peer fun g b => g.look chain b)
  else if host.isStopping || !n.isWireOpen peer.wire || (isWaiting && peer.limit ≤ n.now) then
    some (n.onGate peer fun g b => g.finish chain b)
  else none

def movePeers (h : Nat) (host : Host) (n : Network σ) : Option (Network σ) :=
  host.peers.zipIdx.findSome? fun (peer, i) =>
    (n.movePeer chain host peer).map fun (peer, n) =>
      let peers := if peer.phase = .ended then host.peers.eraseIdx i else host.peers.set i peer
      n.setHost h { host with peers }

/-- Let a server go on with its acceptor. Once nobody can dial it any more, it stops
as if it had been told to. -/
def moveAcceptor (h : Nat) (host : Host) (n : Network σ) : Option (Network σ) :=
  if !host.isAccepting then none
  else if host.isStopping then some (n.closeHost h host)
  else
    match n.accept host.acceptor with
    | some (stream, n) => some (n.welcome chain h host stream)
    | none => if n.listener ≠ some host.acceptor then some (n.closeHost h host) else none

def moveHosts (n : Network σ) : Option (Network σ) :=
  n.hosts.zipIdx.findSome? fun (host, h) => n.movePeers chain h host

def moveAcceptors (n : Network σ) : Option (Network σ) :=
  n.hosts.zipIdx.findSome? fun (host, h) => n.moveAcceptor chain h host

/-! ### What may be asked of a server -/

def serve (node : NodeServer) (n : Network σ) : Nat × Network σ :=
  let (acceptor, n) := n.listen
  (n.hosts.length, { n with hosts := n.hosts ++ [⟨node, acceptor, true, false, []⟩] })

def stop (h : Nat) (n : Network σ) : Network σ :=
  { n with hosts := n.hosts.modify h fun host => { host with isStopping := true } }

def served (h : Nat) (n : Network σ) : List Peer :=
  match n.hosts[h]? with
  | some host => host.peers.filter (·.phase = .serving)
  | none => []

def notifyNewBlock (h : Nat) (n : Network σ) : Network σ :=
  (n.served h).foldl (fun n peer =>
    n.onBoard fun b => peer.crew.agents.foldl (fun b place =>
      b.request chain place .notifyNewBlock) b) n

end ChainRelay.Network
