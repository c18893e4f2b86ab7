import ChainRelay.ChainSync.Message
import ChainRelay.Protocol.Handle

/-! The following side. It looks for the first of its candidate points that the
server knows, then asks for updates and keeps the point it has reached. A roll back
to any other point makes it look for that point again, and so does a reset. -/
namespace ChainRelay.ChainSync

inductive Event where
  | intersectFound (point : Point) (tip : Tip)
  | intersectNotFound (tip : Tip)
  | rollForward (era : UInt64) (header : Bytes) (tip : Tip)
  | rollForwardByron (header : Bytes) (tip : Tip)
  | rollForwardByronBoundary (header : Bytes) (tip : Tip)
  | rollForwardBlock (block : Bytes) (tip : Tip)
  | rollBackward (point : Point) (tip : Tip)
  | awaitReply
  deriving DecidableEq, Repr

structure Client where
  flavor : Flavor
  state : State
  candidates : List Point
  cursor : Option Point
  intersected : Bool
  peerTip : Option Tip
  /-- is the first intersection only a way to learn the peer's tip? -/
  followTip : Bool
  doneRequested : Bool
  listeners : Listeners Event
  deriving Repr

namespace Client

def new (candidates : List Point) (flavor : Flavor := .headers) : Client :=
  ⟨flavor, .idle, candidates, none, false, none, false, false, .empty⟩

/-- Start at the peer's tip: intersect at the origin, then again at the tip that
comes with the answer. -/
def fromTip (flavor : Flavor := .headers) : Client :=
  { new [.origin] flavor with followTip := true }

/-- Forget the cursor and intersect again from `p`. -/
def resetTo (p : Point) (c : Client) : Client :=
  { c with cursor := none, intersected := false, candidates := [p] }

def setCandidates (candidates : List Point) (c : Client) : Client :=
  { c with candidates, intersected := false }

def requestDone (c : Client) : Client := { c with doneRequested := true }

def produce (c : Client) : Option Message :=
  if c.doneRequested then some .done
  else if c.intersected then some .requestNext
  else if c.candidates.isEmpty then none
  else some (.findIntersect c.candidates)

def report (event : Event) (c : Client) : Client :=
  { c with listeners := c.listeners.notify event }

def forwardEvent (tip : Tip) : HeaderContent → Event
  | .shelley era b => .rollForward era b tip
  | .byronMain _ b => .rollForwardByron b tip
  | .byronBoundary _ b => .rollForwardByronBoundary b tip
  | .block b => .rollForwardBlock b tip

/-- The cursor moves if the header tells its point. -/
def forward (header : HeaderContent) (tip : Tip) (c : Client) : Client :=
  let c := match header.point with
    | .ok p => { c with cursor := some p }
    | .error _ => c
  c.report (forwardEvent tip header)

def backward (p : Point) (tip : Tip) (c : Client) : Client :=
  let c :=
    if c.cursor = some p then c
    else { c with cursor := some p, candidates := [p], intersected := false }
  c.report (.rollBackward p tip)

def found (p : Point) (tip : Tip) (c : Client) : Client :=
  let c := c.report (.intersectFound p tip)
  if c.followTip then { c with followTip := false, candidates := [tip.point] }
  else { c with cursor := some p, intersected := true }

def received (m : Message) (c : Client) : Client :=
  match m with
  | .intersectFound p tip => found p tip { c with peerTip := some tip }
  | .intersectNotFound tip =>
    { c with peerTip := some tip, candidates := [] }.report (.intersectNotFound tip)
  | .rollForward header tip => forward header tip { c with peerTip := some tip }
  | .rollBackward p tip => backward p tip { c with peerTip := some tip }
  | .awaitReply => c.report .awaitReply
  | _ => c

def reset (c : Client) : Client :=
  { c with
    state := protocol.initial
    candidates := match c.cursor with | some p => [p] | none => c.candidates
    cursor := none
    intersected := false
    doneRequested := false }

def kind (σ : Type) : AgentKind σ Client State Message Event where
  protocol := protocol
  number c := c.flavor.number
  role _ := .client
  state c := c.state
  withState state c := { c with state }
  produce := produce
  sent _ c := c
  received m c w := (c.received m, w)
  reset := reset
  backlog _ := 1
  listeners c := c.listeners
  withListeners listeners c := { c with listeners }

end Client
end ChainRelay.ChainSync
