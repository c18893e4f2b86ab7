import ChainRelay.BlockFetch.Message
import ChainRelay.Protocol.Handle

/-! The asking side. Ranges wait in a queue, one is in flight at a time, and one
that a reset interrupts goes back to the front of the queue. -/
namespace ChainRelay.BlockFetch

inductive Event where
  | batchStarted (range : Range)
  | blockReceived (body : Bytes)
  | batchDone (range : Range)
  | noBlocks (range : Range)
  deriving DecidableEq, Repr

structure Client where
  state : State
  queued : List Range
  inFlight : Option Range
  doneRequested : Bool
  listeners : Listeners Event
  deriving Repr

namespace Client

def new : Client := ⟨.idle, [], none, false, .empty⟩

def fetch (range : Range) (c : Client) : Client := { c with queued := c.queued ++ [range] }

def requestDone (c : Client) : Client := { c with doneRequested := true }

def produce (c : Client) : Option Message :=
  match c.queued with
  | range :: _ => some (.requestRange range)
  | [] => if c.doneRequested then some .clientDone else none

def sent (m : Message) (c : Client) : Client :=
  match m with
  | .requestRange _ => { c with queued := c.queued.tail, inFlight := c.queued.head? }
  | _ => c

def report (event : Event) (c : Client) : Client :=
  { c with listeners := c.listeners.notify event }

def received (m : Message) (c : Client) : Client :=
  match c.inFlight with
  | none => c
  | some range =>
    match m with
    | .startBatch => c.report (.batchStarted range)
    | .block body => c.report (.blockReceived body)
    | .batchDone => { c with inFlight := none }.report (.batchDone range)
    | .noBlocks => { c with inFlight := none }.report (.noBlocks range)
    | _ => c

def reset (c : Client) : Client :=
  { c with
    state := protocol.initial
    queued := c.inFlight.toList ++ c.queued
    inFlight := none
    doneRequested := false }

def kind (σ : Type) : AgentKind σ Client State Message Event where
  protocol := protocol
  number _ := number
  role _ := .client
  state c := c.state
  withState state c := { c with state }
  produce := produce
  sent := sent
  received m c w := (c.received m, w)
  reset := reset
  backlog _ := 1
  listeners c := c.listeners
  withListeners listeners c := { c with listeners }

end Client
end ChainRelay.BlockFetch
