import ChainRelay.KeepAlive.Message
import ChainRelay.Protocol.Handle

/-! The pinging side. Pings wait in a queue; one is in flight at a time, and its
cookie is reported when the response brings the same one back. A response with
another cookie settles the ping without a report. -/
namespace ChainRelay.KeepAlive

inductive Event where
  | response (cookie : UInt32)
  deriving DecidableEq, Repr

structure Client where
  state : State
  queued : List UInt32
  inFlight : Option UInt32
  doneRequested : Bool
  answered : Bool
  listeners : Listeners Event
  deriving Repr

namespace Client

def new : Client := ⟨.client, [], none, false, false, .empty⟩

def ping (cookie : UInt32) (c : Client) : Client := { c with queued := c.queued ++ [cookie] }

def requestDone (c : Client) : Client := { c with doneRequested := true }

def isWaiting (c : Client) : Bool := c.inFlight.isSome || !c.queued.isEmpty

def produce (c : Client) : Option Message :=
  match c.queued with
  | cookie :: _ => some (.ping cookie)
  | [] => if c.doneRequested then some .done else none

def sent (m : Message) (c : Client) : Client :=
  match m with
  | .ping cookie => { c with queued := c.queued.tail, inFlight := some cookie }
  | _ => c

def received (m : Message) (c : Client) : Client :=
  match m with
  | .response cookie =>
    if c.inFlight = some cookie then
      { c with
        inFlight := none
        answered := true
        listeners := c.listeners.notify (.response cookie) }
    else { c with inFlight := none }
  | _ => c

/-- Pings of the old connection are forgotten. -/
def reset (c : Client) : Client :=
  { c with state := protocol.initial, queued := [], inFlight := none, doneRequested := false }

def kind (σ : Type) : AgentKind σ Client State Message Event where
  protocol := protocol
  number _ := number
  role _ := .client
  state c := c.state
  withState state c := { c with state }
  produce := produce
  sent := sent
  received m c w := (c.received m, w)
  reset := reset
  backlog _ := 1
  listeners c := c.listeners
  withListeners listeners c := { c with listeners }

end Client
end ChainRelay.KeepAlive
