import ChainRelay.Protocol.Agent
import ChainRelay.Wire.Demuxer

/-! An agent and the line it may be bound to. Whatever makes a message ready is
followed by a pump, which sends until the agent has none or loses agency. A message
is handed to the line first and committed after, so a line that is closed leaves
the agent as it was. The calls that listeners are owed come back with the result. -/
namespace ChainRelay

structure Line where
  connection : Nat
  mode : Mode
  isOpen : Bool
  deriving DecidableEq, Repr

structure Handle (A : Type) where
  agent : A
  line : Option Line
  deriving Repr

/-- What an operation on a handle did to the outside: messages queued on the line,
and calls owed to listeners. -/
structure Effects (Event : Type) where
  sent : List Packet
  calls : List (Nat × Event)
  deriving Repr

namespace Handle

variable {σ A State Message Event : Type} (k : AgentKind σ A State Message Event)

def new (agent : A) : Handle A := ⟨agent, none⟩

def isBound (h : Handle A) : Bool := h.line.isSome

def sendOne (h : Handle A) : Except AgentError (Option Packet) × Handle A :=
  match h.line, k.ready h.agent with
  | some line, some (m, next) =>
    match k.protocol.encode m with
    | .error e => (.error (.codec e), h)
    | .ok payload =>
      if line.isOpen then
        (.ok (some ⟨⟨k.number h.agent, line.mode⟩, payload⟩),
          { h with agent := k.commit m next h.agent })
      else (.error .channelClosed, h)
  | _, _ => (.ok none, h)

def pumpFor : Nat → Handle A → List Packet × Handle A
  | 0, h => ([], h)
  | fuel + 1, h =>
    match sendOne k h with
    | (.ok (some packet), h) =>
      let (packets, h) := pumpFor fuel h
      (packet :: packets, h)
    | (_, h) => ([], h)

/-- Send until there is nothing to send, or a send fails. -/
def pump (h : Handle A) : List Packet × Handle A := pumpFor k (k.backlog h.agent + 1) h

def finish (sent : List Packet) (h : Handle A) : Effects Event × Handle A :=
  let (calls, agent) := k.takeCalls h.agent
  (⟨sent, calls⟩, { h with agent })

def sendNext (h : Handle A) : Except AgentError Bool × Effects Event × Handle A :=
  match sendOne k h with
  | (.ok (some packet), h) => (.ok true, finish k [packet] h)
  | (.ok none, h) => (.ok false, finish k [] h)
  | (.error e, h) => (.error e, finish k [] h)

/-- Change the agent, then send what that made ready. -/
def update (f : A → σ → A × σ) (h : Handle A) (w : σ) : Effects Event × Handle A × σ :=
  let (agent, w) := f h.agent w
  let (sent, h) := pump k { h with agent }
  let (effects, h) := finish k sent h
  (effects, h, w)

def receive (m : Message) (h : Handle A) (w : σ) :
    Except Violation Unit × Effects Event × Handle A × σ :=
  match k.consume m h.agent w with
  | .error v =>
    let (effects, h) := finish k [] h
    (.error v, effects, h, w)
  | .ok (agent, w) =>
    let (sent, h) := pump k { h with agent }
    let (effects, h) := finish k sent h
    (.ok (), effects, h, w)

/-- Take in a message as it came. What cannot be decoded, or is not allowed, is
dropped. -/
def deliver (payload : Bytes) (h : Handle A) (w : σ) : Effects Event × Handle A × σ :=
  match k.protocol.decode payload with
  | .error _ => (⟨[], []⟩, h, w)
  | .ok m => (receive k m h w).2

def bind (line : Line) (h : Handle A) : Except AgentError Unit × Effects Event × Handle A :=
  match h.line with
  | some _ => (.error (.alreadyBound k.protocol.name), finish k [] h)
  | none =>
    let (sent, h) := pump k { h with line := some line }
    (.ok (), finish k sent h)

def unbind (h : Handle A) : Handle A := { h with line := none }

def closeLine (h : Handle A) : Handle A :=
  { h with line := h.line.map fun line => { line with isOpen := false } }

def reset (h : Handle A) : Handle A := { h with agent := k.reset h.agent }

def sealListeners (h : Handle A) : Handle A := { h with agent := k.sealListeners h.agent }

end Handle
end ChainRelay
