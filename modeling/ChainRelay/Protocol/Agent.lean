import ChainRelay.Protocol.Listeners

/-! An agent is one side of a mini-protocol with its own bookkeeping. It is asked
for its next message, told when that message has left, and told what arrived. What
a server needs to look up is a state `σ` that it is handed with each message. -/
namespace ChainRelay

structure AgentKind (σ A State Message Event : Type) where
  protocol : Protocol State Message
  number : A → UInt16
  role : A → Role
  state : A → State
  withState : State → A → A
  /-- the message to send next, asked only while the agent holds agency; nothing is
  committed, so a message that could not be sent is asked for again -/
  produce : A → Option Message
  /-- the message has been handed over and the state has moved -/
  sent : Message → A → A
  /-- the message has been accepted and the state has moved -/
  received : Message → A → σ → A × σ
  /-- back to the initial state, without what belonged to one connection -/
  reset : A → A
  /-- at most this many messages can leave in a row -/
  backlog : A → Nat
  listeners : A → Listeners Event
  withListeners : Listeners Event → A → A

namespace AgentKind

variable {σ A State Message Event : Type} (k : AgentKind σ A State Message Event)

def agency (a : A) : Agency := k.protocol.agency (k.state a)

def hasAgency (a : A) : Bool := (k.role a).holds (k.agency a)

def isDone (a : A) : Bool := k.agency a = .nobody

/-- Check an inbound message against the state machine and apply it. A refused
message changes nothing. -/
def consume (m : Message) (a : A) (w : σ) : Except Violation (A × σ) :=
  let p := k.protocol
  let state := k.state a
  if k.isDone a then .error (.terminated p.name (p.messageName m))
  else if k.hasAgency a then
    .error (.localAgency p.name (p.stateName state) (p.messageName m))
  else
    match p.move state m with
    | none => .error (.invalidTransition p.name (p.stateName state) (p.messageName m))
    | some next => .ok (k.received m (k.withState next a) w)

def ready (a : A) : Option (Message × State) := do
  if k.hasAgency a then
    let m ← k.produce a
    let next ← k.protocol.move (k.state a) m
    return (m, next)
  else none

def commit (m : Message) (next : State) (a : A) : A := k.sent m (k.withState next a)

def takeNext (a : A) : Option (Message × A) :=
  (k.ready a).map fun (m, next) => (m, k.commit m next a)

def drainFor : Nat → A → List Message × A
  | 0, a => ([], a)
  | fuel + 1, a =>
    match k.takeNext a with
    | none => ([], a)
    | some (m, a) =>
      let (ms, a) := drainFor fuel a
      (m :: ms, a)

def drain (a : A) : List Message × A := k.drainFor (k.backlog a + 1) a

def addListener (a : A) : Except AgentError (Nat × A) := do
  let (id, l) ← (k.listeners a).add
  return (id, k.withListeners l a)

def removeListener (id : Nat) (a : A) : Bool × A :=
  let (was, l) := (k.listeners a).remove id
  (was, k.withListeners l a)

def sealListeners (a : A) : A := k.withListeners (k.listeners a).sealed a

def takeCalls (a : A) : List (Nat × Event) × A :=
  let (calls, l) := (k.listeners a).take
  (calls, k.withListeners l a)

end AgentKind
end ChainRelay
