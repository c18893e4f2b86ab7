import ChainRelay.Protocol.Basic

/-! Observers of an agent. An event is queued, once for each observer registered
at that moment, and the calls are made later by whoever takes the queue, so that an
observer may drive the agent it observes. -/
namespace ChainRelay

structure Listeners (Event : Type) where
  ids : List Nat
  nextId : Nat
  isSealed : Bool
  /-- calls that have not been taken: to whom, and of what -/
  pending : List (Nat × Event)
  deriving Repr

namespace Listeners

variable {Event : Type}

def empty : Listeners Event := ⟨[], 0, false, []⟩

instance : Inhabited (Listeners Event) := ⟨empty⟩

def add (l : Listeners Event) : Except AgentError (Nat × Listeners Event) :=
  if l.isSealed then .error .listenersSealed
  else .ok (l.nextId, { l with ids := l.ids ++ [l.nextId], nextId := l.nextId + 1 })

/-- Was it registered? Calls already queued for it stay. -/
def remove (l : Listeners Event) (id : Nat) : Bool × Listeners Event :=
  (decide (id ∈ l.ids), { l with ids := l.ids.filter (· ≠ id) })

/-- No registration from here on; removal stays possible. -/
def sealed (l : Listeners Event) : Listeners Event := { l with isSealed := true }

def notify (l : Listeners Event) (event : Event) : Listeners Event :=
  { l with pending := l.pending ++ l.ids.map fun id => (id, event) }

def take (l : Listeners Event) : List (Nat × Event) × Listeners Event :=
  (l.pending, { l with pending := [] })

end Listeners
end ChainRelay
