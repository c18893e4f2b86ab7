import ChainRelay.BlockFetch.Message
import ChainRelay.Chain.Source
import ChainRelay.Protocol.Handle

/-! The serving side. A range is answered whole or not at all: both ends must be on
the chain and the range must not be longer than the batch limit. The blocks are
found one after the other, and the limit also ends a walk along a chain whose
answers contradict each other. -/
namespace ChainRelay.BlockFetch

structure Server where
  state : State
  maxBatch : Nat
  replies : List Message
  deriving Repr

namespace Server

def defaultMaxBatch : Nat := 1000

def new (maxBatch : Nat := defaultMaxBatch) : Server := ⟨.idle, maxBatch, []⟩

section
variable {σ : Type} (chain : ChainSource σ)

/-- The bodies from `cursor` through `last` behind those already collected, which
are in reverse; at most `more` further ones after the first. -/
def collectFrom (last : Point) : Nat → Point → List Bytes → Lookup σ (Option (List Bytes))
  | more, cursor, bodies => do
    let some hash := cursor.hash | return none
    let some body ← chain.body hash | return none
    let bodies := body :: bodies
    if cursor = last then return some bodies.reverse
    match more with
    | 0 => return none
    | more + 1 =>
      match ← chain.nextAfter cursor with
      | some next =>
        if next.slot ≤ last.slot then collectFrom last more next bodies else return none
      | none => return none

def collect (maxBatch : Nat) (range : Range) : Lookup σ (Option (List Bytes)) := do
  if range.first.slot > range.last.slot then return none
  if !(← chain.hasPoint range.first) then return none
  if !(← chain.hasPoint range.last) then return none
  collectFrom chain range.last (maxBatch - 1) range.first []

def answer : Except ChainError (Option (List Bytes)) → List Message
  | .ok (some bodies) => .startBatch :: bodies.map .block ++ [.batchDone]
  | _ => [.noBlocks]

def received (m : Message) (s : Server) (w : σ) : Server × σ :=
  match m with
  | .requestRange range =>
    let (bodies, w) := (collect chain s.maxBatch range).run w
    ({ s with replies := s.replies ++ answer bodies }, w)
  | _ => (s, w)

def kind : AgentKind σ Server State Message Empty where
  protocol := protocol
  number _ := number
  role _ := .server
  state s := s.state
  withState state s := { s with state }
  produce s := s.replies.head?
  sent _ s := { s with replies := s.replies.tail }
  received := received chain
  reset s := { s with state := protocol.initial, replies := [] }
  backlog s := s.replies.length
  listeners _ := .empty
  withListeners _ s := s

end

end Server
end ChainRelay.BlockFetch
