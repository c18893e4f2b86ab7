import ChainRelay.Connection.Link

/-! The handles at one end of a connection: the one that shakes hands and those that
work afterwards, by their places on a board. A place may stand more than once. -/
namespace ChainRelay

structure Crew where
  handshake : Nat
  agents : List Nat
  deriving DecidableEq, Repr

def Crew.places (c : Crew) : List Nat := c.handshake :: c.agents

def Board.outcome {σ : Type} (place : Nat) (b : Board σ) : Option Handshake.Outcome :=
  match b.handles[place]? with
  | some (.handshake h) => h.agent.outcome
  | _ => none

def Board.isPinging {σ : Type} (place : Nat) (b : Board σ) : Bool :=
  match b.handles[place]? with
  | some (.keepAliveClient h) => h.agent.isWaiting
  | _ => false

end ChainRelay
