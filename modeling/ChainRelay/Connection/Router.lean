import ChainRelay.Connection.AnyHandle

/-! Which handle a channel leads to. A client's handle takes what responders send and a
server's what initiators send, so both sides of one protocol can share a
connection. Handles are named by their place in a table that others may share. -/
namespace ChainRelay

structure Router where
  routes : List (Channel × Nat)
  deriving Repr, Inhabited

namespace Router

def empty : Router := ⟨[]⟩

def find? (r : Router) (c : Channel) : Option Nat := r.routes.lookup c

def contains (r : Router) (c : Channel) : Bool := (r.find? c).isSome

/-- A later handle on a channel replaces the earlier one. -/
def insert (r : Router) (c : Channel) (target : Nat) : Router :=
  ⟨(c, target) :: r.routes.filter (·.1 ≠ c)⟩

end Router
end ChainRelay
