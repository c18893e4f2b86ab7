import ChainRelay.KeepAlive.Message
import ChainRelay.Protocol.Handle

/-! The echoing side. -/
namespace ChainRelay.KeepAlive

structure Server where
  state : State
  replies : List Message
  deriving Repr

namespace Server

def new : Server := ⟨.client, []⟩

def received (m : Message) (s : Server) : Server :=
  match m with
  | .ping cookie => { s with replies := s.replies ++ [.response cookie] }
  | _ => s

def kind (σ : Type) : AgentKind σ Server State Message Empty where
  protocol := protocol
  number _ := number
  role _ := .server
  state s := s.state
  withState state s := { s with state }
  produce s := s.replies.head?
  sent _ s := { s with replies := s.replies.tail }
  received m s w := (s.received m, w)
  reset _ := new
  backlog s := s.replies.length
  listeners _ := .empty
  withListeners _ s := s

end Server
end ChainRelay.KeepAlive
