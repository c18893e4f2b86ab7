import ChainRelay.Connection.Request

/-! Handles that share one chain, each known by its place. What they send and the
calls that they owe are noted in order, for whoever moves the bytes and makes the
calls. -/
namespace ChainRelay

structure Sent where
  place : Nat
  connection : Nat
  packet : Packet
  deriving Repr

structure Call where
  place : Nat
  listener : Nat
  event : AnyEvent
  deriving Repr

structure Board (σ : Type) where
  handles : List AnyHandle
  world : σ
  sent : List Sent
  calls : List Call

namespace Board

variable {σ : Type}

def empty (world : σ) : Board σ := ⟨[], world, [], []⟩

def add (x : AnyHandle) (b : Board σ) : Nat × Board σ :=
  (b.handles.length, { b with handles := b.handles ++ [x] })

def modify (place : Nat) (f : AnyHandle → AnyHandle) (b : Board σ) : Board σ :=
  { b with handles := b.handles.modify place f }

def note (place : Nat) (e : Effects AnyEvent) (x : AnyHandle) (b : Board σ) : Board σ :=
  let connection := (x.line.map (·.connection)).getD 0
  { b with
    handles := b.handles.set place x
    sent := b.sent ++ e.sent.map fun packet => ⟨place, connection, packet⟩
    calls := b.calls ++ e.calls.map fun (listener, event) => ⟨place, listener, event⟩ }

def operate (place : Nat) (f : σ → AnyHandle → (Effects AnyEvent × σ) × AnyHandle) (b : Board σ) :
    Board σ :=
  match b.handles[place]? with
  | none => b
  | some x =>
    let ((e, world), x) := f b.world x
    { b with world }.note place e x

variable (chain : ChainSource σ)

def deliver (place : Nat) (payload : Bytes) (b : Board σ) : Board σ :=
  b.operate place fun w x => x.deliver chain payload w

def request (place : Nat) (r : Request) (b : Board σ) : Board σ :=
  b.operate place fun w x => x.request chain r w

def bind (place : Nat) (connection : Nat) (isOpen : Bool) (b : Board σ) :
    Except AgentError Unit × Board σ :=
  match b.handles[place]? with
  | none => (.ok (), b)
  | some x =>
    let ((r, e), x) := x.bind chain ⟨connection, (x.role chain).outbound, isOpen⟩
    (r, b.note place e x)

def isBound (place : Nat) (b : Board σ) : Bool :=
  match b.handles[place]? with
  | none => false
  | some x => x.isBound

def unbind (place : Nat) (b : Board σ) : Board σ := b.modify place (·.unbind chain)

def unbindAll (places : List Nat) (b : Board σ) : Board σ :=
  places.foldl (fun b place => b.unbind chain place) b

def reset (place : Nat) (b : Board σ) : Board σ := b.modify place (·.reset chain)

def resetAll (places : List Nat) (b : Board σ) : Board σ :=
  places.foldl (fun b place => b.reset chain place) b

def sealAll (places : List Nat) (b : Board σ) : Board σ :=
  places.foldl (fun b place => b.modify place (·.sealListeners chain)) b

/-- A connection takes nothing more: lines to it are closed. -/
def hangUp (connection : Nat) (b : Board σ) : Board σ :=
  { b with handles := b.handles.map fun x =>
      if (x.line.map (·.connection)) = some connection then x.closeLine chain else x }

end Board
end ChainRelay
