import ChainRelay.Connection.Board
import ChainRelay.Connection.Router

/-! One end of a connection: bytes come in, messages go to the handles they are
routed to. A handle may be routed before it is bound; it takes in what arrives and
answers once it is bound. -/
namespace ChainRelay

structure Link where
  id : Nat
  router : Router
  demuxer : Demuxer
  isOpen : Bool
  deriving Repr

namespace Link

variable {σ : Type} (chain : ChainSource σ)

def new (id : Nat) (limit : Nat) : Link := ⟨id, .empty, .empty limit, true⟩

def route (place : Nat) (b : Board σ) (l : Link) : Link :=
  match b.handles[place]? with
  | none => l
  | some x => { l with router := l.router.insert (x.inbound chain) place }

def bind (place : Nat) (l : Link) (b : Board σ) : Except AgentError Unit × Link × Board σ :=
  let l := l.route chain place b
  let (r, b) := b.bind chain place l.id l.isOpen
  (r, l, b)

/-- Bind one after the other, up to the first that cannot be bound. -/
def bindAll : List Nat → Link → Board σ → Except AgentError Unit × Link × Board σ
  | [], l, b => (.ok (), l, b)
  | place :: rest, l, b =>
    match l.bind chain place b with
    | (.ok (), l, b) => bindAll rest l b
    | (.error e, l, b) => (.error e, l, b)

/-- A message on a channel without a handle is dropped. -/
def dispatch (packet : Packet) (l : Link) (b : Board σ) : Board σ :=
  match l.router.find? packet.channel with
  | none => b
  | some place => b.deliver chain place packet.payload

def receive (bytes : Bytes) (l : Link) (b : Board σ) : List DemuxError × Link × Board σ :=
  let (items, demuxer) := l.demuxer.push bytes
  let b := items.foldl (fun b item =>
    match item with
    | .ok packet => l.dispatch chain packet b
    | .error _ => b) b
  (items.filterMap fun | .error e => some e | .ok _ => none, { l with demuxer }, b)

/-- Close the link: lines to it take nothing more, and nothing is routed. -/
def close (l : Link) (b : Board σ) : Link × Board σ :=
  ({ l with isOpen := false, router := .empty }, b.hangUp chain l.id)

end Link
end ChainRelay
