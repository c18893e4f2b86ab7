import ChainRelay.Connection.Crew

/-! A server's end of one connection. Every agent is routed from the start, so that
requests which arrive behind the proposal are taken in; but only the handshake is
bound, and the others follow once it has accepted a version. -/
namespace ChainRelay

inductive GatePhase where
  /-- the handshake has no outcome yet -/
  | waiting
  /-- every agent is bound -/
  | serving
  | ended
  deriving DecidableEq, Repr

structure Gate where
  crew : Crew
  link : Link
  phase : GatePhase
  deriving Repr

namespace Gate

variable {σ : Type} (chain : ChainSource σ)

def finish (g : Gate) (b : Board σ) : Gate × Board σ :=
  let (link, b) := g.link.close chain b
  ({ g with link, phase := .ended }, b.unbindAll chain g.crew.places)

def begin (crew : Crew) (link : Link) (b : Board σ) : Gate × Board σ :=
  let b := b.sealAll chain crew.places
  let link := crew.agents.foldl (fun l place => l.route chain place b) link
  match link.bind chain crew.handshake b with
  | (.ok (), link, b) => (⟨crew, link, .waiting⟩, b)
  | (.error _, link, b) => finish chain ⟨crew, link, .waiting⟩ b

def receive (bytes : Bytes) (g : Gate) (b : Board σ) : Gate × Board σ :=
  let (_, link, b) := g.link.receive chain bytes b
  ({ g with link }, b)

/-- Look whether the handshake has an outcome. An accepted version opens the gate. -/
def look (g : Gate) (b : Board σ) : Gate × Board σ :=
  match g.phase, b.outcome g.crew.handshake with
  | .waiting, some (.accepted _ _) =>
    match g.link.bindAll chain g.crew.agents b with
    | (.ok (), link, b) => ({ g with link, phase := .serving }, b)
    | (.error _, link, b) => finish chain { g with link } b
  | .waiting, some _ => g.finish chain b
  | _, _ => (g, b)

/-- What happens at a gate: bytes arrive; its keeper looks for the outcome; the
chain grows; the time for the handshake runs out, the peer goes away or the server
stops. -/
inductive Turn where
  | bytes (b : Bytes)
  | look
  | grown (place : Nat)
  | finish
  deriving Repr

def step (t : Turn) (g : Gate) (b : Board σ) : Gate × Board σ :=
  match g.phase, t with
  | .ended, _ => (g, b)
  | _, .bytes bytes => g.receive chain bytes b
  | _, .look => g.look chain b
  | .serving, .grown place => (g, b.request chain place .notifyNewBlock)
  | _, .grown _ => (g, b)
  | _, .finish => g.finish chain b

def follow : List Turn → Gate → Board σ → Gate × Board σ
  | [], g, b => (g, b)
  | t :: rest, g, b =>
    let (g, b) := g.step chain t b
    follow rest g b

end Gate
end ChainRelay
