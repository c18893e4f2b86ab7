import ChainRelay.Network.Client
import ChainRelay.Network.Server

/-! How a network goes on. It settles when nothing is left that could go on at once;
then the next timer is what can. -/
namespace ChainRelay.Network

variable {σ : Type} (chain : ChainSource σ)

/-- Let something go on. Whoever waits goes before bytes that are under way, so that
a limit of no time at all has run out before an answer comes. -/
def move (n : Network σ) : Option (Network σ) :=
  n.moveClients chain <|> n.moveHosts chain <|> n.readWire chain <|> n.moveAcceptors chain

def settle : Nat → Network σ → Network σ
  | 0, n => n
  | fuel + 1, n =>
    match n.move chain with
    | none => n
    | some n => settle fuel n

def timers (n : Network σ) : List Nat :=
  n.clients.flatMap (fun c => c.tasks.filterMap (·.wait.limit?) ++ c.nextPing.toList) ++
    n.hosts.flatMap fun h => (h.peers.filter (·.phase = .waiting)).map (·.limit)

/-- Settle, then let the timers that are due up to a moment run out, each in its
turn. The clock stays at the last of them. -/
def runUntil (moment : Nat) : Nat → Network σ → Network σ
  | 0, n => n
  | fuel + 1, n =>
    let n := n.settle chain fuel
    match (n.timers.filter (· ≤ moment)).min? with
    | none => n
    | some t => runUntil moment fuel { n with now := max n.now t }

end ChainRelay.Network
