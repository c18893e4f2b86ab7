import ChainRelay.Connection.Crew
import ChainRelay.Session.Policy

/-! One attempt at a connection, once there is a stream: bind the handshake, wait for
its outcome, bind the agents. -/
namespace ChainRelay.Session

inductive Ending where
  | outcome (o : Handshake.Outcome)
  | closed
  | timedOut
  deriving Repr

def Ending.verdict (config : SessionConfig) : Ending → Except SessionError Agreed
  | .outcome (.accepted version data) => .ok (version, data)
  | .outcome (.refused reason) => .error (.handshake reason)
  | .outcome (.queried table) => .error (.queried table.versions)
  | .closed => .error .closedDuringHandshake
  | .timedOut => .error (.handshakeTimeout config.handshakeTimeout)

namespace Attempt

variable {σ : Type} (chain : ChainSource σ)

/-- The handshake did not succeed: close the link and free the handshake. -/
def abandon (crew : Crew) (l : Link) (b : Board σ) : Link × Board σ :=
  let (l, b) := l.close chain b
  (l, b.unbind chain crew.handshake)

def start (crew : Crew) (l : Link) (b : Board σ) : Except SessionError Unit × Link × Board σ :=
  match l.bind chain crew.handshake (b.reset chain crew.handshake) with
  | (.ok (), l, b) => (.ok (), l, b)
  | (.error e, l, b) => (.error (.agent e), abandon chain crew l b)

/-- The wait for the handshake is over. An agent that cannot be bound fails the
attempt, and those bound before it stay as they are. -/
def conclude (config : SessionConfig) (crew : Crew) (ending : Ending) (l : Link) (b : Board σ) :
    Except SessionError Agreed × Link × Board σ :=
  match ending.verdict config with
  | .error e => (.error e, abandon chain crew l b)
  | .ok agreed =>
    match l.bindAll chain crew.agents b with
    | (.ok (), l, b) => (.ok agreed, l, b)
    | (.error e, l, b) => (.error (.agent e), l.close chain b)

def run (config : SessionConfig) (crew : Crew) (arrivals : List Bytes) (ending : Ending) (l : Link)
    (b : Board σ) : Except SessionError Agreed × Link × Board σ :=
  match start chain crew l b with
  | (.error e, l, b) => (.error e, l, b)
  | (.ok (), l, b) =>
    let (l, b) := arrivals.foldl (fun (l, b) bytes => (l.receive chain bytes b).2) (l, b)
    conclude chain config crew ending l b

end Attempt
end ChainRelay.Session
