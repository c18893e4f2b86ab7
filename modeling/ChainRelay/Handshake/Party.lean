import ChainRelay.Handshake.Message
import ChainRelay.Protocol.Handle

/-! Either side of the handshake. The outcome stands from the moment the last
message has left (server) or arrived (client). -/
namespace ChainRelay.Handshake

inductive Outcome where
  | accepted (version : UInt64) (data : VersionData)
  | refused (reason : RefuseReason)
  | queried (table : VersionTable)
  deriving Repr

/-- A query that was answered is not reported. -/
inductive Event where
  | accepted (version : UInt64) (data : VersionData)
  | refused (reason : RefuseReason)
  deriving DecidableEq, Repr

structure Party where
  role : Role
  versions : VersionTable
  state : State
  reply : Option Message
  outcome : Option Outcome
  listeners : Listeners Event
  deriving Repr

namespace Party

def new (role : Role) (versions : VersionTable) : Party :=
  ⟨role, versions, .propose, none, none, .empty⟩

def negotiated (p : Party) : Option (UInt64 × VersionData) :=
  match p.outcome with
  | some (.accepted version data) => some (version, data)
  | _ => none

def event : Outcome → Option Event
  | .accepted version data => some (.accepted version data)
  | .refused reason => some (.refused reason)
  | .queried _ => none

def finish (outcome : Outcome) (p : Party) : Party :=
  { p with
    outcome := some outcome
    listeners := match event outcome with
      | some e => p.listeners.notify e
      | none => p.listeners }

def produce (p : Party) : Option Message :=
  match p.role with
  | .client => some (.proposeVersions (.ofTable p.versions))
  | .server => p.reply

def outcomeOf? : Message → Option Outcome
  | .acceptVersion version data => some (.accepted version data)
  | .refuse reason => some (.refused reason)
  | .queryReply table => some (.queried table)
  | .proposeVersions _ => none

/-- A server's handshake ends when its reply has left. -/
def sent (m : Message) (p : Party) : Party :=
  match p.role with
  | .client => p
  | .server =>
    let p := { p with reply := none }
    match outcomeOf? m with
    | some outcome => p.finish outcome
    | none => p

def answer (table : VersionTable) (proposed : ProposedVersions) : Message :=
  match table.negotiate proposed with
  | .ok (version, data) =>
    if data.query then .queryReply table else .acceptVersion version data
  | .error reason => .refuse reason

def received (m : Message) (p : Party) : Party :=
  match m with
  | .proposeVersions proposed => { p with reply := some (answer p.versions proposed) }
  | .acceptVersion version data =>
    if p.versions.contains version then p.finish (.accepted version data)
    else
      p.finish (.refused (.refused version "peer accepted a version that was not proposed"))
  | .refuse reason => p.finish (.refused reason)
  | .queryReply table => p.finish (.queried table)

def reset (p : Party) : Party :=
  { p with state := protocol.initial, reply := none, outcome := none }

def kind (σ : Type) : AgentKind σ Party State Message Event where
  protocol := protocol
  number _ := number
  role p := p.role
  state p := p.state
  withState state p := { p with state }
  produce := produce
  sent := sent
  received m p w := (p.received m, w)
  reset := reset
  backlog _ := 1
  listeners p := p.listeners
  withListeners listeners p := { p with listeners }

end Party
end ChainRelay.Handshake
