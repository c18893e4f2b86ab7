import ChainRelay.Session.Config
import ChainRelay.Session.Error

/-! When a session tries again and when it gives up. A round is a run of attempts up
to the first that succeeds; its attempts are numbered from 1. A refused handshake
ends the round, other failures are reported and repeated after a pause, as often as
the configuration says. When a connection drops, a new round follows the pause if
the session is to reconnect. -/
namespace ChainRelay

abbrev Agreed := UInt64 × VersionData

inductive SessionEvent where
  | connected (peer : String) (version : UInt64) (data : VersionData)
  | disconnected (peer : String)
  | connectFailed (attempt : Nat) (message : String)
  deriving DecidableEq, Repr

inductive StartResult where
  | started
  | failed (error : SessionError)
  deriving DecidableEq, Repr

namespace Session

inductive Phase where
  | attempting (number : Nat)
  /-- a pause, after so many failures in the round; none after a drop -/
  | resting (failures : Nat)
  | up
  | over
  deriving DecidableEq, Repr

structure Course where
  phase : Phase
  isStarted : Bool
  deriving DecidableEq, Repr

structure Report where
  events : List SessionEvent
  start : Option StartResult
  deriving DecidableEq, Repr

namespace Course

def begin : Course := ⟨.attempting 1, false⟩

/-- The course is over. A start that has not come back fails. -/
def giveUp (events : List SessionEvent) (e : SessionError) (c : Course) : Course × Report :=
  ({ c with phase := .over }, ⟨events, if c.isStarted then none else some (.failed e)⟩)

def isExhausted (config : SessionConfig) (failures : Nat) : Bool :=
  match config.maxRetries with
  | none => false
  | some n => n.toNat < failures

def attempted (config : SessionConfig) (peer : String) (r : Except SessionError Agreed) (c : Course) :
    Course × Report :=
  match c.phase with
  | .attempting number =>
    match r with
    | .ok (version, data) =>
      (⟨.up, true⟩,
        ⟨[.connected peer version data], if c.isStarted then none else some .started⟩)
    | .error (.handshake reason) => c.giveUp [] (.handshake reason)
    | .error e =>
      let failed := [SessionEvent.connectFailed number e.message]
      if isExhausted config number then c.giveUp failed (.connectFailed number e.message)
      else ({ c with phase := .resting number }, ⟨failed, none⟩)
  | _ => (c, ⟨[], none⟩)

def dropped (config : SessionConfig) (peer : String) (stopping : Bool) (c : Course) :
    Course × Report :=
  match c.phase with
  | .up =>
    ({ c with phase := if stopping || !config.autoReconnect then .over else .resting 0 },
      ⟨[.disconnected peer], none⟩)
  | _ => (c, ⟨[], none⟩)

def rested (stopping : Bool) (c : Course) : Course × Report :=
  match c.phase with
  | .resting failures =>
    if stopping then c.giveUp [] .shutdown
    else ({ c with phase := .attempting (failures + 1) }, ⟨[], none⟩)
  | _ => (c, ⟨[], none⟩)

end Course

inductive Turn where
  | attempted (result : Except SessionError Agreed)
  | dropped
  | rested
  deriving Repr

def Course.step (config : SessionConfig) (peer : String) (t : Turn) (c : Course) : Course × Report :=
  match t with
  | .attempted r => c.attempted config peer r
  | .dropped => c.dropped config peer false
  | .rested => c.rested false

def Course.follow (config : SessionConfig) (peer : String) : List Turn → Course → Course × Report
  | [], c => (c, ⟨[], none⟩)
  | t :: rest, c =>
    let (c, first) := c.step config peer t
    let (c, later) := Course.follow config peer rest c
    (c, ⟨first.events ++ later.events, first.start <|> later.start⟩)

end Session
end ChainRelay
