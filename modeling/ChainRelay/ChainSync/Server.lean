import ChainRelay.Chain.Source
import ChainRelay.ChainSync.Message
import ChainRelay.Protocol.Handle

/-! The serving side. It remembers the points it gave the client, newest last, up
to a window; when the last one has left the chain it rolls the client back to the
newest that has not, or to the origin. The first update after an intersection is
always a roll back to the intersection. At the tip it promises a reply and
remembers that the client waits, so that a new block can be pushed. -/
namespace ChainRelay.ChainSync

structure Server where
  flavor : Flavor
  state : State
  /-- points given to the client, oldest first -/
  sent : List Point
  window : Nat
  /-- is a roll back to the intersection owed? -/
  owesRollback : Bool
  tipWaiting : Bool
  replies : List Message
  deriving Repr

namespace Server

def defaultWindow : Nat := 2160

def new (flavor : Flavor := .headers) (window : Nat := defaultWindow) : Server :=
  ⟨flavor, .idle, [], max window 1, false, false, []⟩

def lastSent (s : Server) : Option Point := s.sent.getLast?

def hasAgency (s : Server) : Bool := s.state.agency = .server

def record (p : Point) (s : Server) : Server :=
  let sent := s.sent ++ [p]
  { s with sent := sent.drop (sent.length - s.window) }

section
variable {σ : Type} (chain : ChainSource σ)

/-- The tip to report; a failed lookup counts as an empty chain. -/
def tip (w : σ) : Tip × σ :=
  match chain.tip.run w with
  | (.ok (some t), w) => (t, w)
  | (_, w) => (.origin, w)

/-- Can the client start here? At the origin only once the chain has a block. -/
def contains (p : Point) : Lookup σ Bool := do
  if p.isOrigin then return (← chain.tip).isSome else chain.hasPoint p

/-- Is a point that the client was given still on the chain? The origin always is. -/
def onChain (p : Point) : Lookup σ Bool :=
  if p.isOrigin then return true else chain.hasPoint p

/-- The first candidate that the chain contains. A failed lookup ends the search. -/
def firstContained : List Point → σ → Option Point × σ
  | [], w => (none, w)
  | p :: rest, w =>
    match (contains chain p).run w with
    | (.ok true, w) => (some p, w)
    | (.ok false, w) => firstContained rest w
    | (.error _, w) => (none, w)

def findIntersect (candidates : List Point) (s : Server) (w : σ) : Message × Server × σ :=
  match firstContained chain candidates w with
  | (some p, w) =>
    let (t, w) := tip chain w
    (.intersectFound p t, { s with sent := [p], owesRollback := true, tipWaiting := false }, w)
  | (none, w) =>
    let (t, w) := tip chain w
    (.intersectNotFound t, s, w)

def contentAt (flavor : Flavor) (p : Point) : Lookup σ HeaderContent := do
  let some hash := p.hash | throw (.notFound p)
  match flavor with
  | .blocks =>
    let some b ← chain.body hash | throw (.notFound p)
    return .block b
  | .headers =>
    let some b ← chain.header hash | throw (.notFound p)
    match HeaderContent.decode b with
    | .ok content => return content
    | .error e => throw (.codec e)

/-- Drop points from the end, given newest first, until one is on the chain. What
has been dropped stays dropped when a lookup fails. -/
def dropOffChain : List Point → σ → Except ChainError Unit × List Point × σ
  | [], w => (.ok (), [], w)
  | p :: older, w =>
    match (onChain chain p).run w with
    | (.ok true, w) => (.ok (), p :: older, w)
    | (.ok false, w) => dropOffChain older w
    | (.error e, w) => (.error e, p :: older, w)

def commonAncestor (s : Server) (w : σ) : Except ChainError Point × Server × σ :=
  match dropOffChain chain s.sent.reverse w with
  | (.error e, kept, w) => (.error e, { s with sent := kept.reverse }, w)
  | (.ok (), p :: older, w) => (.ok p, { s with sent := (p :: older).reverse }, w)
  | (.ok (), [], w) => (.ok .origin, { s with sent := [.origin] }, w)

def following (flavor : Flavor) (last : Point) : Lookup σ (Option (Point × HeaderContent)) := do
  match ← chain.nextAfter last with
  | none => return none
  | some next => return some (next, ← contentAt chain flavor next)

def nextUpdate (s : Server) (w : σ) : Except ChainError (Option Message) × Server × σ :=
  match s.lastSent with
  | none => (.ok none, s, w)
  | some last =>
    match (onChain chain last).run w with
    | (.error e, w) => (.error e, s, w)
    | (.ok false, w) =>
      match commonAncestor chain { s with owesRollback := false } w with
      | (.error e, s, w) => (.error e, s, w)
      | (.ok p, s, w) =>
        let (t, w) := tip chain w
        (.ok (some (.rollBackward p t)), s, w)
    | (.ok true, w) =>
      if s.owesRollback then
        let (t, w) := tip chain w
        (.ok (some (.rollBackward last t)), { s with owesRollback := false }, w)
      else
        match (following chain s.flavor last).run w with
        | (.error e, w) => (.error e, s, w)
        | (.ok none, w) => (.ok none, s, w)
        | (.ok (some (next, content)), w) =>
          let s := s.record next
          let (t, w) := tip chain w
          (.ok (some (.rollForward content t)), s, w)

/-- The reply to a request. A failed lookup parks the client like the tip does. -/
def requestNext (s : Server) (w : σ) : Message × Server × σ :=
  if s.lastSent.isNone then (.awaitReply, s, w)
  else
    match nextUpdate chain s w with
    | (.ok (some update), s, w) => (update, s, w)
    | (_, s, w) => (.awaitReply, { s with tipWaiting := true }, w)

def enqueue (m : Message) (s : Server) : Server := { s with replies := s.replies ++ [m] }

/-- The chain has grown: answer a client that waits at the tip, if the server may
send. A failed lookup leaves it waiting. -/
def notifyNewBlock (s : Server) (w : σ) : Server × σ :=
  if s.tipWaiting && s.hasAgency then
    match nextUpdate chain s w with
    | (.ok (some update), s, w) => ({ s with tipWaiting := false }.enqueue update, w)
    | (_, s, w) => (s, w)
  else (s, w)

def received (m : Message) (s : Server) (w : σ) : Server × σ :=
  match m with
  | .findIntersect points =>
    let (reply, s, w) := findIntersect chain points s w
    (s.enqueue reply, w)
  | .requestNext =>
    let (reply, s, w) := requestNext chain s w
    (s.enqueue reply, w)
  | _ => (s, w)

def produce (s : Server) : Option Message := do
  let m ← s.replies.head?
  let _ ← s.state.move m
  return m

def kind : AgentKind σ Server State Message Empty where
  protocol := protocol
  number s := s.flavor.number
  role _ := .server
  state s := s.state
  withState state s := { s with state }
  produce := produce
  sent _ s := { s with replies := s.replies.tail }
  received := received chain
  reset s :=
    { s with
      state := protocol.initial
      sent := []
      owesRollback := false
      tipWaiting := false
      replies := [] }
  backlog s := s.replies.length
  listeners _ := .empty
  withListeners _ s := s

end

end Server
end ChainRelay.ChainSync
