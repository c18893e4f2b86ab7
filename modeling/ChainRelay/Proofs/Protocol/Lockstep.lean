import ChainRelay.Connection.Request
import ChainRelay.Proofs.Protocol.Lawful

/-! Two agents joined by two links. The messages that are under way are on one link
only, and they lead from the state of the agent that they will reach to the state of the
agent that sent them. -/
namespace ChainRelay

variable {σ State Message A B E F : Type}

inductive Action where
  | request (r : Request)
  | pump
  | sendNext
  | bind (line : Line)

/-- Candidates are counted by a machine word, like every list that is written. -/
def Request.Fits : Request → Prop
  | setCandidates points => points.length < UInt64.size
  | _ => True

def Action.Fits : Action → Prop
  | request r => r.Fits
  | _ => True

def Handle.act (k : AgentKind σ A State Message E) (call : Request → A → σ → A × σ) (h : Handle A)
    (w : σ) : Action → Effects E × Handle A × σ
  | .request r => h.update k (call r) w
  | .pump => h.update k (fun a w => (a, w)) w
  | .sendNext =>
    let (_, e, h) := h.sendNext k
    (e, h, w)
  | .bind line =>
    let (_, e, h) := h.bind k line
    (e, h, w)

structure Pairing (σ State Message A B E F : Type) where
  client : AgentKind σ A State Message E
  server : AgentKind σ B State Message F
  ask : Request → A → σ → A × σ
  tell : Request → B → σ → B × σ

structure Exchange (σ A B : Type) where
  client : Handle A
  server : Handle B
  toServer : List Bytes
  toClient : List Bytes
  world : σ

/-- A step of an exchange. The chain may turn into any other at any time. -/
inductive Move (σ : Type) where
  | act (side : Role) (action : Action)
  | deliver (side : Role)
  | change (w : σ)

def Move.Fits : Move σ → Prop
  | act _ action => action.Fits
  | _ => True

namespace Exchange

variable (x : Pairing σ State Message A B E F)

def start (c : A) (s : B) (w : σ) : Exchange σ A B := ⟨.new c, .new s, [], [], w⟩

def step (e : Exchange σ A B) : Move σ → Exchange σ A B
  | .act .client action =>
    let (effects, h, w) := e.client.act x.client x.ask e.world action
    { e with client := h, world := w, toServer := e.toServer ++ effects.sent.map (·.payload) }
  | .act .server action =>
    let (effects, h, w) := e.server.act x.server x.tell e.world action
    { e with server := h, world := w, toClient := e.toClient ++ effects.sent.map (·.payload) }
  | .deliver .server =>
    match e.toServer with
    | [] => e
    | b :: rest =>
      let (effects, h, w) := e.server.deliver x.server b e.world
      { e with
        server := h
        world := w
        toServer := rest
        toClient := e.toClient ++ effects.sent.map (·.payload) }
  | .deliver .client =>
    match e.toClient with
    | [] => e
    | b :: rest =>
      let (effects, h, w) := e.client.deliver x.client b e.world
      { e with
        client := h
        world := w
        toClient := rest
        toServer := e.toServer ++ effects.sent.map (·.payload) }
  | .change w => { e with world := w }

def run (e : Exchange σ A B) (moves : List (Move σ)) : Exchange σ A B := moves.foldl (step x) e

def Leads (p : Protocol State Message) (s : State) (bs : List Bytes) (t : State) : Prop :=
  ∃ ms, bs.mapM p.decode = .ok ms ∧ p.moves s ms = some t

/-- The agents are two views of one state, one of them behind by what is under way. -/
structure LockStep (e : Exchange σ A B) : Prop where
  one_way : e.toClient = [] ∨ e.toServer = []
  server_behind : e.toClient = [] → Leads x.server.protocol (x.server.state e.server.agent)
    e.toServer (x.client.state e.client.agent)
  client_behind : e.toServer = [] → Leads x.client.protocol (x.client.state e.client.agent)
    e.toClient (x.server.state e.server.agent)
  client_turn : x.client.hasAgency e.client.agent = true → e.toClient = []
  server_turn : x.server.hasAgency e.server.agent = true → e.toServer = []
  client_accepts : ∀ b rest, e.toClient = b :: rest → ∃ m, x.client.protocol.decode b = .ok m ∧
    ∃ r, x.client.consume m e.client.agent e.world = .ok r
  server_accepts : ∀ b rest, e.toServer = b :: rest → ∃ m, x.server.protocol.decode b = .ok m ∧
    ∃ r, x.server.consume m e.server.agent e.world = .ok r

end Exchange

namespace Pairing

/-- Both sides are lawful, and requests change neither state. -/
structure Matched (x : Pairing σ State Message A B E F) (p : Protocol State Message)
    (Fits : Message → Prop) (carried : Message → Message) (SaneA : A → Prop) (SaneB : B → Prop) :
    Prop where
  client : x.client.Lawful p .client Fits SaneA
  server : x.server.Lawful p .server Fits SaneB
  conveys : p.Conveys Fits carried
  ask : ∀ {r a} w, r.Fits → SaneA a →
    SaneA (x.ask r a w).1 ∧ x.client.state (x.ask r a w).1 = x.client.state a
  tell : ∀ {r b} w, r.Fits → SaneB b →
    SaneB (x.tell r b w).1 ∧ x.server.state (x.tell r b w).1 = x.server.state b

end Pairing

namespace Handle

theorem sends_act {k : AgentKind σ A State Message E} {p : Protocol State Message} {role : Role}
    {Fits : Message → Prop} {Sane : A → Prop} {carried : Message → Message}
    {call : Request → A → σ → A × σ} (lawful : k.Lawful p role Fits Sane)
    (conveys : p.Conveys Fits carried)
    (calls : ∀ {r a} w, r.Fits → Sane a → Sane (call r a w).1 ∧ k.state (call r a w).1 = k.state a)
    {h : Handle A} {action : Action} (sane : Sane h.agent) (fits : action.Fits) (w : σ) :
    Sends k p role Fits Sane h ((h.act k call w action).1.sent.map (·.payload))
      (h.act k call w action).2.1 := by
  cases action with
  | request r =>
    obtain ⟨kept, same⟩ := calls w fits sane
    exact sends_update lawful conveys kept same
  | pump => exact sends_update (f := fun a w => (a, w)) lawful conveys sane rfl
  | sendNext => exact sends_sendNext lawful conveys sane
  | bind line => exact sends_bind lawful conveys line sane

end Handle

namespace Exchange

variable {x : Pairing σ State Message A B E F} {p : Protocol State Message}
  {Fits : Message → Prop} {carried : Message → Message} {SaneA : A → Prop} {SaneB : B → Prop}

structure InStep (x : Pairing σ State Message A B E F) (p : Protocol State Message)
    (Fits : Message → Prop) (SaneA : A → Prop) (SaneB : B → Prop) (e : Exchange σ A B) : Prop where
  client : SaneA e.client.agent
  server : SaneB e.server.agent
  aligned : p.Aligned (p.Reads Fits) .client (x.client.state e.client.agent)
    (x.server.state e.server.agent) e.toServer e.toClient

theorem inStep_start {c : A} {s : B} (client : SaneA c) (server : SaneB s)
    (same : x.client.state c = x.server.state s) (w : σ) :
    InStep x p Fits SaneA SaneB (start c s w) :=
  ⟨client, server, .inl ⟨rfl, same.symm⟩⟩

theorem inStep_step (matched : x.Matched p Fits carried SaneA SaneB) {e : Exchange σ A B}
    (inv : InStep x p Fits SaneA SaneB e) {move : Move σ} (fits : move.Fits) :
    InStep x p Fits SaneA SaneB (step x e move) := by
  cases move with
  | act side action =>
    cases side with
    | client =>
      have sent := Handle.sends_act matched.client matched.conveys matched.ask inv.client fits
        e.world
      exact ⟨sent.sane, inv.server, inv.aligned.send sent.carries⟩
    | server =>
      have sent := Handle.sends_act matched.server matched.conveys matched.tell inv.server fits
        e.world
      exact ⟨inv.client, sent.sane, (inv.aligned.symm.send sent.carries).symm⟩
  | deliver side =>
    cases side with
    | client =>
      cases under : e.toClient with
      | nil => simpa only [step, under] using inv
      | cons b rest =>
        have aligned := inv.aligned
        rw [under] at aligned
        obtain ⟨m, next, holds, read, moved, later⟩ := aligned.receive
        obtain ⟨sane, sent⟩ := Handle.sends_deliver matched.client matched.conveys inv.client
          holds read moved e.world
        simp only [step, under]
        exact ⟨sane, inv.server, later.send sent⟩
    | server =>
      cases under : e.toServer with
      | nil => simpa only [step, under] using inv
      | cons b rest =>
        have aligned := inv.aligned.symm
        rw [under] at aligned
        obtain ⟨m, next, holds, read, moved, later⟩ := aligned.receive
        obtain ⟨sane, sent⟩ := Handle.sends_deliver matched.server matched.conveys inv.server
          holds read moved e.world
        simp only [step, under]
        exact ⟨inv.client, sane, (later.send sent).symm⟩
  | change w => exact ⟨inv.client, inv.server, inv.aligned⟩

theorem inStep_run (matched : x.Matched p Fits carried SaneA SaneB) {e : Exchange σ A B}
    (inv : InStep x p Fits SaneA SaneB e) {moves : List (Move σ)} (fit : ∀ m ∈ moves, m.Fits) :
    InStep x p Fits SaneA SaneB (run x e moves) := by
  induction moves generalizing e with
  | nil => exact inv
  | cons m moves ih =>
    exact ih (inStep_step matched inv (fit m (by simp))) fun m member => fit m (by simp [member])

theorem accepts {k : AgentKind σ A State Message E} {role : Role} {Sane : A → Prop}
    (lawful : k.Lawful p role Fits Sane) {a : A} {other : State} {out rest : List Bytes} {b : Bytes}
    (sane : Sane a) (aligned : p.Aligned (p.Reads Fits) role (k.state a) other out (b :: rest))
    (w : σ) :
    ∃ m, k.protocol.decode b = .ok m ∧ ∃ r, k.consume m a w = .ok r := by
  obtain ⟨m, next, holds, read, moved, -⟩ := aligned.receive
  cases lawful.protocol_eq
  exact ⟨m, read.2, _, AgentKind.consume_of_moves (lawful.role_eq sane) holds moved w⟩

theorem InStep.lockStep (matched : x.Matched p Fits carried SaneA SaneB) {e : Exchange σ A B}
    (inv : InStep x p Fits SaneA SaneB e) : LockStep x e where
  one_way := inv.aligned.imp And.left And.left
  server_behind quiet := by
    have aligned := inv.aligned
    rw [quiet] at aligned
    rw [matched.server.protocol_eq]
    exact aligned.carries.moves
  client_behind quiet := by
    have aligned := inv.aligned.symm
    rw [quiet] at aligned
    rw [matched.client.protocol_eq]
    exact aligned.carries.moves
  client_turn turn := by
    rw [AgentKind.hasAgency, AgentKind.agency, matched.client.role_eq inv.client,
      matched.client.protocol_eq] at turn
    exact inv.aligned.quiet turn
  server_turn turn := by
    rw [AgentKind.hasAgency, AgentKind.agency, matched.server.role_eq inv.server,
      matched.server.protocol_eq] at turn
    exact inv.aligned.symm.quiet turn
  client_accepts b rest under :=
    accepts matched.client inv.client (under ▸ inv.aligned) e.world
  server_accepts b rest under :=
    accepts matched.server inv.server (under ▸ inv.aligned.symm) e.world

theorem lockStep_run_start (matched : x.Matched p Fits carried SaneA SaneB) {c : A} {s : B}
    (client : SaneA c) (server : SaneB s) (same : x.client.state c = x.server.state s)
    {moves : List (Move σ)} (fit : ∀ m ∈ moves, m.Fits) (w : σ) :
    LockStep x (run x (start c s w) moves) :=
  (inStep_run matched (inStep_start client server same w) fit).lockStep matched

end Exchange
end ChainRelay
