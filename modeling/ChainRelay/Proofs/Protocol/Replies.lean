import ChainRelay.Proofs.Protocol.Conducts
import ChainRelay.Proofs.Protocol.Writable
import Mathlib.Data.List.DropRight

/-! The replies of a server that have not left. They are at all times the rest of a turn:
each is allowed where those before it lead, and the last one hands the turn over, or else
leaves the server where it may wait for something to say. -/
namespace ChainRelay

variable {σ A State Message Event : Type}

namespace Protocol

variable (p : Protocol State Message) (Parks : State → List Message → Prop)

/-- What remains of a server's turn, whose end may be a place to wait in. -/
def Continues (s : State) (queue : List Message) : Prop :=
  ∃ t, p.Carries Eq .server s queue t ∧ (Role.server.holds (p.agency t) = false ∨ Parks t queue)

structure Legal (s : State) (queue : List Message) : Prop where
  silent : Role.server.holds (p.agency s) = false → queue = []
  each : ∀ {front m back}, queue = front ++ m :: back →
    ∃ t u, p.moves s front = some t ∧ Role.server.holds (p.agency t) = true ∧
      p.move t m = some u ∧ (back ≠ [] → Role.server.holds (p.agency u) = true) ∧
      (back = [] → Role.server.holds (p.agency u) = false ∨ Parks u queue)
  empty : Role.server.holds (p.agency s) = true → queue = [] → Parks s []

variable {p Parks} {s t : State}

theorem Carries.at_append {role : Role} {front back : List Message} {m : Message}
    (run : p.Carries Eq role s (front ++ m :: back) t) :
    ∃ u v, p.moves s front = some u ∧ role.holds (p.agency u) = true ∧ p.move u m = some v ∧
      p.Carries Eq role v back t := by
  induction front generalizing s with
  | nil =>
    obtain ⟨_, v, holds, rfl, moved, later⟩ := run
    exact ⟨s, v, rfl, holds, moved, later⟩
  | cons first front ih =>
    obtain ⟨_, next, -, rfl, moved, later⟩ := run
    obtain ⟨u, v, led, rest⟩ := ih later
    exact ⟨u, v, by simpa [Protocol.moves, moved] using led, rest⟩

theorem Continues.legal {queue : List Message} (continues : p.Continues Parks s queue) :
    p.Legal Parks s queue := by
  obtain ⟨t, run, ends⟩ := continues
  constructor
  case silent => exact fun lacks => (run.eq_nil lacks).1
  case each =>
    intro front m back same
    subst same
    obtain ⟨u, v, led, holds, moved, later⟩ := run.at_append
    refine ⟨u, v, led, holds, moved, ?_, ?_⟩
    · intro more
      cases back with
      | nil => exact absurd rfl more
      | cons b back =>
        obtain ⟨_, _, turn, -⟩ := later
        exact turn
    · intro last
      subst last
      cases later
      exact ends
  case empty =>
    intro holds spent
    subst spent
    cases run
    exact ends.resolve_left (by simp [holds])

end Protocol

def Note.goesOn : Note Message Event → Bool
  | taken _ | reset => false
  | _ => true

namespace Conduct

def since (log : List (Note Message Event)) : List (Note Message Event) :=
  log.rtakeWhile Note.goesOn

variable (c : Conduct σ A State Message Event) (Parks : State → List Message → Prop)

structure Replies (log : List (Note Message Event)) (s : Handle A × σ) : Prop where
  legal : c.kind.protocol.Legal Parks (c.kind.state s.1.agent) (c.queue s.1.agent)
  first : c.kind.produce s.1.agent = (c.queue s.1.agent).head?
  ready : ∀ {m}, c.kind.produce s.1.agent = some m →
    ∃ next, c.kind.ready s.1.agent = some (m, next)
  /-- nothing is left of an answer when the next request is taken in -/
  answered : ∀ {m r}, c.kind.consume m s.1.agent s.2 = .ok r → c.queue s.1.agent = []
  own : (since log).filterMap Note.queued? =
    (since log).filterMap Note.given? ++ c.queue s.1.agent
  pump : ∀ {line}, s.1.line = some line → line.isOpen = true →
    List.Forall₂ (fun m packet => c.kind.protocol.encode m = .ok packet.payload ∧
        packet.channel = ⟨c.kind.number s.1.agent, line.mode⟩)
      (c.queue s.1.agent) (s.1.pump c.kind).1 ∧
    c.queue (s.1.pump c.kind).2.agent = [] ∧
    (s.1.pump c.kind).2.sendOne c.kind = (.ok none, (s.1.pump c.kind).2)

structure Due (Sane : A → Prop) (a : A) : Prop where
  sane : Sane a
  continues : c.kind.protocol.Continues Parks (c.kind.state a) (c.queue a)

/-- How a server that is `Sane` goes on from one turn to the next. -/
structure Replier (Sane : A → Prop) : Prop where
  plain : c.Plain
  parks : ∀ {t m rest}, Parks t (m :: rest) → Parks t rest
  role : ∀ {a}, Sane a → c.kind.role a = .server
  produce : ∀ {a}, c.Due Parks Sane a → c.kind.produce a = (c.queue a).head?
  writable : ∀ {a m}, Sane a → m ∈ c.queue a → ∃ b, c.kind.protocol.encode m = .ok b
  backlog : ∀ a, (c.queue a).length ≤ c.kind.backlog a
  number : ∀ m s a, c.kind.number (c.kind.commit m s a) = c.kind.number a
  ask : ∀ {a} r w, c.Due Parks Sane a →
    c.Due Parks Sane (c.ask r a w).1 ∧ c.queue a <+: c.queue (c.ask r a w).1
  take : ∀ {a m next} w, Sane a → c.queue a = [] → c.kind.isDone a = false →
    c.kind.hasAgency a = false → c.kind.protocol.move (c.kind.state a) m = some next →
    c.Due Parks Sane (c.kind.received m (c.kind.withState next a) w).1
  give : ∀ {a m s}, Sane a → c.kind.produce a = some m →
    c.kind.protocol.move (c.kind.state a) m = some s →
    Sane (c.kind.commit m s a) ∧ c.queue a = m :: c.queue (c.kind.commit m s a)
  call : ∀ {a} l, Sane a →
    Sane (c.kind.withListeners l a) ∧ c.queue (c.kind.withListeners l a) = c.queue a
  reset : ∀ {a}, Sane a → Sane (c.kind.reset a) ∧ c.queue (c.kind.reset a) = [] ∧
    c.kind.state (c.kind.reset a) = c.kind.protocol.initial
  initial : Role.server.holds (c.kind.protocol.agency c.kind.protocol.initial) = false

variable {c Parks} {Sane : A → Prop} {a : A} {m : Message}

/-! ### Notes since a request -/

theorem since_append {log notes : List (Note Message Event)} (on : ∀ n ∈ notes, n.goesOn = true) :
    since (log ++ notes) = since log ++ notes := by
  have back : ∀ n ∈ notes.reverse, n.goesOn = true := by simpa using on
  simp [since, List.rtakeWhile, List.takeWhile_append_of_pos back]

theorem since_cut {log notes : List (Note Message Event)} {n : Note Message Event}
    (cut : n.goesOn = false) (on : ∀ n ∈ notes, n.goesOn = true) :
    since (log ++ n :: notes) = notes := by
  have back : ∀ n ∈ notes.reverse, n.goesOn = true := by simpa using on
  simp [since, List.rtakeWhile, List.takeWhile_append_of_pos back, cut]

theorem goesOn_grown (a b : A) : ∀ n ∈ c.grown a b, n.goesOn = true := by
  intro n member
  obtain ⟨_, -, rfl⟩ := List.mem_map.mp member
  rfl

/-! ### One message more -/

namespace Due

variable (due : c.Due Parks Sane a) (replier : c.Replier Parks Sane)
include due replier

theorem quiet (lacks : c.kind.hasAgency a = false) : c.queue a = [] := by
  rw [AgentKind.hasAgency, replier.role due.sane] at lacks
  exact due.continues.legal.silent lacks

theorem ready {m : Message} {rest : List Message} (waiting : c.queue a = m :: rest) :
    ∃ next, c.kind.ready a = some (m, next) ∧ c.Due Parks Sane (c.kind.commit m next a) ∧
      c.queue (c.kind.commit m next a) = rest := by
  obtain ⟨t, run, ends⟩ := due.continues
  rw [waiting] at run ends
  obtain ⟨_, next, holds, rfl, moved, later⟩ := run
  have turn : c.kind.hasAgency a = true := by
    rwa [AgentKind.hasAgency, replier.role due.sane]
  have made : c.kind.produce a = some m := by
    rw [replier.produce due, waiting]
    rfl
  have reached := replier.plain.state_commit m next a
  obtain ⟨sane, taken⟩ := replier.give due.sane made moved
  have left : c.queue (c.kind.commit m next a) = rest :=
    (List.cons.inj (taken.symm.trans waiting)).2
  refine ⟨next, AgentKind.ready_eq_some.mpr ⟨turn, made, moved⟩, ⟨sane, t, ?_, ?_⟩, left⟩
  · rwa [reached, left]
  · rw [left]
    exact ends.imp_right replier.parks

theorem idle (spent : c.queue a = []) : c.kind.ready a = none := by
  have silent : c.kind.produce a = none := by
    rw [replier.produce due, spent]
    rfl
  cases ready : c.kind.ready a with
  | none => rfl
  | some made =>
    obtain ⟨m, next⟩ := made
    have produced := (AgentKind.ready_eq_some.mp ready).2.1
    rw [silent] at produced
    cases produced

end Due

/-! ### A whole run -/

namespace Replier

variable (replier : c.Replier Parks Sane)
include replier

theorem keeps : c.Keeps fun log a => c.Due Parks Sane a ∧ (since log).filterMap Note.queued? =
    (since log).filterMap Note.given? ++ c.queue a := by
  constructor
  case ask =>
    intro log a r w ⟨due, own⟩
    obtain ⟨after, longer⟩ := replier.ask r w due
    refine ⟨after, ?_⟩
    have on : ∀ n ∈ .asked r :: c.grown a (c.ask r a w).1, n.goesOn = true :=
      List.forall_mem_cons.mpr ⟨rfl, goesOn_grown _ _⟩
    rw [since_append on, List.filterMap_append, List.filterMap_append, own, List.append_assoc,
      List.append_assoc]
    simpa [List.filterMap_cons] using List.prefix_iff_eq_append.mp longer
  case take =>
    intro log m a next w ⟨due, own⟩ live lacks moved
    have spent := due.quiet replier lacks
    refine ⟨replier.take w due.sane spent live lacks moved, ?_⟩
    rw [since_cut rfl (goesOn_grown _ _)]
    simp [spent]
  case give =>
    intro log m a next packet ⟨due, own⟩ turn made moved
    have waiting := made
    rw [replier.produce due] at waiting
    obtain ⟨rest, waiting⟩ := List.head?_eq_some_iff.mp waiting
    obtain ⟨next', ready, after, left⟩ := due.ready replier waiting
    obtain ⟨-, -, moved'⟩ := AgentKind.ready_eq_some.mp ready
    cases moved.symm.trans moved'
    refine ⟨after, ?_⟩
    rw [since_append (by simp [Note.goesOn]), List.filterMap_append, List.filterMap_append, own,
      waiting, left]
    simp
  case call =>
    intro log a ⟨due, own⟩
    obtain ⟨sane, same⟩ := replier.call (c.kind.listeners a).take.2 due.sane
    have still := replier.plain.state_withListeners (c.kind.listeners a).take.2 a
    refine ⟨⟨sane, ?_⟩, ?_⟩
    · rw [AgentKind.takeCalls, still, same]
      exact due.continues
    · rw [since_append (by simp [Note.goesOn]), List.filterMap_append, List.filterMap_append, own,
        AgentKind.takeCalls, same]
      simp [List.filterMap_cons]
  case reset =>
    intro log a ⟨due, own⟩
    obtain ⟨sane, spent, begins⟩ := replier.reset due.sane
    refine ⟨⟨sane, c.kind.protocol.initial, ?_, .inl replier.initial⟩, ?_⟩
    · rw [spent, begins]
      rfl
    · have cut : since (log ++ [.reset]) = [] := since_cut rfl (List.forall_mem_nil _)
      rw [cut, spent]
      rfl

/-- A pump takes all that waits to the line, and then there is nothing to send. -/
theorem pumpFor (fuel : Nat) {h : Handle A} {line : Line} (due : c.Due Parks Sane h.agent)
    (bound : h.line = some line) (taking : line.isOpen = true)
    (enough : (c.queue h.agent).length ≤ fuel) :
    List.Forall₂ (fun m packet => c.kind.protocol.encode m = .ok packet.payload ∧
        packet.channel = ⟨c.kind.number h.agent, line.mode⟩)
      (c.queue h.agent) (h.pumpFor c.kind fuel).1 ∧
    c.queue (h.pumpFor c.kind fuel).2.agent = [] ∧
    (h.pumpFor c.kind fuel).2.sendOne c.kind = (.ok none, (h.pumpFor c.kind fuel).2) := by
  induction fuel generalizing h with
  | zero =>
    have spent := List.length_eq_zero_iff.mp (Nat.le_zero.mp enough)
    rw [spent]
    exact ⟨.nil, spent, Handle.sendOne_of_not_ready (due.idle replier spent)⟩
  | succ fuel ih =>
    cases waiting : c.queue h.agent with
    | nil =>
      have stopped := Handle.sendOne_of_not_ready (due.idle replier waiting)
      rw [Handle.pumpFor, stopped]
      exact ⟨.nil, waiting, stopped⟩
    | cons m rest =>
      obtain ⟨next, ready, after, left⟩ := due.ready replier waiting
      obtain ⟨payload, written⟩ := replier.writable due.sane (waiting ▸ List.mem_cons_self)
      have sent : h.sendOne c.kind =
          (.ok (some ⟨⟨c.kind.number h.agent, line.mode⟩, payload⟩),
            { h with agent := c.kind.commit m next h.agent }) := by
        simp [Handle.sendOne, bound, ready, written, taking]
      obtain ⟨others, spent, stopped⟩ := ih (h := { h with agent := c.kind.commit m next h.agent })
        after bound (by simp [left]; simp [waiting] at enough; omega)
      rw [Handle.pumpFor, sent]
      rw [left, replier.number] at others
      exact ⟨.cons ⟨written, rfl⟩ others, spent, stopped⟩

/-- Drawn one by one, all that waits is said in its order, and then there is nothing to say. -/
theorem drainFor (fuel : Nat) {a : A} (due : c.Due Parks Sane a)
    (enough : (c.queue a).length ≤ fuel) :
    (c.kind.drainFor fuel a).1 = c.queue a ∧ c.queue (c.kind.drainFor fuel a).2 = [] ∧
      c.kind.takeNext (c.kind.drainFor fuel a).2 = none := by
  have stops : ∀ {b : A}, c.Due Parks Sane b → c.queue b = [] → c.kind.takeNext b = none := by
    intro b due spent
    rw [AgentKind.takeNext, due.idle replier spent]
    rfl
  induction fuel generalizing a with
  | zero =>
    have spent := List.length_eq_zero_iff.mp (Nat.le_zero.mp enough)
    exact ⟨spent.symm, spent, stops due spent⟩
  | succ fuel ih =>
    cases waiting : c.queue a with
    | nil =>
      have stopped := stops due waiting
      rw [AgentKind.drainFor, stopped]
      exact ⟨rfl, waiting, stopped⟩
    | cons m rest =>
      obtain ⟨next, ready, after, left⟩ := due.ready replier waiting
      have taken : c.kind.takeNext a = some (m, c.kind.commit m next a) := by
        rw [AgentKind.takeNext, ready]
        rfl
      obtain ⟨said, spent, stopped⟩ := ih after (by simp [left]; simp [waiting] at enough; omega)
      rw [AgentKind.drainFor, taken]
      exact ⟨congrArg (m :: ·) (said.trans left), spent, stopped⟩

theorem run {new : A} (sane : Sane new) (spent : c.queue new = [])
    (begins : c.kind.state new = c.kind.protocol.initial) {w : σ}
    {log : List (Note Message Event)} {s : Handle A × σ} (run : c.Run (.new new, w) log s) :
    c.Due Parks Sane s.1.agent ∧ (since log).filterMap Note.queued? =
      (since log).filterMap Note.given? ++ c.queue s.1.agent := by
  have fresh : c.Due Parks Sane new :=
    ⟨sane, c.kind.protocol.initial, by rw [spent, begins]; rfl, .inl replier.initial⟩
  exact replier.keeps.run run ⟨fresh, by simp [since, Handle.new, spent]⟩

theorem replies {new : A} (sane : Sane new) (spent : c.queue new = [])
    (begins : c.kind.state new = c.kind.protocol.initial) {w : σ}
    {log : List (Note Message Event)} {s : Handle A × σ} (run : c.Run (.new new, w) log s) :
    c.Replies Parks log s := by
  obtain ⟨due, own⟩ := replier.run sane spent begins run
  constructor
  case legal => exact due.continues.legal
  case first => exact replier.produce due
  case ready =>
    intro m made
    rw [replier.produce due] at made
    obtain ⟨rest, waiting⟩ := List.head?_eq_some_iff.mp made
    obtain ⟨next, ready, -⟩ := due.ready replier waiting
    exact ⟨next, ready⟩
  case answered =>
    intro m r accepted
    exact due.quiet replier (AgentKind.consume_eq_ok accepted).2.1
  case own => exact own
  case pump =>
    intro line bound taking
    exact replier.pumpFor _ due bound taking ((replier.backlog _).trans (Nat.le_succ _))

end Replier
end Conduct
end ChainRelay
