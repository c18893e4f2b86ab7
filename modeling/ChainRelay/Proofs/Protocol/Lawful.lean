import ChainRelay.Proofs.Protocol.Codec
import ChainRelay.Proofs.Protocol.Turns
import ChainRelay.Protocol.Handle

/-! What a handle does to the far end. Whatever an agent sends is a run of messages
that its side may send, each allowed in its turn, from the state where the agent was to
the state where it is. -/
namespace ChainRelay

variable {σ A State Message Event : Type}

namespace AgentKind

/-- How an agent kind keeps its state apart from its bookkeeping. `Sane` is what its
bookkeeping keeps to, and `Fits` holds of the messages that it makes and takes. -/
structure Lawful (k : AgentKind σ A State Message Event) (p : Protocol State Message)
    (role : Role) (Fits : Message → Prop) (Sane : A → Prop) : Prop where
  protocol_eq : k.protocol = p
  role_eq : ∀ {a}, Sane a → k.role a = role
  state_withState : ∀ s a, k.state (k.withState s a) = s
  state_sent : ∀ m a, k.state (k.sent m a) = k.state a
  state_received : ∀ m a w, k.state (k.received m a w).1 = k.state a
  state_withListeners : ∀ l a, k.state (k.withListeners l a) = k.state a
  sane_withState : ∀ {a} s, Sane a → Sane (k.withState s a)
  sane_sent : ∀ {a} m, Sane a → Sane (k.sent m a)
  sane_received : ∀ {m a} w, Fits m → Sane a → Sane (k.received m a w).1
  sane_withListeners : ∀ {a} l, Sane a → Sane (k.withListeners l a)
  fits_produce : ∀ {a m}, Sane a → k.produce a = some m → Fits m

theorem ready_eq_some {k : AgentKind σ A State Message Event} {a : A} {m : Message} {next : State} :
    k.ready a = some (m, next) ↔
      k.hasAgency a = true ∧ k.produce a = some m ∧ k.protocol.move (k.state a) m = some next := by
  rw [ready]
  split
  · rename_i holds
    simp only [holds, true_and]
    cases made : k.produce a with
    | none => simp
    | some n =>
      cases moved : k.protocol.move (k.state a) n with
      | none =>
        simp only [Option.bind_eq_bind, Option.bind_some, moved, Option.bind_none]
        constructor
        · intro same
          cases same
        · rintro ⟨⟨⟩, same⟩
          rw [moved] at same
          cases same
      | some s =>
        simp only [Option.bind_eq_bind, Option.bind_some, moved, Option.pure_def,
          Option.some.injEq, Prod.mk.injEq]
        constructor
        · rintro ⟨rfl, rfl⟩
          exact ⟨rfl, moved⟩
        · rintro ⟨rfl, same⟩
          rw [moved] at same
          exact ⟨rfl, Option.some.inj same⟩
  · rename_i lacks
    simp [lacks]

theorem takeNext_of_moves {k : AgentKind σ A State Message Event} {a : A} {m : Message}
    {next : State} (turn : k.hasAgency a = true) (made : k.produce a = some m)
    (moved : k.protocol.move (k.state a) m = some next) :
    k.takeNext a = some (m, k.commit m next a) := by
  rw [takeNext, ready_eq_some.mpr ⟨turn, made, moved⟩]
  rfl

theorem takeNext_of_lacks {k : AgentKind σ A State Message Event} {a : A}
    (lacks : k.hasAgency a = false) : k.takeNext a = none := by
  rw [takeNext, ready, lacks]
  rfl

theorem consume_of_moves {k : AgentKind σ A State Message Event} {role : Role} {m : Message} {a : A}
    {next : State} (side : k.role a = role)
    (holds : role.peer.holds (k.protocol.agency (k.state a)) = true)
    (moved : k.protocol.move (k.state a) m = some next) (w : σ) :
    k.consume m a w = .ok (k.received m (k.withState next a) w) := by
  have live : k.isDone a = false := decide_eq_false (Role.ne_nobody_of_holds holds)
  have lacks : k.hasAgency a = false := by
    rw [AgentKind.hasAgency, side]
    exact Role.holds_of_peer holds
  simp only [consume, live, lacks, moved, Bool.false_eq_true, if_false]

end AgentKind

namespace Protocol

variable {p : Protocol State Message} {Fits : Message → Prop} {role : Role}

def Reads (p : Protocol State Message) (Fits : Message → Prop) (b : Bytes) (m : Message) : Prop :=
  Fits m ∧ p.decode b = .ok m

theorem Carries.moves {s t : State} {bs : List Bytes}
    (run : p.Carries (p.Reads Fits) role s bs t) :
    ∃ ms, bs.mapM p.decode = .ok ms ∧ p.moves s ms = some t := by
  induction bs generalizing s with
  | nil =>
    cases run
    exact ⟨[], rfl, rfl⟩
  | cons b bs ih =>
    obtain ⟨m, next, -, ⟨-, read⟩, moved, later⟩ := run
    obtain ⟨ms, decoded, led⟩ := ih later
    refine ⟨m :: ms, ?_, ?_⟩
    · rw [List.mapM_cons, read, decoded]
      rfl
    · rw [Protocol.moves, moved]
      exact led

end Protocol

namespace Handle

variable {k : AgentKind σ A State Message Event} {p : Protocol State Message} {role : Role}
  {Fits : Message → Prop} {Sane : A → Prop} {carried : Message → Message}

/-- From one handle to another with these bytes sent in between. -/
structure Sends (k : AgentKind σ A State Message Event) (p : Protocol State Message)
    (role : Role) (Fits : Message → Prop) (Sane : A → Prop) (h : Handle A) (bs : List Bytes)
    (h' : Handle A) : Prop where
  sane : Sane h'.agent
  carries : p.Carries (p.Reads Fits) role (k.state h.agent) bs (k.state h'.agent)

theorem Sends.refl {h : Handle A} (sane : Sane h.agent) : Sends k p role Fits Sane h [] h :=
  ⟨sane, rfl⟩

theorem Sends.append {h i j : Handle A} {as bs : List Bytes}
    (first : Sends k p role Fits Sane h as i) (second : Sends k p role Fits Sane i bs j) :
    Sends k p role Fits Sane h (as ++ bs) j :=
  ⟨second.sane, first.carries.append second.carries⟩

theorem sends_finish (lawful : k.Lawful p role Fits Sane) {h h' : Handle A} {packets : List Packet}
    (ran : Sends k p role Fits Sane h (packets.map (·.payload)) h') :
    Sends k p role Fits Sane h ((finish k packets h').1.sent.map (·.payload))
      (finish k packets h').2 :=
  ⟨lawful.sane_withListeners _ ran.sane, by
    rw [show k.state (finish k packets h').2.agent = k.state h'.agent from
      lawful.state_withListeners _ _]
    exact ran.carries⟩

section
variable (lawful : k.Lawful p role Fits Sane) (conveys : p.Conveys Fits carried)
include lawful conveys

theorem sends_sendOne {h h' : Handle A} {r : Except AgentError (Option Packet)}
    (sane : Sane h.agent) (ran : sendOne k h = (r, h')) :
    (∃ packet, r = .ok (some packet) ∧ Sends k p role Fits Sane h [packet.payload] h') ∨
      ((∀ packet, r ≠ .ok (some packet)) ∧ h' = h) := by
  cases lawful.protocol_eq
  cases bound : h.line with
  | none =>
    simp only [sendOne, bound] at ran
    cases ran
    exact .inr ⟨nofun, rfl⟩
  | some line =>
    cases ready : k.ready h.agent with
    | none =>
      simp only [sendOne, bound, ready] at ran
      cases ran
      exact .inr ⟨nofun, rfl⟩
    | some made =>
      obtain ⟨m, next⟩ := made
      obtain ⟨holds, produced, moved⟩ := AgentKind.ready_eq_some.mp ready
      have fits := lawful.fits_produce sane produced
      obtain ⟨b, encoded, decoded⟩ := conveys.delivered fits
      simp only [sendOne, bound, ready, encoded] at ran
      split at ran
      · cases ran
        have reached : k.state (k.commit m next h.agent) = next := by
          rw [AgentKind.commit, lawful.state_sent, lawful.state_withState]
        rw [AgentKind.hasAgency, lawful.role_eq sane] at holds
        refine .inl ⟨_, rfl, lawful.sane_sent m (lawful.sane_withState next sane), carried m, next,
          holds, ⟨conveys.fits fits, decoded⟩, ?_, reached.symm⟩
        rw [conveys.moved]
        exact moved
      · cases ran
        exact .inr ⟨nofun, rfl⟩

theorem sends_pumpFor (fuel : Nat) {h : Handle A} (sane : Sane h.agent) :
    Sends k p role Fits Sane h ((pumpFor k fuel h).1.map (·.payload)) (pumpFor k fuel h).2 := by
  induction fuel generalizing h with
  | zero => exact .refl sane
  | succ fuel ih =>
    cases ran : sendOne k h with
    | mk r h' =>
      rcases sends_sendOne lawful conveys sane ran with ⟨packet, rfl, one⟩ | ⟨none, rfl⟩
      · simp only [pumpFor, ran]
        exact one.append (ih one.sane)
      · simp only [pumpFor, ran]
        exact .refl sane

theorem sends_pump {h : Handle A} (sane : Sane h.agent) :
    Sends k p role Fits Sane h ((pump k h).1.map (·.payload)) (pump k h).2 :=
  sends_pumpFor lawful conveys _ sane

theorem sends_sendNext {h : Handle A} (sane : Sane h.agent) :
    Sends k p role Fits Sane h ((sendNext k h).2.1.sent.map (·.payload)) (sendNext k h).2.2 := by
  cases ran : sendOne k h with
  | mk r h' =>
    rcases sends_sendOne lawful conveys sane ran with ⟨packet, rfl, one⟩ | ⟨none, rfl⟩
    · simp only [sendNext, ran]
      exact sends_finish lawful one
    · cases r with
      | error e =>
        simp only [sendNext, ran]
        exact sends_finish lawful (.refl sane)
      | ok o =>
        cases o with
        | none =>
          simp only [sendNext, ran]
          exact sends_finish lawful (.refl sane)
        | some packet => exact absurd rfl (none packet)

theorem sends_update {f : A → σ → A × σ} {h : Handle A} {w : σ}
    (sane : Sane (f h.agent w).1) (same : k.state (f h.agent w).1 = k.state h.agent) :
    Sends k p role Fits Sane h ((update k f h w).1.sent.map (·.payload)) (update k f h w).2.1 := by
  have start : Sends k p role Fits Sane h [] { h with agent := (f h.agent w).1 } :=
    ⟨sane, same.symm⟩
  exact sends_finish lawful (start.append (sends_pump lawful conveys sane))

theorem sends_bind {h : Handle A} (line : Line) (sane : Sane h.agent) :
    Sends k p role Fits Sane h ((bind k line h).2.1.sent.map (·.payload)) (bind k line h).2.2 := by
  cases bound : h.line with
  | some old =>
    simp only [bind, bound]
    exact sends_finish lawful (.refl sane)
  | none =>
    simp only [bind, bound]
    have start : Sends k p role Fits Sane h [] { h with line := some line } := ⟨sane, rfl⟩
    exact sends_finish lawful (start.append (sends_pump lawful conveys sane))

end

theorem sends_deliver (lawful : k.Lawful p role Fits Sane) (conveys : p.Conveys Fits carried)
    {m : Message} {h : Handle A} {b : Bytes} {next : State} (sane : Sane h.agent)
    (holds : role.peer.holds (p.agency (k.state h.agent)) = true) (read : p.Reads Fits b m)
    (moved : p.move (k.state h.agent) m = some next) (w : σ) :
    Sane (deliver k b h w).2.1.agent ∧
      p.Carries (p.Reads Fits) role next ((deliver k b h w).1.sent.map (·.payload))
        (k.state (deliver k b h w).2.1.agent) := by
  obtain ⟨fits, decoded⟩ := read
  cases lawful.protocol_eq
  have taken := AgentKind.consume_of_moves (lawful.role_eq sane) holds moved w
  have reached : k.state (k.received m (k.withState next h.agent) w).1 = next := by
    rw [lawful.state_received, lawful.state_withState]
  have kept := lawful.sane_received w fits (lawful.sane_withState next sane)
  have ran := sends_finish lawful
    (sends_pump (h := { h with agent := (k.received m (k.withState next h.agent) w).1 })
      lawful conveys kept)
  simp only [deliver, decoded, receive, taken]
  refine ⟨ran.sane, ?_⟩
  have led : k.protocol.Carries (k.protocol.Reads Fits) role
    (k.state (k.received m (k.withState next h.agent) w).1) _ _ := ran.carries
  rw [reached] at led
  exact led

end Handle
end ChainRelay
