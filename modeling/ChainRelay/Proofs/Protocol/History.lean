import ChainRelay.Proofs.Protocol.Lockstep

/-! What befalls an agent behind a handle, one thing at a time, and what is noted of it.
Every operation of a handle is a run of such steps. A run may also be one of an operation
during which the far end of the line goes away, since a line may close between any two. -/
namespace ChainRelay

variable {σ A State Message Event : Type}

/-- How an agent of some kind hears its application, and where its messages wait. -/
structure Conduct (σ A State Message Event : Type) where
  kind : AgentKind σ A State Message Event
  ask : Request → A → σ → A × σ
  queue : A → List Message
  waits : Message → Bool

inductive Note (Message Event : Type) where
  | asked (r : Request)
  | queued (m : Message)
  | taken (m : Message)
  /-- the message has left, and if a line took it, as this packet -/
  | given (m : Message) (packet : Option Packet)
  | called (calls : List (Nat × Event))
  | reset

namespace Note

@[simp]
def queued? : Note Message Event → Option Message
  | queued m => some m
  | _ => none

@[simp]
def given? : Note Message Event → Option Message
  | given m _ => some m
  | _ => none

@[simp]
def packet? : Note Message Event → Option Packet
  | given _ packet => packet
  | _ => none

@[simp]
def passed? : Note Message Event → Option Message
  | taken m | given m _ => some m
  | _ => none

/-- What has come from outside: a request, or a message that was taken in. -/
@[simp]
def came? : Note Message Event → Option (Request ⊕ Message)
  | asked r => some (.inl r)
  | taken m => some (.inr m)
  | _ => none

@[simp]
def calls : Note Message Event → List (Nat × Event)
  | called calls => calls
  | _ => []

end Note

namespace Conduct

variable (c : Conduct σ A State Message Event)

/-- What the queue has got at its end on the way from `a` to `b`. -/
def grown (a b : A) : List (Note Message Event) :=
  ((c.queue b).drop (c.queue a).length).map .queued

inductive Step : Handle A × σ → List (Note Message Event) → Handle A × σ → Prop
  | ask {h : Handle A} {w : σ} (r : Request) :
      Step (h, w) (.asked r :: c.grown h.agent (c.ask r h.agent w).1)
        ({ h with agent := (c.ask r h.agent w).1 }, (c.ask r h.agent w).2)
  | take {h : Handle A} {w w' : σ} {m : Message} {a : A}
      (accepted : c.kind.consume m h.agent w = .ok (a, w')) :
      Step (h, w) (.taken m :: c.grown h.agent a) ({ h with agent := a }, w')
  | refuse {h : Handle A} {w : σ} {m : Message} {v : Violation}
      (refused : c.kind.consume m h.agent w = .error v) : Step (h, w) [] (h, w)
  | send {h h' : Handle A} {w : σ} {m : Message} {next : State} {packet : Packet}
      (ready : c.kind.ready h.agent = some (m, next))
      (sent : h.sendOne c.kind = (.ok (some packet), h')) :
      Step (h, w) [.given m (some packet)] (h', w)
  | draw {h : Handle A} {w : σ} {m : Message} {a : A}
      (taken : c.kind.takeNext h.agent = some (m, a)) :
      Step (h, w) [.given m none] ({ h with agent := a }, w)
  | fail {h h' : Handle A} {w : σ} {e : AgentError} (failed : h.sendOne c.kind = (.error e, h')) :
      Step (h, w) [] (h', w)
  | call {h : Handle A} {w : σ} :
      Step (h, w) [.called (c.kind.takeCalls h.agent).1]
        ({ h with agent := (c.kind.takeCalls h.agent).2 }, w)
  | bind {h : Handle A} {w : σ} (line : Line) (loose : h.line = none) :
      Step (h, w) [] ({ h with line := some line }, w)
  | close {h : Handle A} {w : σ} : Step (h, w) [] (h.closeLine, w)
  | unbind {h : Handle A} {w : σ} : Step (h, w) [] (h.unbind, w)
  | reset {h : Handle A} {w : σ} : Step (h, w) [.reset] (h.reset c.kind, w)
  | change {h : Handle A} {w : σ} (w' : σ) : Step (h, w) [] (h, w')

inductive Act (a : A) (w : σ) : List (Note Message Event) → A × σ → Prop
  | rest (w' : σ) : Act a w [] (a, w')
  | ask (r : Request) : Act a w (.asked r :: c.grown a (c.ask r a w).1) (c.ask r a w)
  | take {m : Message} {next : State} (live : c.kind.isDone a = false)
      (lacks : c.kind.hasAgency a = false)
      (moved : c.kind.protocol.move (c.kind.state a) m = some next) :
      Act a w (.taken m :: c.grown a (c.kind.received m (c.kind.withState next a) w).1)
        (c.kind.received m (c.kind.withState next a) w)
  | give {m : Message} {next : State} (packet : Option Packet) (turn : c.kind.hasAgency a = true)
      (made : c.kind.produce a = some m)
      (moved : c.kind.protocol.move (c.kind.state a) m = some next) :
      Act a w [.given m packet] (c.kind.commit m next a, w)
  | call : Act a w [.called (c.kind.takeCalls a).1] ((c.kind.takeCalls a).2, w)
  | reset : Act a w [.reset] (c.kind.reset a, w)

/-- A run, with all that has been noted of it, oldest first. -/
inductive Run (start : Handle A × σ) : List (Note Message Event) → Handle A × σ → Prop
  | nil : Run start [] start
  | snoc {log notes : List (Note Message Event)} {s t : Handle A × σ}
      (before : Run start log s) (step : c.Step s notes t) : Run start (log ++ notes) t

end Conduct

/-! ### What a send does -/

namespace Handle

variable {k : AgentKind σ A State Message Event} {h h' : Handle A}

theorem sendOne_of_ready {m : Message} {next : State} {r : Except AgentError (Option Packet)}
    (ready : k.ready h.agent = some (m, next)) (sent : h.sendOne k = (r, h')) :
    (∃ line payload, h.line = some line ∧ line.isOpen = true ∧ k.protocol.encode m = .ok payload ∧
      r = .ok (some ⟨⟨k.number h.agent, line.mode⟩, payload⟩) ∧
      h' = { h with agent := k.commit m next h.agent }) ∨
    ((∀ packet, r ≠ .ok (some packet)) ∧ h' = h) := by
  cases bound : h.line with
  | none =>
    simp only [sendOne, bound] at sent
    cases sent
    exact .inr ⟨by rintro packet ⟨⟩, rfl⟩
  | some line =>
    simp only [sendOne, bound, ready] at sent
    cases written : k.protocol.encode m with
    | error e =>
      rw [written] at sent
      cases sent
      exact .inr ⟨by rintro packet ⟨⟩, rfl⟩
    | ok payload =>
      rw [written] at sent
      cases taking : line.isOpen with
      | false =>
        simp only [taking, Bool.false_eq_true, if_false] at sent
        cases sent
        exact .inr ⟨by rintro packet ⟨⟩, rfl⟩
      | true =>
        simp only [taking, if_true] at sent
        cases sent
        exact .inl ⟨line, payload, rfl, taking, rfl, rfl, rfl⟩

theorem sendOne_of_not_ready (idle : k.ready h.agent = none) : h.sendOne k = (.ok none, h) := by
  unfold sendOne
  rw [idle]
  cases h.line <;> rfl

theorem eq_of_sendOne {r : Except AgentError (Option Packet)} (sent : h.sendOne k = (r, h'))
    (none : ∀ packet, r ≠ .ok (some packet)) : h' = h := by
  cases ready : k.ready h.agent with
  | none =>
    rw [sendOne_of_not_ready ready] at sent
    cases sent
    rfl
  | some made =>
    rcases sendOne_of_ready ready sent with ⟨line, payload, -, -, -, same, -⟩ | ⟨-, kept⟩
    · exact absurd same (none _)
    · exact kept

end Handle

/-! ### Induction on a run -/

namespace AgentKind

variable {k : AgentKind σ A State Message Event}

theorem consume_eq_ok {m : Message} {a : A} {w : σ} {r : A × σ}
    (accepted : k.consume m a w = .ok r) :
    k.isDone a = false ∧ k.hasAgency a = false ∧
      ∃ next, k.protocol.move (k.state a) m = some next ∧
        r = k.received m (k.withState next a) w := by
  simp only [consume] at accepted
  split at accepted
  · cases accepted
  · rename_i live
    split at accepted
    · cases accepted
    · rename_i lacks
      split at accepted
      · cases accepted
      · rename_i next moved
        cases accepted
        exact ⟨by simpa using live, by simpa using lacks, next, moved, rfl⟩

end AgentKind

namespace Conduct

variable {c : Conduct σ A State Message Event} {log notes : List (Note Message Event)}
  {s t u : Handle A × σ}

@[simp]
theorem queued?_grown (a b : A) :
    (c.grown a b).filterMap Note.queued? = (c.queue b).drop (c.queue a).length := by
  rw [grown, List.filterMap_map]
  exact List.filterMap_some

theorem filterMap_grown {β : Type} {f : Note Message Event → Option β}
    (none : ∀ m, f (.queued m) = none) (a b : A) : (c.grown a b).filterMap f = [] := by
  rw [grown, List.filterMap_map]
  exact List.filterMap_eq_nil_iff.mpr fun m _ => none m

@[simp]
theorem given?_grown (a b : A) : (c.grown a b).filterMap Note.given? = [] :=
  filterMap_grown (fun _ => rfl) a b

@[simp]
theorem packet?_grown (a b : A) : (c.grown a b).filterMap Note.packet? = [] :=
  filterMap_grown (fun _ => rfl) a b

@[simp]
theorem passed?_grown (a b : A) : (c.grown a b).filterMap Note.passed? = [] :=
  filterMap_grown (fun _ => rfl) a b

@[simp]
theorem came?_grown (a b : A) : (c.grown a b).filterMap Note.came? = [] :=
  filterMap_grown (fun _ => rfl) a b

theorem filterMap_noted {β : Type} {f : Note Message Event → Option β}
    (none : ∀ m, f (.queued m) = none) (log : List (Note Message Event))
    (n : Note Message Event) (a b : A) :
    (log ++ n :: c.grown a b).filterMap f = log.filterMap f ++ (f n).toList := by
  rw [List.filterMap_append, List.filterMap_cons, filterMap_grown none]
  cases f n <;> rfl

@[simp]
theorem calls_grown (a b : A) : (c.grown a b).flatMap Note.calls = [] := by
  rw [grown, List.flatMap_map]
  simp

@[simp]
theorem given_notMem_grown (m : Message) (packet : Option Packet) (a b : A) :
    .given m packet ∉ c.grown a b := by
  intro member
  obtain ⟨_, -, same⟩ := List.mem_map.mp member
  cases same

@[simp]
theorem reset_notMem_grown (a b : A) : .reset ∉ c.grown a b := by
  intro member
  obtain ⟨_, -, same⟩ := List.mem_map.mp member
  cases same

theorem Step.act (step : c.Step s notes t) : c.Act s.1.agent s.2 notes (t.1.agent, t.2) := by
  cases step with
  | ask r => exact .ask r
  | @take _ w _ _ _ accepted =>
    obtain ⟨live, lacks, next, moved, same⟩ := AgentKind.consume_eq_ok accepted
    have act := Act.take (w := w) live lacks moved
    rwa [← same] at act
  | send ready sent =>
    obtain ⟨turn, made, moved⟩ := AgentKind.ready_eq_some.mp ready
    rcases Handle.sendOne_of_ready ready sent with ⟨_, _, -, -, -, -, rfl⟩ | ⟨none, -⟩
    · exact .give _ turn made moved
    · exact absurd rfl (none _)
  | draw taken =>
    obtain ⟨⟨m, next⟩, ready, same⟩ := Option.map_eq_some_iff.mp taken
    obtain ⟨turn, made, moved⟩ := AgentKind.ready_eq_some.mp ready
    cases same
    exact .give none turn made moved
  | fail failed =>
    rw [Handle.eq_of_sendOne failed nofun]
    exact .rest _
  | call => exact .call
  | reset => exact .reset
  | refuse _ | bind _ _ | close | unbind => exact .rest _
  | change w' => exact .rest w'

/-- What holds of an agent and of what has been noted of it, whatever befalls it. -/
structure Keeps (c : Conduct σ A State Message Event)
    (I : List (Note Message Event) → A → Prop) : Prop where
  ask : ∀ {log a} r w, I log a →
    I (log ++ .asked r :: c.grown a (c.ask r a w).1) (c.ask r a w).1
  take : ∀ {log m a next} w, I log a → c.kind.isDone a = false → c.kind.hasAgency a = false →
    c.kind.protocol.move (c.kind.state a) m = some next →
    I (log ++ .taken m :: c.grown a (c.kind.received m (c.kind.withState next a) w).1)
      (c.kind.received m (c.kind.withState next a) w).1
  give : ∀ {log m a next} packet, I log a → c.kind.hasAgency a = true →
    c.kind.produce a = some m → c.kind.protocol.move (c.kind.state a) m = some next →
    I (log ++ [.given m packet]) (c.kind.commit m next a)
  call : ∀ {log a}, I log a →
    I (log ++ [.called (c.kind.takeCalls a).1]) (c.kind.takeCalls a).2
  reset : ∀ {log a}, I log a → I (log ++ [.reset]) (c.kind.reset a)

theorem Keeps.act {I : List (Note Message Event) → A → Prop} (keeps : c.Keeps I) {a : A} {w : σ}
    {r : A × σ} (act : c.Act a w notes r) (before : I log a) : I (log ++ notes) r.1 := by
  cases act with
  | rest _ =>
    rw [List.append_nil]
    exact before
  | ask r => exact keeps.ask r w before
  | take live lacks moved => exact keeps.take w before live lacks moved
  | give packet turn made moved => exact keeps.give packet before turn made moved
  | call => exact keeps.call before
  | reset => exact keeps.reset before

theorem Keeps.step {I : List (Note Message Event) → A → Prop} (keeps : c.Keeps I)
    (step : c.Step s notes t) (before : I log s.1.agent) : I (log ++ notes) t.1.agent :=
  keeps.act step.act before

theorem Keeps.run {I : List (Note Message Event) → A → Prop} (keeps : c.Keeps I)
    (run : c.Run s log t) (start : I [] s.1.agent) : I log t.1.agent := by
  induction run with
  | nil => exact start
  | snoc _ step ih => exact keeps.step step ih

theorem Step.run (step : c.Step s notes t) : c.Run s notes t :=
  .snoc .nil step

theorem Run.append {more : List (Note Message Event)} (first : c.Run s log t)
    (second : c.Run t more u) : c.Run s (log ++ more) u := by
  induction second with
  | nil => simpa using first
  | snoc _ step ih =>
    rw [← List.append_assoc]
    exact .snoc ih step

end Conduct
end ChainRelay
