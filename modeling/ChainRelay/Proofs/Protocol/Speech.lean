import ChainRelay.Proofs.Protocol.History

/-! What the operations of a handle come to once the agent has been asked, or has taken a
message in: messages leave on the line and calls are made, and nothing else befalls the
agent. -/
namespace ChainRelay

variable {σ A State Message Event : Type}

namespace Listeners

/-- What a listener has heard if these calls have been made, and what it is owed. -/
def told (id : Nat) (calls : List (Nat × Event)) (l : Listeners Event) : List Event :=
  (calls ++ l.pending).filterMap fun call => if call.1 = id then some call.2 else none

theorem told_notify {id : Nat} {l : Listeners Event} (once : l.ids.count id = 1)
    (calls : List (Nat × Event)) (e : Event) :
    (l.notify e).told id calls = l.told id calls ++ [e] := by
  have own : (l.ids.map fun i => (i, e)).filterMap
      (fun call => if call.1 = id then some call.2 else none) =
      List.replicate (l.ids.count id) e := by
    induction l.ids with
    | nil => rfl
    | cons i ids ih =>
      by_cases same : i = id
      · simp [same, ih, List.replicate_succ]
      · simp [same, ih]
  rw [once] at own
  simp only [told, notify, ← List.append_assoc, List.filterMap_append, own]
  rfl

theorem told_take (id : Nat) (calls : List (Nat × Event)) (l : Listeners Event) :
    l.take.2.told id (calls ++ l.take.1) = l.told id calls := by
  simp [told, take]

end Listeners

def Note.IsSaid : Note Message Event → Prop
  | given _ (some _) | called _ => True
  | _ => False

theorem Note.came?_of_isSaid {n : Note Message Event} (said : n.IsSaid) : n.came? = none := by
  cases n with
  | given _ _ | called _ => rfl
  | _ => exact said.elim

namespace Conduct

variable (c : Conduct σ A State Message Event)

/-- By nothing but messages that lines take, and calls, which are these. -/
def Speaks (s : Handle A × σ) (e : Effects Event) (t : Handle A × σ) : Prop :=
  ∃ log, c.Run s log t ∧ (∀ note ∈ log, note.IsSaid) ∧
    log.filterMap Note.packet? = e.sent ∧ log.flatMap Note.calls = e.calls

def prepare (h : Handle A) (w : σ) : Action → Handle A × σ
  | .request r => ({ h with agent := (c.ask r h.agent w).1 }, (c.ask r h.agent w).2)
  | _ => (h, w)

variable {c} {s t u : Handle A × σ} {h : Handle A} {w : σ}

theorem Speaks.refl : c.Speaks s ⟨[], []⟩ s := ⟨[], .nil, nofun, rfl, rfl⟩

theorem Speaks.append {d e : Effects Event} (first : c.Speaks s d t) (second : c.Speaks t e u) :
    c.Speaks s ⟨d.sent ++ e.sent, d.calls ++ e.calls⟩ u := by
  obtain ⟨log, ran, said, packets, calls⟩ := first
  obtain ⟨more, later, said', packets', calls'⟩ := second
  refine ⟨log ++ more, ran.append later, ?_, ?_, ?_⟩
  · intro note member
    exact (List.mem_append.mp member).elim (said note) (said' note)
  · rw [List.filterMap_append, packets, packets']
  · rw [List.flatMap_append, calls, calls']

theorem Speaks.of_step {notes : List (Note Message Event)} (step : c.Step s notes t)
    (said : ∀ note ∈ notes, note.IsSaid) :
    c.Speaks s ⟨notes.filterMap Note.packet?, notes.flatMap Note.calls⟩ t :=
  ⟨notes, step.run, said, rfl, rfl⟩

theorem speaks_pumpFor (fuel : Nat) (h : Handle A) (w : σ) :
    c.Speaks (h, w) ⟨(h.pumpFor c.kind fuel).1, []⟩ ((h.pumpFor c.kind fuel).2, w) := by
  induction fuel generalizing h with
  | zero => exact .refl
  | succ fuel ih =>
    cases ready : c.kind.ready h.agent with
    | none =>
      simp only [Handle.pumpFor, Handle.sendOne_of_not_ready ready]
      exact .refl
    | some made =>
      cases sent : h.sendOne c.kind with
      | mk r h' =>
        rcases Handle.sendOne_of_ready ready sent with
          ⟨line, payload, -, -, -, rfl, -⟩ | ⟨none, rfl⟩
        · have step := Speaks.of_step (Step.send (w := w) ready sent)
            (List.forall_mem_singleton.mpr trivial)
          simp only [Handle.pumpFor, sent]
          exact step.append (ih h')
        · cases r with
          | error e =>
            simp only [Handle.pumpFor, sent]
            exact .refl
          | ok sent? =>
            cases sent? with
            | none =>
              simp only [Handle.pumpFor, sent]
              exact .refl
            | some packet => exact absurd rfl (none packet)

theorem speaks_finish (packets : List Packet) (h : Handle A) (w : σ) :
    c.Speaks (h, w) ⟨[], (h.finish c.kind packets).1.calls⟩ ((h.finish c.kind packets).2, w) :=
  ⟨_, Step.call.run, List.forall_mem_singleton.mpr trivial, rfl, by simp [Handle.finish]⟩

theorem speaks_pump (h : Handle A) (w : σ) :
    c.Speaks (h, w) ((h.pump c.kind).2.finish c.kind (h.pump c.kind).1).1
      (((h.pump c.kind).2.finish c.kind (h.pump c.kind).1).2, w) := by
  have sent := (speaks_pumpFor (c := c) (c.kind.backlog h.agent + 1) h w).append
    (speaks_finish (h.pump c.kind).1 (h.pump c.kind).2 w)
  rw [List.append_nil, List.nil_append] at sent
  exact sent

theorem speaks_sendNext (h : Handle A) (w : σ) :
    c.Speaks (h, w) (h.sendNext c.kind).2.1 ((h.sendNext c.kind).2.2, w) := by
  unfold Handle.sendNext
  cases sent : h.sendOne c.kind with
  | mk r h' =>
    cases r with
    | error e =>
      obtain rfl := Handle.eq_of_sendOne sent nofun
      exact speaks_finish [] h' w
    | ok sent? =>
      cases sent? with
      | none =>
        obtain rfl := Handle.eq_of_sendOne sent nofun
        exact speaks_finish [] h' w
      | some packet =>
        cases ready : c.kind.ready h.agent with
        | none =>
          rw [Handle.sendOne_of_not_ready ready] at sent
          cases sent
        | some made =>
          have step := Speaks.of_step (Step.send (w := w) ready sent)
            (List.forall_mem_singleton.mpr trivial)
          exact step.append (speaks_finish [packet] h' w)

theorem speaks_bind (line : Line) (h : Handle A) (w : σ) :
    c.Speaks (h, w) (h.bind c.kind line).2.1 ((h.bind c.kind line).2.2, w) := by
  unfold Handle.bind
  cases bound : h.line with
  | some old => exact speaks_finish [] h w
  | none =>
    have attached := Speaks.of_step (c := c) (Step.bind (w := w) line bound) nofun
    exact attached.append (speaks_pump { h with line := some line } w)

theorem speaks_act (action : Action) (h : Handle A) (w : σ) :
    c.Speaks (c.prepare h w action) (h.act c.kind c.ask w action).1
      (h.act c.kind c.ask w action).2 := by
  cases action with
  | request r => exact speaks_pump _ _
  | pump => exact speaks_pump h w
  | sendNext => exact speaks_sendNext h w
  | bind line => exact speaks_bind line h w

theorem speaks_receive_of_ok {m : Message} {a : A} {w' : σ}
    (accepted : c.kind.consume m h.agent w = .ok (a, w')) :
    c.Speaks ({ h with agent := a }, w') (h.receive c.kind m w).2.1
      (h.receive c.kind m w).2.2 := by
  simp only [Handle.receive, accepted]
  exact speaks_pump _ _

theorem speaks_receive_of_error {m : Message} {v : Violation}
    (refused : c.kind.consume m h.agent w = .error v) :
    c.Speaks (h, w) (h.receive c.kind m w).2.1 (h.receive c.kind m w).2.2 := by
  simp only [Handle.receive, refused]
  exact speaks_finish [] h w

theorem written_run {log : List (Note Message Event)} {m : Message} {packet : Packet}
    (run : c.Run s log t) (given : .given m (some packet) ∈ log) :
    c.kind.protocol.encode m = .ok packet.payload := by
  induction run with
  | nil => cases given
  | snoc _ step ih =>
    rcases List.mem_append.mp given with earlier | last
    · exact ih earlier
    · cases step with
      | ask r => simp at last
      | take accepted => simp at last
      | send ready sent =>
        obtain ⟨rfl, rfl⟩ : m = _ ∧ packet = _ := by simpa using last
        rcases Handle.sendOne_of_ready ready sent with
          ⟨_, payload, -, -, wrote, same, -⟩ | ⟨none, -⟩
        · cases same
          exact wrote
        · exact absurd rfl (none _)
      | refuse _ | fail _ | draw _ | call | bind _ _ | close | unbind | reset | change _ =>
        simp at last

/-- Induction on what is said: a message leaves, or calls are made. -/
theorem Speaks.keeps {I : List Packet → List (Nat × Event) → A → Prop} {e : Effects Event}
    (say : ∀ {sent calls a m next packet}, I sent calls a → c.kind.hasAgency a = true →
      c.kind.produce a = some m → c.kind.protocol.move (c.kind.state a) m = some next →
      c.kind.protocol.encode m = .ok packet.payload →
        I (sent ++ [packet]) calls (c.kind.commit m next a))
    (call : ∀ {sent calls a}, I sent calls a →
      I sent (calls ++ (c.kind.takeCalls a).1) (c.kind.takeCalls a).2)
    (speaks : c.Speaks s e t) (start : I [] [] s.1.agent) : I e.sent e.calls t.1.agent := by
  obtain ⟨log, run, said, packets, called⟩ := speaks
  have keeps : c.Keeps fun log a => (∀ note ∈ log, note.IsSaid) →
      (∀ m packet, .given m (some packet) ∈ log →
        c.kind.protocol.encode m = .ok packet.payload) →
      I (log.filterMap Note.packet?) (log.flatMap Note.calls) a := by
    constructor
    case ask =>
      intro log a r w _ said
      exact (said (.asked r) (by simp)).elim
    case take =>
      intro log m a next w _ _ _ _ said
      exact (said (.taken m) (by simp)).elim
    case give =>
      intro log m a next packet before turn made moved said written
      cases packet with
      | none => exact (said (.given m none) (by simp)).elim
      | some packet =>
        have earlier := before (fun n member => said n (by simp [member]))
          fun m packet member => written m packet (by simp [member])
        simpa using say earlier turn made moved (written m packet (by simp))
    case call =>
      intro log a before said written
      have earlier := before (fun n member => said n (by simp [member]))
        fun m packet member => written m packet (by simp [member])
      simpa [List.filterMap_cons] using call earlier
    case reset =>
      intro log a _ said
      exact (said .reset (by simp)).elim
  rw [← packets, ← called]
  exact keeps.run run (fun _ _ => start) said fun m packet given => written_run run given

end Conduct
end ChainRelay
