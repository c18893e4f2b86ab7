import ChainRelay.Proofs.Protocol.Conducts
import ChainRelay.Proofs.Protocol.Speech

/-! Sends that fail, and lines that are replaced. The state of an agent is where the messages
lead that lines have taken and that it has taken in, and what waits in a queue goes out in
the order in which it was put there, whichever lines it goes out on. -/
namespace ChainRelay

variable {σ A State Message Event : Type}

theorem Protocol.moves_append (p : Protocol State Message) (s : State) (ms ns : List Message) :
    p.moves s (ms ++ ns) = (p.moves s ms).bind fun t => p.moves t ns := by
  induction ms generalizing s with
  | nil => rfl
  | cons m ms ih =>
    simp only [List.cons_append, moves]
    cases p.move s m with
    | none => rfl
    | some next => exact ih next

/-- The operations of a handle, but for a reset. -/
inductive Operation (Message : Type) where
  | act (action : Action)
  | receive (m : Message)
  | deliver (payload : Bytes)
  | unbind

namespace Conduct

variable (c : Conduct σ A State Message Event)

def perform (h : Handle A) (w : σ) : Operation Message → Effects Event × Handle A × σ
  | .act action => h.act c.kind c.ask w action
  | .receive m => (h.receive c.kind m w).2
  | .deliver payload => h.deliver c.kind payload w
  | .unbind => (⟨[], []⟩, h.unbind, w)

def accepted (h : Handle A) (w : σ) (m : Message) : List (Request ⊕ Message) :=
  if (c.kind.consume m h.agent w).isOk then [.inr m] else []

/-- What an operation brings to the agent: a request, or a message if the agent takes it in. -/
def brought (h : Handle A) (w : σ) : Operation Message → List (Request ⊕ Message)
  | .act (.request r) => [.inl r]
  | .act _ | .unbind => []
  | .receive m => c.accepted h w m
  | .deliver payload =>
    match c.kind.protocol.decode payload with
    | .error _ => []
    | .ok m => c.accepted h w m

/-- By a run without a reset, in which this has come from outside, lines take these packets,
nothing leaves but on lines, and these calls are made. -/
def Does (s : Handle A × σ) (came : List (Request ⊕ Message)) (e : Effects Event)
    (t : Handle A × σ) : Prop :=
  ∃ log, c.Run s log t ∧ .reset ∉ log ∧ (∀ m, .given m none ∉ log) ∧
    log.filterMap Note.came? = came ∧ log.filterMap Note.packet? = e.sent ∧
    log.flatMap Note.calls = e.calls

/-- No send that fails takes anything from an agent that began as `new`. -/
structure Lossless (new : A) : Prop where
  fresh : c.kind.state new = c.kind.protocol.initial
  operation : ∀ op h w, c.Does (h, w) (c.brought h w op) (c.perform h w op).1 (c.perform h w op).2
  state : ∀ {s log t}, c.Run s log t → .reset ∉ log →
    c.kind.protocol.moves (c.kind.state s.1.agent) (log.filterMap Note.passed?) =
      some (c.kind.state t.1.agent)
  written : ∀ {s log t m packet}, c.Run s log t → .given m (some packet) ∈ log →
    c.kind.protocol.encode m = .ok packet.payload
  /-- what is ready goes out on an open line -/
  sends : ∀ {h : Handle A} {m : Message} {next : State} {payload : Bytes} {line : Line},
    h.line = some line → c.kind.ready h.agent = some (m, next) →
      c.kind.protocol.encode m = .ok payload → line.isOpen = true →
        (h.sendNext c.kind).1 = .ok true ∧
          (h.sendNext c.kind).2.1.sent = [⟨⟨c.kind.number h.agent, line.mode⟩, payload⟩]
  unsent : ∀ {h h' : Handle A} {e : AgentError}, h.sendOne c.kind = (.error e, h') → h' = h
  /-- calls that are owed to listeners are made; all else is as it was -/
  failed : ∀ {h h' : Handle A} {e : AgentError} {effects : Effects Event},
    h.sendNext c.kind = (.error e, effects, h') →
      effects.sent = [] ∧ h'.line = h.line ∧
        c.kind.withListeners (c.kind.listeners h.agent) h'.agent = h.agent ∧
        c.kind.ready h'.agent = c.kind.ready h.agent
  /-- the next open line takes first what was not sent -/
  resumed : ∀ {h h' : Handle A} {e : AgentError} {effects : Effects Event} {m : Message}
      {next : State} {payload : Bytes} {line : Line},
    h.sendNext c.kind = (.error e, effects, h') → c.kind.ready h.agent = some (m, next) →
      c.kind.protocol.encode m = .ok payload → line.isOpen = true →
        (h'.unbind.bind c.kind line).2.1.sent.head? =
          some ⟨⟨c.kind.number h.agent, line.mode⟩, payload⟩

/-- What waits goes out in the order in which it was put in the queue, each once. -/
structure InTurn : Prop where
  order : ∀ {s log t}, c.Run s log t → .reset ∉ log →
    c.queue s.1.agent ++ log.filterMap Note.queued? =
      (log.filterMap Note.given?).filter c.waits ++ c.queue t.1.agent

variable {c}

/-! ### Operations are runs -/

variable {s t u : Handle A × σ} {h : Handle A} {w : σ}

theorem Does.refl : c.Does s [] ⟨[], []⟩ s := ⟨[], .nil, by simp, by simp, rfl, rfl, rfl⟩

theorem Does.append {came more : List (Request ⊕ Message)} {d e : Effects Event}
    (first : c.Does s came d t) (second : c.Does t more e u) :
    c.Does s (came ++ more) ⟨d.sent ++ e.sent, d.calls ++ e.calls⟩ u := by
  obtain ⟨log, ran, whole, lined, rfl, packets, calls⟩ := first
  obtain ⟨log', later, whole', lined', rfl, packets', calls'⟩ := second
  refine ⟨log ++ log', ran.append later, ?_, ?_, ?_, ?_, ?_⟩
  · simp [whole, whole']
  · simp [lined, lined']
  · rw [List.filterMap_append]
  · rw [List.filterMap_append, packets, packets']
  · rw [List.flatMap_append, calls, calls']

theorem Speaks.does {e : Effects Event} (speaks : c.Speaks s e t) : c.Does s [] e t := by
  obtain ⟨log, ran, said, packets, calls⟩ := speaks
  refine ⟨log, ran, ?_, ?_, ?_, packets, calls⟩
  · exact fun member => said _ member
  · exact fun m member => said _ member
  · exact List.filterMap_eq_nil_iff.mpr fun note member => Note.came?_of_isSaid (said note member)

theorem Does.speaks {came : List (Request ⊕ Message)} {e : Effects Event}
    (first : c.Does s came ⟨[], []⟩ t) (later : c.Speaks t e u) : c.Does s came e u := by
  have whole := first.append later.does
  rwa [List.append_nil] at whole

theorem does_prepare (action : Action) (h : Handle A) (w : σ) :
    c.Does (h, w) (c.brought h w (.act action)) ⟨[], []⟩ (c.prepare h w action) := by
  cases action with
  | request r =>
    exact ⟨_, (Step.ask r).run, by simp, by simp, by simp [brought],
      by simp [List.filterMap_cons], by simp⟩
  | pump | sendNext | bind line => exact .refl

theorem does_receive (m : Message) (h : Handle A) (w : σ) :
    c.Does (h, w) (c.accepted h w m) (h.receive c.kind m w).2.1 (h.receive c.kind m w).2.2 := by
  rw [accepted]
  cases arrived : c.kind.consume m h.agent w with
  | error v => exact (speaks_receive_of_error arrived).does
  | ok called =>
    have taken : c.Does (h, w) [.inr m] ⟨[], []⟩ ({ h with agent := called.1 }, called.2) :=
      ⟨_, (Step.take arrived).run, by simp, by simp, by simp, by simp [List.filterMap_cons],
        by simp⟩
    exact taken.speaks (speaks_receive_of_ok arrived)

theorem does_perform (op : Operation Message) (h : Handle A) (w : σ) :
    c.Does (h, w) (c.brought h w op) (c.perform h w op).1 (c.perform h w op).2 := by
  cases op with
  | act action => exact (does_prepare action h w).speaks (speaks_act action h w)
  | receive m => exact does_receive m h w
  | deliver payload =>
    simp only [perform, brought, Handle.deliver]
    cases c.kind.protocol.decode payload with
    | error _ => exact .refl
    | ok m => exact does_receive m h w
  | unbind => exact ⟨_, Step.unbind.run, by simp, by simp, rfl, rfl, rfl⟩

/-! ### What a run comes to -/

variable {log : List (Note Message Event)}

theorem Plain.moves_run (plain : c.Plain) (run : c.Run s log t) (whole : .reset ∉ log) :
    c.kind.protocol.moves (c.kind.state s.1.agent) (log.filterMap Note.passed?) =
      some (c.kind.state t.1.agent) := by
  have keeps : c.Keeps fun log a => .reset ∉ log →
      c.kind.protocol.moves (c.kind.state s.1.agent) (log.filterMap Note.passed?) =
        some (c.kind.state a) := by
    constructor
    case ask =>
      intro log a r w led whole
      have before := led (by simp_all)
      simpa [List.filterMap_cons, plain.state_ask] using before
    case take =>
      intro log m a next w led live lacks moved whole
      have before := led (by simp_all)
      simp [Protocol.moves_append, before, Protocol.moves, moved,
        plain.state_received, plain.state_withState]
    case give =>
      intro log m a next packet led turn made moved whole
      have before := led (by simp_all)
      simp [Protocol.moves_append, before, Protocol.moves, moved,
        plain.state_commit]
    case call =>
      intro log a led whole
      have before := led (by simp_all)
      simpa [List.filterMap_cons, AgentKind.takeCalls, plain.state_withListeners] using before
    case reset =>
      intro log a led whole
      simp at whole
  exact keeps.run run (fun _ => rfl) whole

theorem InLine.order_run (line : c.InLine) (run : c.Run s log t) (whole : .reset ∉ log) :
    c.queue s.1.agent ++ log.filterMap Note.queued? =
      (log.filterMap Note.given?).filter c.waits ++ c.queue t.1.agent := by
  have keeps : c.Keeps fun log a => .reset ∉ log →
      c.queue s.1.agent ++ log.filterMap Note.queued? =
        (log.filterMap Note.given?).filter c.waits ++ c.queue a := by
    constructor
    case ask =>
      intro log a r w led whole
      have before := led (by simp_all)
      have longer := List.prefix_iff_eq_append.mp (line.queue_ask r a w)
      rw [List.filterMap_append, ← List.append_assoc, before, List.append_assoc]
      simpa [List.filterMap_cons] using longer
    case take =>
      intro log m a next w led live lacks moved whole
      have before := led (by simp_all)
      have longer := List.prefix_iff_eq_append.mp
        (line.queue_received m (c.kind.withState next a) w)
      rw [line.queue_withState] at longer
      rw [List.filterMap_append, ← List.append_assoc, before, List.append_assoc]
      simpa [List.filterMap_cons] using longer
    case give =>
      intro log m a next packet led turn made moved whole
      have before := led (by simp_all)
      rw [line.queue_commit next made] at before
      simpa [List.filterMap_cons] using before
    case call =>
      intro log a led whole
      have before := led (by simp_all)
      simpa [List.filterMap_cons, AgentKind.takeCalls, line.queue_withListeners] using before
    case reset =>
      intro log a led whole
      simp at whole
  exact keeps.run run (fun _ => by simp) whole

/-! ### Sends that fail -/

theorem Plain.ready_withListeners (plain : c.Plain) (l : Listeners Event) (a : A) :
    c.kind.ready (c.kind.withListeners l a) = c.kind.ready a := by
  have turn : c.kind.hasAgency (c.kind.withListeners l a) = c.kind.hasAgency a := by
    simp only [AgentKind.hasAgency, AgentKind.agency, plain.role_withListeners,
      plain.state_withListeners]
  unfold AgentKind.ready
  rw [turn, plain.produce_withListeners, plain.state_withListeners]

theorem sendOne_of_sendNext {h' : Handle A} {e : AgentError} {effects : Effects Event}
    (failed : h.sendNext c.kind = (.error e, effects, h')) :
    h.sendOne c.kind = (.error e, h) ∧ (effects, h') = h.finish c.kind [] := by
  unfold Handle.sendNext at failed
  cases sent : h.sendOne c.kind with
  | mk r h'' =>
    rw [sent] at failed
    cases r with
    | error _ =>
      obtain rfl := Handle.eq_of_sendOne sent nofun
      cases failed
      exact ⟨rfl, rfl⟩
    | ok sent? => cases sent? <;> cases failed

section Open

variable {line : Line} {m : Message} {next : State} {payload : Bytes} (bound : h.line = some line)
  (ready : c.kind.ready h.agent = some (m, next))
  (written : c.kind.protocol.encode m = .ok payload) (taking : line.isOpen = true)

include bound ready written taking

theorem sendOne_of_open :
    h.sendOne c.kind = (.ok (some ⟨⟨c.kind.number h.agent, line.mode⟩, payload⟩),
      { h with agent := c.kind.commit m next h.agent }) := by
  simp only [Handle.sendOne, bound, ready, written, taking, if_true]

theorem sendNext_of_open :
    (h.sendNext c.kind).1 = .ok true ∧
      (h.sendNext c.kind).2.1.sent = [⟨⟨c.kind.number h.agent, line.mode⟩, payload⟩] := by
  rw [Handle.sendNext, sendOne_of_open bound ready written taking]
  exact ⟨rfl, rfl⟩

theorem head?_pump :
    (h.pump c.kind).1.head? = some ⟨⟨c.kind.number h.agent, line.mode⟩, payload⟩ := by
  rw [Handle.pump, Handle.pumpFor, sendOne_of_open bound ready written taking]
  rfl

end Open

theorem Plain.lossless (plain : c.Plain) {new : A}
    (fresh : c.kind.state new = c.kind.protocol.initial) : c.Lossless new where
  fresh := fresh
  operation := does_perform
  state := plain.moves_run
  written := written_run
  sends := sendNext_of_open
  unsent failed := Handle.eq_of_sendOne failed nofun
  failed failed := by
    obtain ⟨-, same⟩ := sendOne_of_sendNext failed
    cases same
    exact ⟨rfl, rfl, plain.restore _ _, plain.ready_withListeners _ _⟩
  resumed := by
    intro h h' e effects m next payload line failed ready written taking
    obtain ⟨-, same⟩ := sendOne_of_sendNext failed
    cases same
    rw [← plain.number_withListeners (c.kind.listeners h.agent).take.2]
    exact head?_pump rfl ((plain.ready_withListeners _ _).trans ready) written taking

theorem InLine.inTurn (line : c.InLine) : c.InTurn := ⟨line.order_run⟩

end Conduct

/-- Every agent, whatever its chain answers. -/
theorem agents_lossless (chain : ChainSource σ) :
    (∀ role versions, (Handshake.Party.conduct σ).Lossless (.new role versions)) ∧
    (∀ candidates flavor, (ChainSync.Client.conduct σ).Lossless (.new candidates flavor)) ∧
    (∀ flavor window, (ChainSync.Server.conduct chain).Lossless (.new flavor window)) ∧
    (BlockFetch.Client.conduct σ).Lossless .new ∧
    (∀ maxBatch, (BlockFetch.Server.conduct chain).Lossless (.new maxBatch)) ∧
    (KeepAlive.Client.conduct σ).Lossless .new ∧
    (KeepAlive.Server.conduct σ).Lossless .new ∧
    (ChainSync.Server.conduct chain).InTurn ∧
    (BlockFetch.Server.conduct chain).InTurn ∧
    (KeepAlive.Server.conduct σ).InTurn ∧
    (KeepAlive.Client.conduct σ).InTurn ∧
    (BlockFetch.Client.conduct σ).InTurn :=
  ⟨fun _ _ => Handshake.Party.plain.lossless rfl,
    fun _ _ => ChainSync.Client.plain.lossless rfl,
    fun _ _ => ChainSync.Server.plain.lossless rfl,
    BlockFetch.Client.plain.lossless rfl,
    fun _ => BlockFetch.Server.plain.lossless rfl,
    KeepAlive.Client.plain.lossless rfl,
    KeepAlive.Server.plain.lossless rfl,
    ChainSync.Server.inLine.inTurn,
    BlockFetch.Server.inLine.inTurn,
    KeepAlive.Server.inLine.inTurn,
    KeepAlive.Client.inLine.inTurn,
    BlockFetch.Client.inLine.inTurn⟩

/-- A line that closes inside a batch, and another that takes the rest. -/
theorem agents_lossless_batch :
    let c := BlockFetch.Server.conduct Exchange.shortChain
    let range : BlockFetch.Range := ⟨⟨20, some .zero⟩, ⟨20, some .zero⟩⟩
    let packet (payload : Bytes) : Packet := ⟨⟨3, .responder⟩, payload⟩
    let log : List (Note BlockFetch.Message Empty) :=
      [.taken (.requestRange range), .queued .startBatch, .queued (.block [0x80]),
        .queued .batchDone, .given .startBatch (some (packet [0x81, 2])),
        .given (.block [0x80]) (some (packet [0x82, 4, 0xd8, 24, 0x41, 0x80])),
        .given .batchDone (some (packet [0x81, 5]))]
    let h : Handle BlockFetch.Server := ⟨.new 10, some ⟨1, .responder, true⟩⟩
    c.Run (.new (.new 10), true) log (h, true) ∧ .reset ∉ log ∧
      c.kind.protocol.moves .idle (log.filterMap Note.passed?) = some .idle ∧
      c.queue (.new 10) ++ log.filterMap Note.queued? =
        (log.filterMap Note.given?).filter c.waits ++ c.queue h.agent := by
  intro c range packet log h
  let at_ (state : BlockFetch.State) (replies : List BlockFetch.Message) (line : Option Line) :
      Handle BlockFetch.Server × Bool := (⟨⟨state, 10, replies⟩, line⟩, true)
  let batch : List BlockFetch.Message := [.startBatch, .block [0x80], .batchDone]
  let first : Line := ⟨0, .responder, true⟩
  let closed : Line := ⟨0, .responder, false⟩
  let second : Line := ⟨1, .responder, true⟩
  have bound : c.Step (.new (.new 10), true) [] (at_ .idle [] (some first)) := .bind first rfl
  have served : BlockFetch.Server.received Exchange.shortChain (.requestRange range)
      ⟨.busy, 10, []⟩ true = (⟨.busy, 10, batch⟩, true) := by
    simp [BlockFetch.Server.received, BlockFetch.Server.collect, Exchange.shortChain,
      BlockFetch.Server.collectFrom]
    rfl
  have accepted : c.kind.consume (.requestRange range) (.new 10) true =
      .ok (⟨.busy, 10, batch⟩, true) := congrArg Except.ok served
  have asked : c.Step (at_ .idle [] (some first))
      [.taken (.requestRange range), .queued .startBatch, .queued (.block [0x80]),
        .queued .batchDone] (at_ .busy batch (some first)) :=
    Conduct.Step.take (h := (at_ .idle [] (some first)).1) accepted
  have sent : c.Step (at_ .busy batch (some first))
      [.given .startBatch (some (packet [0x81, 2]))] (at_ .streaming batch.tail (some first)) :=
    .send rfl rfl
  have cut : c.Step (at_ .streaming batch.tail (some first)) []
      (at_ .streaming batch.tail (some closed)) := .close
  have failed : c.Step (at_ .streaming batch.tail (some closed)) []
      (at_ .streaming batch.tail (some closed)) := .fail (e := .channelClosed) rfl
  have loose : c.Step (at_ .streaming batch.tail (some closed)) []
      (at_ .streaming batch.tail none) := .unbind
  have again : c.Step (at_ .streaming batch.tail none) []
      (at_ .streaming batch.tail (some second)) := .bind second rfl
  have resent : c.Step (at_ .streaming batch.tail (some second))
      [.given (.block [0x80]) (some (packet [0x82, 4, 0xd8, 24, 0x41, 0x80]))]
      (at_ .streaming [.batchDone] (some second)) := .send rfl rfl
  have ended : c.Step (at_ .streaming [.batchDone] (some second))
      [.given .batchDone (some (packet [0x81, 5]))] (h, true) := .send rfl rfl
  have run : c.Run (.new (.new 10), true) log (h, true) :=
    ((((((((Conduct.Run.nil.snoc bound).snoc asked).snoc sent).snoc cut).snoc
      failed).snoc loose).snoc again).snoc resent).snoc ended
  have whole : .reset ∉ log := by simp [log]
  obtain ⟨-, -, -, -, lossless, -, -, -, inTurn, -⟩ := agents_lossless Exchange.shortChain
  exact ⟨run, whole, (lossless 10).state run whole, inTurn.order run whole⟩

end ChainRelay
