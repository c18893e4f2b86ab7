import ChainRelay.Proofs.Protocol.Conducts
import ChainRelay.Proofs.Protocol.Speech

/-! What becomes of the ranges that the asking side is given. A range is queued, in flight
or settled, and a reset only moves it from one to another, so that what a listener is told
of, what is in flight and what is queued are at all times the ranges asked for, in order. -/
namespace ChainRelay.BlockFetch

variable {σ : Type}

def Event.settled? : Event → Option Range
  | batchDone range | noBlocks range => some range
  | _ => none

def Event.About (range : Range) : Event → Prop
  | batchStarted r | batchDone r | noBlocks r => r = range
  | blockReceived _ => True

namespace Client

abbrev Log := List (Note Message Event)

def fetched? : Note Message Event → Option Range
  | .asked (.fetch range) => some range
  | _ => none

def told (id : Nat) (log : Log) (c : Client) : List Event :=
  (log.flatMap Note.calls ++ c.listeners.pending).filterMap fun call =>
    if call.1 = id then some call.2 else none

structure Account (id : Nat) (log : Log) (c : Client) : Prop where
  once : c.listeners.ids.count id = 1
  ledger : (told id log c).filterMap Event.settled? ++ c.inFlight.toList ++ c.queued =
    log.filterMap fetched?
  flying : c.inFlight.isSome = true ↔ c.state = .busy ∨ c.state = .streaming

structure InOrder (id : Nat) (log : Log) (s : Handle Client × σ) : Prop where
  account : Account id log s.1.agent
  /-- whatever comes next, a listener hears of no range but the one in flight -/
  heard : ∀ {notes t}, (conduct σ).Step s notes t →
    told id (log ++ notes) t.1.agent = told id log s.1.agent ∨
      ∃ range e, s.1.agent.inFlight = some range ∧ e.About range ∧
        told id (log ++ notes) t.1.agent = told id log s.1.agent ++ [e]
  last : ∀ {notes t packet}, (conduct σ).Step s notes t → .given .clientDone packet ∈ notes →
    s.1.agent.queued = [] ∧ s.1.agent.inFlight = none

/-! ### What listeners are told -/

theorem told_report {id : Nat} {c : Client} (once : c.listeners.ids.count id = 1) (log : Log)
    (e : Event) : told id log (c.report e) = told id log c ++ [e] :=
  Listeners.told_notify once _ e

theorem exists_report {c : Client} {m : Message} {next : State} {range : Range}
    (flying : c.inFlight = some range) (served : c.state = .busy ∨ c.state = .streaming)
    (moved : protocol.move c.state m = some next) :
    ∃ e : Event, e.About range ∧
      (((next = .busy ∨ next = .streaming) ∧ e.settled? = none ∧
        received m { c with state := next } = report e { c with state := next }) ∨
      (next = .idle ∧ e.settled? = some range ∧
        received m { c with state := next } =
          report e { c with state := next, inFlight := none })) := by
  rcases served with at_ | at_ <;> rw [at_] at moved
  · cases m with
    | startBatch =>
      cases moved
      exact ⟨.batchStarted range, rfl, .inl ⟨.inr rfl, rfl, by simp [received, flying]⟩⟩
    | noBlocks =>
      cases moved
      exact ⟨.noBlocks range, rfl, .inr ⟨rfl, rfl, by simp [received, flying]⟩⟩
    | _ => cases moved
  · cases m with
    | block body =>
      cases moved
      exact ⟨.blockReceived body, trivial, .inl ⟨.inr rfl, rfl, by simp [received, flying]⟩⟩
    | batchDone =>
      cases moved
      exact ⟨.batchDone range, rfl, .inr ⟨rfl, rfl, by simp [received, flying]⟩⟩
    | _ => cases moved

/-! ### What is kept -/

variable {id : Nat} {log notes : Log} {c : Client}

theorem told_of_same {d : Client} (uncalled : notes.flatMap Note.calls = [])
    (same : d.listeners = c.listeners) : told id (log ++ notes) d = told id log c := by
  simp only [told, List.flatMap_append, uncalled, List.append_nil, same]

theorem told_called :
    told id (log ++ [.called c.listeners.take.1]) { c with listeners := c.listeners.take.2 } =
      told id log c := by
  simp [told, Listeners.take]

theorem told_taken (once : c.listeners.ids.count id = 1) (m : Message) {d : Client} (e : Event)
    (same : d.listeners = c.listeners) :
    told id (log ++ .taken m :: (conduct σ).grown c (d.report e)) (d.report e) =
      told id log c ++ [e] := by
  rw [← told_report once]
  exact told_of_same (by simp) (by simp only [report, same])

theorem Account.idle (account : Account id log c) (free : c.state = .idle) :
    c.inFlight = none := by
  cases flying : c.inFlight with
  | none => rfl
  | some range =>
    have served := account.flying.mp (by simp [flying])
    simp [free] at served

theorem served_of_lacks {c : Client} (live : (Client.kind σ).isDone c = false)
    (lacks : (Client.kind σ).hasAgency c = false) : c.state = .busy ∨ c.state = .streaming := by
  cases free : c.state with
  | idle =>
    simp [AgentKind.hasAgency, AgentKind.agency, kind, protocol, free, State.agency, Role.holds]
      at lacks
  | done => simp [AgentKind.isDone, AgentKind.agency, kind, protocol, free, State.agency] at live
  | busy => exact .inl rfl
  | streaming => exact .inr rfl

theorem idle_of_holds {c : Client} (holds : (Client.kind σ).hasAgency c = true) :
    c.state = .idle := by
  cases free : c.state with
  | idle => rfl
  | _ =>
    simp [AgentKind.hasAgency, AgentKind.agency, kind, protocol, free, State.agency, Role.holds]
      at holds

theorem commit_cases {c : Client} {m : Message} {next : State} (free : c.state = .idle)
    (made : c.produce = some m) (moved : protocol.move c.state m = some next) :
    (∃ range rest, m = .requestRange range ∧ c.queued = range :: rest ∧
      (Client.kind σ).commit m next c =
        { c with state := .busy, queued := rest, inFlight := some range }) ∨
    (m = .clientDone ∧ c.queued = [] ∧
      (Client.kind σ).commit m next c = { c with state := .done }) := by
  rw [free] at moved
  unfold produce at made
  cases waiting : c.queued with
  | cons range rest =>
    rw [waiting] at made
    cases made
    cases moved
    exact .inl ⟨range, rest, rfl, rfl, by simp [AgentKind.commit, kind, sent, waiting]⟩
  | nil =>
    rw [waiting] at made
    simp only [Option.ite_none_right_eq_some, Option.some.injEq] at made
    obtain ⟨-, rfl⟩ := made
    cases moved
    exact .inr ⟨rfl, rfl, by simp [AgentKind.commit, kind, sent, waiting]⟩

theorem ofBlockFetch_frame (r : Request) (c : Client) :
    (r.ofBlockFetch c).listeners = c.listeners ∧ (r.ofBlockFetch c).inFlight = c.inFlight ∧
      (r.ofBlockFetch c).state = c.state ∧
      (r.ofBlockFetch c).queued = c.queued ++ (fetched? (.asked r)).toList := by
  cases r <;> simp [Request.ofBlockFetch, fetch, requestDone, fetched?]

theorem fetched_noted (n : Note Message Event) (d : Client) :
    (log ++ n :: (conduct σ).grown c d).filterMap fetched? =
      log.filterMap fetched? ++ (fetched? n).toList :=
  Conduct.filterMap_noted (fun _ => rfl) log n c d

namespace Account

theorem asked (account : Account id log c) (r : Request) :
    Account id (log ++ .asked r :: (conduct σ).grown c (r.ofBlockFetch c)) (r.ofBlockFetch c) := by
  obtain ⟨once, ledger, flying⟩ := account
  obtain ⟨listeners, inFlight, state, queued⟩ := ofBlockFetch_frame r c
  refine ⟨by rwa [← listeners] at once, ?_, by rwa [← inFlight, ← state] at flying⟩
  rw [fetched_noted, told_of_same (by simp) listeners, inFlight, queued, ← List.append_assoc,
    ledger]

theorem taken (account : Account id log c) {m : Message} {next : State}
    (served : c.state = .busy ∨ c.state = .streaming)
    (moved : protocol.move c.state m = some next) :
    Account id (log ++ .taken m :: (conduct σ).grown c (received m { c with state := next }))
      (received m { c with state := next }) := by
  obtain ⟨range, flying⟩ := Option.isSome_iff_exists.mp (account.flying.mpr served)
  obtain ⟨once, ledger, -⟩ := account
  obtain ⟨e, -, ⟨still, unsettled, same⟩ | ⟨free, settles, same⟩⟩ :=
    exists_report flying served moved
  · rw [same]
    refine ⟨once, ?_, by simp [report, flying, still]⟩
    rw [told_taken once m (d := { c with state := next }) e rfl, fetched_noted, ← ledger]
    simp [report, unsettled, fetched?]
  · rw [same]
    refine ⟨once, ?_, by simp [report, free]⟩
    rw [told_taken once m (d := { c with state := next, inFlight := none }) e rfl, fetched_noted,
      ← ledger]
    simp [report, settles, flying, fetched?]

theorem given (account : Account id log c) {m : Message} {next : State} (packet : Option Packet)
    (free : c.state = .idle) (made : c.produce = some m)
    (moved : protocol.move c.state m = some next) :
    Account id (log ++ [.given m packet]) ((Client.kind σ).commit m next c) := by
  have landed := account.idle free
  obtain ⟨once, ledger, -⟩ := account
  have unasked : (log ++ [Note.given m packet]).filterMap fetched? = log.filterMap fetched? := by
    simp [fetched?]
  obtain ⟨range, rest, -, waiting, same⟩ | ⟨-, -, same⟩ := commit_cases free made moved
  · rw [same]
    refine ⟨once, ?_, by simp⟩
    rw [told_of_same (c := c) (by simp) (by rfl), unasked, ← ledger]
    simp [waiting, landed]
  · rw [same]
    refine ⟨once, ?_, by simp [landed]⟩
    rw [told_of_same (c := c) (by simp) (by rfl), unasked, ← ledger]

theorem called (account : Account id log c) :
    Account id (log ++ [.called c.listeners.take.1])
      { c with listeners := c.listeners.take.2 } := by
  refine ⟨account.once, ?_, account.flying⟩
  rw [told_called, List.filterMap_append, ← account.ledger]
  simp [fetched?]

theorem reset (account : Account id log c) : Account id (log ++ [.reset]) c.reset := by
  refine ⟨account.once, ?_, by simp [Client.reset, protocol]⟩
  rw [told_of_same (c := c) (by simp) (by rfl), List.filterMap_append, ← account.ledger]
  simp [Client.reset, fetched?]

end Account

theorem keeps_account (id : Nat) : (conduct σ).Keeps (Account id) where
  ask r _ account := account.asked r
  take _ account live lacks moved := account.taken (served_of_lacks live lacks) moved
  give packet account turn made moved := account.given packet (idle_of_holds turn) made moved
  call account := account.called
  reset account := account.reset

/-! ### What may come next -/

theorem Account.heard_of_take (account : Account id log c) {m : Message} {next : State}
    (served : c.state = .busy ∨ c.state = .streaming)
    (moved : protocol.move c.state m = some next) :
    ∃ range e, c.inFlight = some range ∧ e.About range ∧
      told id (log ++ .taken m :: (conduct σ).grown c (received m { c with state := next }))
        (received m { c with state := next }) = told id log c ++ [e] := by
  obtain ⟨range, flying⟩ := Option.isSome_iff_exists.mp (account.flying.mpr served)
  obtain ⟨e, about, ⟨-, -, reported⟩ | ⟨-, -, reported⟩⟩ := exists_report flying served moved
  · rw [reported]
    exact ⟨range, e, flying, about, told_taken account.once m e rfl⟩
  · rw [reported]
    exact ⟨range, e, flying, about, told_taken account.once m e rfl⟩

theorem Account.heard (account : Account id log c) {w : σ} {r : Client × σ}
    (act : (conduct σ).Act c w notes r) :
    told id (log ++ notes) r.1 = told id log c ∨
      ∃ range e, c.inFlight = some range ∧ e.About range ∧
        told id (log ++ notes) r.1 = told id log c ++ [e] := by
  cases act with
  | rest => exact .inl (told_of_same rfl rfl)
  | ask r => exact .inl (told_of_same (by simp) (ofBlockFetch_frame r c).1)
  | take live lacks moved => exact .inr (account.heard_of_take (served_of_lacks live lacks) moved)
  | give packet turn made moved =>
    refine .inl (told_of_same (by simp) ?_)
    obtain ⟨_, _, -, -, same⟩ | ⟨-, -, same⟩ :=
      commit_cases (σ := σ) (idle_of_holds turn) made moved
    · exact (congrArg Client.listeners same).trans rfl
    · exact (congrArg Client.listeners same).trans rfl
  | call => exact .inl told_called
  | reset => exact .inl (told_of_same (by simp) rfl)

theorem Account.last (account : Account id log c) {w : σ} {r : Client × σ}
    (act : (conduct σ).Act c w notes r) {packet : Option Packet}
    (given : .given .clientDone packet ∈ notes) : c.queued = [] ∧ c.inFlight = none := by
  cases act with
  | give _ turn made moved =>
    have free := idle_of_holds turn
    obtain ⟨_, _, rfl, -, -⟩ | ⟨rfl, waiting, -⟩ := commit_cases (σ := σ) free made moved
    · simp at given
    · exact ⟨waiting, account.idle free⟩
  | _ => simp at given

variable {s : Handle Client × σ}

theorem Account.inOrder (account : Account id log s.1.agent) : InOrder id log s where
  account := account
  heard step := account.heard step.act
  last step given := account.last step.act given

/-- Nothing that is asked for is lost, repeated or taken out of turn, and the peer is not
told that the client is done while it is not. -/
theorem ranges_settled {l : Listeners Event} (once : l.ids.count id = 1) (unowed : l.pending = [])
    {w : σ} (run : (conduct σ).Run (.new { new with listeners := l }, w) log s) :
    InOrder id log s := by
  have start : Account id [] { new with listeners := l } :=
    ⟨once, by simp [told, new, unowed], by simp [new]⟩
  exact ((keeps_account id).run run start).inOrder

/-- A batch that is cut off, asked for again and refused, with a range behind it. -/
theorem ranges_settled_cutOff :
    let first : Range := ⟨.origin, .origin⟩
    let second : Range := ⟨⟨20, some .zero⟩, ⟨20, some .zero⟩⟩
    let l : Listeners Event := ⟨[7], 8, false, []⟩
    let told : List (Nat × Event) := [(7, .batchStarted first), (7, .noBlocks first)]
    let log : Log := [.asked (.fetch first), .queued (.requestRange first),
      .asked (.fetch second), .queued (.requestRange second), .given (.requestRange first) none,
      .taken .startBatch, .reset, .given (.requestRange first) none, .taken .noBlocks]
    let h : Handle Client := .new ⟨.idle, [second], none, false, { l with pending := told }⟩
    l.ids.count 7 = 1 ∧ l.pending = [] ∧
      (conduct Unit).Run (.new { new with listeners := l }, ()) log (h, ()) ∧
      InOrder 7 log (h, ()) := by
  intro first second l told log h
  let at_ (state : State) (queued : List Range) (inFlight : Option Range)
      (pending : List (Nat × Event)) : Handle Client × Unit :=
    (.new ⟨state, queued, inFlight, false, { l with pending }⟩, ())
  have ask : (conduct Unit).Step (at_ .idle [] none [])
      [.asked (.fetch first), .queued (.requestRange first)] (at_ .idle [first] none []) :=
    .ask (.fetch first)
  have askNext : (conduct Unit).Step (at_ .idle [first] none [])
      [.asked (.fetch second), .queued (.requestRange second)]
      (at_ .idle [first, second] none []) := .ask (.fetch second)
  have draw (pending) : (conduct Unit).Step (at_ .idle [first, second] none pending)
      [.given (.requestRange first) none] (at_ .busy [second] (some first) pending) := .draw rfl
  have begin : (conduct Unit).Step (at_ .busy [second] (some first) []) [.taken .startBatch]
      (at_ .streaming [second] (some first) (told.take 1)) :=
    Conduct.Step.take (c := conduct Unit) (h := (at_ .busy [second] (some first) []).1)
      (a := (at_ .streaming [second] (some first) (told.take 1)).1.agent) rfl
  have cut : (conduct Unit).Step (at_ .streaming [second] (some first) (told.take 1)) [.reset]
      (at_ .idle [first, second] none (told.take 1)) := .reset
  have refused : (conduct Unit).Step (at_ .busy [second] (some first) (told.take 1))
      [.taken .noBlocks] (at_ .idle [second] none told) :=
    Conduct.Step.take (c := conduct Unit) (h := (at_ .busy [second] (some first) (told.take 1)).1)
      (a := (at_ .idle [second] none told).1.agent) rfl
  have run : (conduct Unit).Run (.new { new with listeners := l }, ()) log (h, ()) :=
    ((((((Conduct.Run.nil.snoc ask).snoc askNext).snoc (draw [])).snoc begin).snoc cut).snoc
      (draw (told.take 1))).snoc refused
  exact ⟨rfl, rfl, run, ranges_settled rfl rfl run⟩

end Client
end ChainRelay.BlockFetch
