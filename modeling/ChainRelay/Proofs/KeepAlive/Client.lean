import ChainRelay.Proofs.Protocol.Conducts
import ChainRelay.Proofs.Protocol.Speech

/-! What becomes of the pings that the asking side is given. A ping is queued, in flight,
reported or lost, and it is lost only by a reset or a response that does not fit. So what a
listener hears of, what is in flight and what is queued are always some of the pings, in the
order in which they were asked for. -/
namespace ChainRelay.KeepAlive

variable {σ : Type}

def Event.cookie : Event → UInt32
  | response cookie => cookie

namespace Client

abbrev Log := List (Note Message Event)

def pinged? : Note Message Event → Option UInt32
  | .asked (.ping cookie) => some cookie
  | _ => none

def reported (id : Nat) (calls : List (Nat × Event)) (c : Client) : List UInt32 :=
  (c.listeners.told id calls).map Event.cookie

/-- The cookies that are reported, the one in flight, and those that are queued. -/
def accounted (id : Nat) (calls : List (Nat × Event)) (c : Client) : List UInt32 :=
  reported id calls c ++ c.inFlight.toList ++ c.queued

variable {id : Nat} {calls : List (Nat × Event)} {c : Client}

/-- What is so of the reports at any moment, and of whatever comes next. -/
structure Reports (id : Nat) (log : Log) (s : Handle Client × σ) : Prop where
  inOrder : (reported id (log.flatMap Note.calls) s.1.agent).Sublist (log.filterMap pinged?)
  owed : (accounted id (log.flatMap Note.calls) s.1.agent).Sublist (log.filterMap pinged?)
  heard : ∀ {notes t}, (conduct σ).Step s notes t →
    reported id ((log ++ notes).flatMap Note.calls) t.1.agent =
        reported id (log.flatMap Note.calls) s.1.agent ∨
      ∃ cookie, s.1.agent.inFlight = some cookie ∧ .taken (.response cookie) ∈ notes ∧
        reported id ((log ++ notes).flatMap Note.calls) t.1.agent =
          reported id (log.flatMap Note.calls) s.1.agent ++ [cookie]
  last : ∀ {notes t packet}, (conduct σ).Step s notes t → .given .done packet ∈ notes →
    s.1.agent.queued = [] ∧ s.1.agent.inFlight = none

/-! ### What each thing does to the account -/

theorem ofKeepAlive_frame (r : Request) (c : Client) :
    (r.ofKeepAlive c).state = c.state ∧ (r.ofKeepAlive c).inFlight = c.inFlight ∧
      (r.ofKeepAlive c).listeners = c.listeners ∧
      (r.ofKeepAlive c).queued = c.queued ++ (pinged? (.asked r)).toList := by
  cases r with
  | ping cookie => exact ⟨rfl, rfl, rfl, rfl⟩
  | fetch _ | resetTo _ | setCandidates _ | requestDone | notifyNewBlock =>
    exact ⟨rfl, rfl, rfl, (List.append_nil _).symm⟩

theorem accounted_ofKeepAlive (r : Request) :
    accounted id calls (r.ofKeepAlive c) =
      accounted id calls c ++ (pinged? (.asked r)).toList := by
  obtain ⟨-, inFlight, listeners, queued⟩ := ofKeepAlive_frame r c
  rw [accounted, accounted, reported, reported, inFlight, listeners, queued, ← List.append_assoc]

theorem accounted_takeCalls :
    accounted id (calls ++ c.listeners.take.1) { c with listeners := c.listeners.take.2 } =
      accounted id calls c := by
  unfold accounted reported
  rw [Listeners.told_take]

theorem client_of_holds (holds : (Client.kind σ).hasAgency c = true) : c.state = .client := by
  cases free : c.state with
  | client => rfl
  | server | done =>
    simp [AgentKind.hasAgency, AgentKind.agency, kind, protocol, free, State.agency, Role.holds]
      at holds

theorem server_of_lacks (live : (Client.kind σ).isDone c = false)
    (lacks : (Client.kind σ).hasAgency c = false) : c.state = .server := by
  cases free : c.state with
  | server => rfl
  | client =>
    simp [AgentKind.hasAgency, AgentKind.agency, kind, protocol, free, State.agency, Role.holds]
      at lacks
  | done => simp [AgentKind.isDone, AgentKind.agency, kind, protocol, free, State.agency] at live

theorem commit_cases {m : Message} {next : State} (free : c.state = .client)
    (made : c.produce = some m) (moved : protocol.move c.state m = some next) :
    (∃ cookie rest, m = .ping cookie ∧ c.queued = cookie :: rest ∧
      (Client.kind σ).commit m next c =
        { c with state := .server, queued := rest, inFlight := some cookie }) ∨
    (m = .done ∧ c.queued = [] ∧ (Client.kind σ).commit m next c = { c with state := .done }) := by
  rw [free] at moved
  unfold produce at made
  cases waiting : c.queued with
  | cons cookie rest =>
    rw [waiting] at made
    cases made
    cases moved
    exact .inl ⟨cookie, rest, rfl, rfl, by simp [AgentKind.commit, kind, sent, waiting]⟩
  | nil =>
    rw [waiting] at made
    simp only [Option.ite_none_right_eq_some, Option.some.injEq] at made
    obtain ⟨-, rfl⟩ := made
    cases moved
    exact .inr ⟨rfl, rfl, by simp [AgentKind.commit, kind, sent, waiting]⟩

theorem accounted_commit {m : Message} {next : State} (free : c.state = .client)
    (landed : c.inFlight = none) (made : c.produce = some m)
    (moved : protocol.move c.state m = some next) :
    accounted id calls ((Client.kind σ).commit m next c) = accounted id calls c := by
  obtain ⟨cookie, rest, -, waiting, same⟩ | ⟨-, -, same⟩ := commit_cases (σ := σ) free made moved
  · rw [same]
    simp [accounted, reported, waiting, landed]
  · rw [same]
    rfl

theorem response_of_moved {m : Message} {next : State} (asked : c.state = .server)
    (moved : protocol.move c.state m = some next) :
    next = .client ∧ ∃ cookie, m = .response cookie := by
  rw [asked] at moved
  cases m with
  | response cookie =>
    cases moved
    exact ⟨rfl, cookie, rfl⟩
  | ping | done => cases moved

section
variable (once : c.listeners.ids.count id = 1) {cookie : UInt32} {next : State}
include once

theorem reported_received (fits : c.inFlight = some cookie) :
    reported id calls (received (.response cookie) { c with state := next }) =
      reported id calls c ++ [cookie] := by
  have heard : received (.response cookie) { c with state := next } =
      { c with
        state := next, inFlight := none, answered := true,
        listeners := c.listeners.notify (.response cookie) } := if_pos fits
  rw [heard]
  change ((c.listeners.notify _).told id calls).map Event.cookie = _
  rw [Listeners.told_notify once, List.map_append]
  rfl

theorem accounted_received (fits : c.inFlight = some cookie) :
    accounted id calls (received (.response cookie) { c with state := next }) =
      accounted id calls c := by
  have landed : (received (.response cookie) { c with state := next }).inFlight = none ∧
      (received (.response cookie) { c with state := next }).queued = c.queued := by
    simp [received, fits]
  rw [accounted, reported_received once fits, landed.1, landed.2, accounted, fits]
  simp

end

theorem received_of_ne {cookie : UInt32} {next : State} (unfit : c.inFlight ≠ some cookie) :
    received (.response cookie) { c with state := next } =
      { c with state := next, inFlight := none } :=
  if_neg unfit

theorem accounted_landed {next : State} :
    (accounted id calls { c with state := next, inFlight := none }).Sublist
      (accounted id calls c) := by
  unfold accounted
  refine List.Sublist.append ?_ (List.Sublist.refl _)
  rw [Option.toList_none, List.append_nil]
  exact List.sublist_append_left _ _

theorem accounted_reset : (accounted id calls c.reset).Sublist (accounted id calls c) := by
  have same : accounted id calls c.reset = reported id calls c := by
    simp [accounted, reported, Client.reset]
  rw [same, accounted, List.append_assoc]
  exact List.sublist_append_left _ _

/-! ### What is so at all times -/

structure Account (id : Nat) (log : Log) (c : Client) : Prop where
  once : c.listeners.ids.count id = 1
  ledger : (accounted id (log.flatMap Note.calls) c).Sublist (log.filterMap pinged?)
  flying : c.inFlight.isSome = true ↔ c.state = .server

variable {log notes : Log}

theorem pinged_noted (n : Note Message Event) (d : Client) :
    (log ++ n :: (conduct σ).grown c d).filterMap pinged? =
      log.filterMap pinged? ++ (pinged? n).toList :=
  Conduct.filterMap_noted (fun _ => rfl) log n c d

theorem pinged_concat (n : Note Message Event) :
    (log ++ [n]).filterMap pinged? = log.filterMap pinged? ++ (pinged? n).toList := by
  rw [List.filterMap_append, List.filterMap_cons]
  cases pinged? n <;> rfl

theorem calls_noted {n : Note Message Event} (quiet : n.calls = []) (d : Client) :
    (log ++ n :: (conduct σ).grown c d).flatMap Note.calls = log.flatMap Note.calls := by
  rw [List.flatMap_append, List.flatMap_cons, quiet, Conduct.calls_grown]
  simp

theorem calls_called (calls : List (Nat × Event)) :
    (log ++ [Note.called calls]).flatMap Note.calls = log.flatMap Note.calls ++ calls := by
  rw [List.flatMap_append]
  exact congrArg (log.flatMap Note.calls ++ ·) (List.append_nil calls)

namespace Account

theorem landed (account : Account id log c) (free : c.state = .client) : c.inFlight = none := by
  cases flying : c.inFlight with
  | none => rfl
  | some cookie =>
    have asked := account.flying.mp (by simp [flying])
    simp [free] at asked

theorem asked (account : Account id log c) (r : Request) :
    Account id (log ++ .asked r :: (conduct σ).grown c (r.ofKeepAlive c)) (r.ofKeepAlive c) := by
  obtain ⟨once, ledger, flying⟩ := account
  obtain ⟨state, inFlight, listeners, -⟩ := ofKeepAlive_frame r c
  refine ⟨by rwa [listeners], ?_, by rwa [inFlight, state]⟩
  rw [calls_noted rfl, pinged_noted, accounted_ofKeepAlive]
  exact ledger.append (List.Sublist.refl _)

theorem taken (account : Account id log c) {m : Message} {next : State}
    (asked : c.state = .server) (moved : protocol.move c.state m = some next) :
    Account id (log ++ .taken m :: (conduct σ).grown c (received m { c with state := next }))
      (received m { c with state := next }) := by
  obtain ⟨rfl, cookie, rfl⟩ := response_of_moved asked moved
  obtain ⟨once, ledger, -⟩ := account
  by_cases fits : c.inFlight = some cookie
  · refine ⟨?_, ?_, ?_⟩
    · simpa [received, fits, Listeners.notify] using once
    · rw [calls_noted rfl, pinged_noted, accounted_received once fits]
      simpa [pinged?] using ledger
    · simp [received, fits]
  · rw [received_of_ne fits]
    refine ⟨once, ?_, by simp⟩
    rw [calls_noted rfl, pinged_noted]
    simpa [pinged?] using accounted_landed.trans ledger

theorem given (account : Account id log c) {m : Message} {next : State} (packet : Option Packet)
    (free : c.state = .client) (made : c.produce = some m)
    (moved : protocol.move c.state m = some next) :
    Account id (log ++ [.given m packet]) ((Client.kind σ).commit m next c) := by
  have landed := account.landed free
  have kept : accounted id (log.flatMap Note.calls) ((Client.kind σ).commit m next c) =
      accounted id (log.flatMap Note.calls) c := accounted_commit free landed made moved
  obtain ⟨once, ledger, -⟩ := account
  have ledger' : (accounted id ((log ++ [Note.given m packet]).flatMap Note.calls)
      ((Client.kind σ).commit m next c)).Sublist
        ((log ++ [Note.given m packet]).filterMap pinged?) := by
    rw [List.flatMap_append, pinged_concat]
    simpa [pinged?, kept] using ledger
  obtain ⟨cookie, rest, -, -, same⟩ | ⟨-, -, same⟩ := commit_cases (σ := σ) free made moved
  · rw [same] at ledger' ⊢
    exact ⟨once, ledger', by simp⟩
  · rw [same] at ledger' ⊢
    exact ⟨once, ledger', by simp [landed]⟩

theorem called (account : Account id log c) :
    Account id (log ++ [.called c.listeners.take.1])
      { c with listeners := c.listeners.take.2 } := by
  refine ⟨account.once, ?_, account.flying⟩
  rw [calls_called, accounted_takeCalls, pinged_concat]
  simpa [pinged?] using account.ledger

theorem reset (account : Account id log c) : Account id (log ++ [.reset]) c.reset := by
  refine ⟨account.once, ?_, by simp [Client.reset, protocol]⟩
  rw [List.flatMap_append, pinged_concat]
  simpa [pinged?] using accounted_reset.trans account.ledger

end Account

theorem keeps_account (id : Nat) : (conduct σ).Keeps (Account id) where
  ask r _ account := account.asked r
  take _ account live lacks moved := account.taken (server_of_lacks live lacks) moved
  give packet account turn made moved := account.given packet (client_of_holds turn) made moved
  call account := account.called
  reset account := account.reset

/-! ### What may come next -/

theorem reported_of_same {d : Client} (quiet : notes.flatMap Note.calls = [])
    (same : d.listeners = c.listeners) :
    reported id ((log ++ notes).flatMap Note.calls) d = reported id (log.flatMap Note.calls) c := by
  rw [List.flatMap_append, quiet, List.append_nil, reported, reported, same]

theorem Account.heard_of_take (account : Account id log c) {m : Message} {next : State}
    (asked : c.state = .server) (moved : protocol.move c.state m = some next) {d : Client}
    (same : d = received m { c with state := next }) :
    reported id ((log ++ .taken m :: (conduct σ).grown c d).flatMap Note.calls) d =
        reported id (log.flatMap Note.calls) c ∨
      ∃ cookie, c.inFlight = some cookie ∧ m = .response cookie ∧
        reported id ((log ++ .taken m :: (conduct σ).grown c d).flatMap Note.calls) d =
          reported id (log.flatMap Note.calls) c ++ [cookie] := by
  obtain ⟨rfl, cookie, rfl⟩ := response_of_moved asked moved
  rw [calls_noted rfl, same]
  by_cases fits : c.inFlight = some cookie
  · exact .inr ⟨cookie, fits, rfl, reported_received account.once fits⟩
  · rw [received_of_ne fits]
    exact .inl rfl

theorem Account.heard (account : Account id log c) {w : σ} {r : Client × σ}
    (act : (conduct σ).Act c w notes r) :
    reported id ((log ++ notes).flatMap Note.calls) r.1 =
        reported id (log.flatMap Note.calls) c ∨
      ∃ cookie, c.inFlight = some cookie ∧ .taken (.response cookie) ∈ notes ∧
        reported id ((log ++ notes).flatMap Note.calls) r.1 =
          reported id (log.flatMap Note.calls) c ++ [cookie] := by
  cases act with
  | rest => exact .inl (reported_of_same rfl rfl)
  | ask r => exact .inl (reported_of_same (by simp) (ofKeepAlive_frame r c).2.2.1)
  | take live lacks moved =>
    rcases account.heard_of_take (server_of_lacks live lacks) moved rfl with
      same | ⟨cookie, fits, rfl, more⟩
    · exact .inl same
    · exact .inr ⟨cookie, fits, List.mem_cons_self, more⟩
  | give packet turn made moved =>
    refine .inl (reported_of_same (by simp) ?_)
    obtain ⟨_, _, -, -, same⟩ | ⟨-, -, same⟩ :=
      commit_cases (σ := σ) (client_of_holds turn) made moved
    · exact (congrArg Client.listeners same).trans rfl
    · exact (congrArg Client.listeners same).trans rfl
  | call =>
    refine .inl ?_
    rw [calls_called]
    exact congrArg (List.map Event.cookie) (Listeners.told_take id _ c.listeners)
  | reset => exact .inl (reported_of_same (by simp) rfl)

theorem Account.last (account : Account id log c) {w : σ} {r : Client × σ}
    (act : (conduct σ).Act c w notes r) {packet : Option Packet}
    (given : .given .done packet ∈ notes) : c.queued = [] ∧ c.inFlight = none := by
  cases act with
  | give _ turn made moved =>
    have free := client_of_holds turn
    obtain ⟨_, _, rfl, -, -⟩ | ⟨rfl, waiting, -⟩ := commit_cases (σ := σ) free made moved
    · simp at given
    · exact ⟨waiting, account.landed free⟩
  | _ => simp at given

theorem Account.reports {s : Handle Client × σ} (account : Account id log s.1.agent) :
    Reports id log s where
  inOrder := by
    refine List.Sublist.trans ?_ account.ledger
    rw [accounted, List.append_assoc]
    exact List.sublist_append_left _ _
  owed := account.ledger
  heard step := account.heard step.act
  last step given := account.last step.act given

theorem reports_of_run {l : Listeners Event} (once : l.ids.count id = 1) (unowed : l.pending = [])
    {w : σ} {s : Handle Client × σ}
    (run : (conduct σ).Run (.new { new with listeners := l }, w) log s) : Reports id log s := by
  have start : Account id [] { new with listeners := l } :=
    ⟨once, by simp [accounted, reported, Listeners.told, new, unowed], by simp [new]⟩
  exact ((keeps_account id).run run start).reports

end Client
end ChainRelay.KeepAlive
