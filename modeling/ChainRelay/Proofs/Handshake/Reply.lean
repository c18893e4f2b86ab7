import ChainRelay.Handshake.Party
import ChainRelay.Proofs.Protocol.Lawful

/-! The server's side of a handshake sends one message, whatever it is brought: a reply,
and with it comes the outcome. -/
namespace ChainRelay

structure Packet.Tells (m : Handshake.Message) (packet : Packet) : Prop where
  channel_eq : packet.channel = ⟨Handshake.number, .responder⟩
  written : Handshake.protocol.encode m = .ok packet.payload

namespace Handshake

def Message.IsReply (m : Message) : Prop := (Party.outcomeOf? m).isSome

namespace Party

structure Pending (p : Party) : Prop where
  role_eq : p.role = .server
  live : p.state ≠ .done
  outcome_eq : p.outcome = none
  reply : ∀ m, p.reply = some m → m.IsReply

structure Answered (p : Party) (m : Message) : Prop where
  done : p.state = .done
  outcome_eq : p.outcome = outcomeOf? m
  reply : m.IsReply

/-- What a server has sent so far: nothing, or its reply. -/
def Told (sent : List Packet) (p : Party) : Prop :=
  (sent = [] ∧ p.Pending) ∨ ∃ m packet, sent = [packet] ∧ packet.Tells m ∧ p.Answered m

variable {σ : Type} {p : Party} {m : Message}

theorem pending_new (versions : VersionTable) (listeners : Listeners Event) :
    ({ new .server versions with listeners } : Party).Pending :=
  ⟨rfl, nofun, rfl, nofun⟩

theorem isReply_answer (table : VersionTable) (proposed : ProposedVersions) :
    (answer table proposed).IsReply := by
  unfold answer
  split
  · split <;> rfl
  · rfl

theorem ready_of_done (done : p.state = .done) : (kind σ).ready p = none := by
  have lacks : (kind σ).hasAgency p = false := by
    change p.role.holds (State.agency p.state) = false
    rw [done]
    cases p.role <;> rfl
  rw [AgentKind.ready, lacks]
  rfl

theorem consume_of_done (done : p.state = .done) (w : σ) :
    (kind σ).consume m p w = .error (.terminated protocolName m.name) := by
  have ended : (kind σ).isDone p = true := by
    change decide (State.agency p.state = .nobody) = true
    rw [done]
    rfl
  simp only [AgentKind.consume, ended, if_true]
  rfl

theorem Pending.of_consume (pending : p.Pending) {w w' : σ} {p' : Party}
    (accepted : (kind σ).consume m p w = .ok (p', w')) : p'.Pending := by
  simp only [AgentKind.consume] at accepted
  split at accepted
  · cases accepted
  · split at accepted
    · cases accepted
    · rename_i lacks
      have waits : p.state = .propose := by
        cases at_state : p.state with
        | propose => rfl
        | confirm =>
          refine absurd ?_ lacks
          change p.role.holds (State.agency p.state) = true
          rw [pending.role_eq, at_state]
          rfl
        | done => exact absurd at_state pending.live
      split at accepted
      · cases accepted
      · rename_i next moved
        change p.state.move m = some next at moved
        rw [waits] at moved
        cases m with
        | proposeVersions proposed =>
          cases moved
          cases accepted
          have live : State.confirm ≠ .done := by decide
          refine ⟨pending.role_eq, live, pending.outcome_eq, fun reply made => ?_⟩
          cases made
          exact isReply_answer _ _
        | _ => cases moved

theorem Pending.of_ready (pending : p.Pending) {next : State}
    (ready : (kind σ).ready p = some (m, next)) : ((kind σ).commit m next p).Answered m := by
  obtain ⟨holds, made, moved⟩ := AgentKind.ready_eq_some.mp ready
  have reply : m.IsReply := by
    refine pending.reply m ?_
    change p.produce = some m at made
    rwa [produce, pending.role_eq] at made
  have closes : next = .done := by
    change p.state.move m = some next at moved
    unfold State.move at moved
    split at moved
    · cases reply
    all_goals cases moved <;> rfl
  obtain ⟨outcome, ends⟩ := Option.isSome_iff_exists.mp reply
  subst closes
  change (sent m { p with state := .done }).Answered m
  unfold sent
  rw [pending.role_eq, ends]
  exact ⟨rfl, ends.symm, reply⟩

end Party

/-- No packet tells both an acceptance and something else. An acceptance has one field more
than any other message, which its first byte shows. -/
theorem exists_eq_acceptVersion {packet : Packet} {version : UInt64} {data : VersionData}
    {m : Message} (accepts : packet.Tells (.acceptVersion version data)) (tells : packet.Tells m) :
    ∃ version data, m = .acceptVersion version data := by
  have first : ∀ {n : Message}, packet.Tells n → packet.payload.head? = n.toCbor.write.head? := by
    intro n told
    have written := told.written
    rw [Protocol.encode, Cbor.encode] at written
    split at written
    · cases written
    · rw [← Except.ok.inj written]
      rfl
  have alike := (first accepts).symm.trans (first tells)
  cases m with
  | acceptVersion version data => exact ⟨version, data, rfl⟩
  | _ =>
    have apart : (Cbor.head 4 3).head? ≠ (Cbor.head 4 2).head? := by decide
    exact absurd alike apart

variable {σ : Type} {h : Handle Party}

theorem pumpFor_of_done (done : h.agent.state = .done) (fuel : Nat) :
    h.pumpFor (Party.kind σ) fuel = ([], h) := by
  cases fuel with
  | zero => rfl
  | succ fuel =>
    have idle : h.sendOne (Party.kind σ) = (.ok none, h) := by
      rw [Handle.sendOne, Party.ready_of_done done]
      cases h.line <;> rfl
    rw [Handle.pumpFor, idle]

theorem told_finish {sent : List Packet} (told : h.agent.Told sent) (packets : List Packet) :
    (h.finish (Party.kind σ) packets).2.agent.Told sent := by
  rcases told with ⟨rfl, pending⟩ | ⟨m, packet, rfl, tells, answered⟩
  · exact .inl ⟨rfl, pending.role_eq, pending.live, pending.outcome_eq, pending.reply⟩
  · exact .inr ⟨m, packet, rfl, tells, answered.done, answered.outcome_eq, answered.reply⟩

variable {connection : Nat} {isOpen : Bool}
  (line : h.line = some ⟨connection, .responder, isOpen⟩)
include line

theorem told_pumpFor (fuel : Nat) (pending : h.agent.Pending) :
    (h.pumpFor (Party.kind σ) fuel).2.agent.Told (h.pumpFor (Party.kind σ) fuel).1 := by
  cases fuel with
  | zero => exact .inl ⟨rfl, pending⟩
  | succ fuel =>
    rw [Handle.pumpFor, Handle.sendOne, line]
    cases ready : (Party.kind σ).ready h.agent with
    | none => exact .inl ⟨rfl, pending⟩
    | some made =>
      obtain ⟨m, next⟩ := made
      have answered := pending.of_ready ready
      dsimp only
      cases written : (Party.kind σ).protocol.encode m with
      | error e => exact .inl ⟨rfl, pending⟩
      | ok payload =>
        cases isOpen with
        | false => exact .inl ⟨rfl, pending⟩
        | true =>
          -- the reply leaves, and a server that is done sends nothing more
          simp only [if_true]
          rw [pumpFor_of_done answered.done]
          exact .inr ⟨m, ⟨⟨number, .responder⟩, payload⟩, rfl, ⟨rfl, written⟩, answered⟩

theorem told_pump (pending : h.agent.Pending) :
    (h.pump (Party.kind σ)).2.agent.Told (h.pump (Party.kind σ)).1 :=
  told_pumpFor line _ pending

omit line in
theorem told_bind {h : Handle Party} (loose : h.line = none) (pending : h.agent.Pending) :
    (h.bind (Party.kind σ) ⟨connection, .responder, isOpen⟩).2.2.agent.Told
      (h.bind (Party.kind σ) ⟨connection, .responder, isOpen⟩).2.1.sent := by
  rw [Handle.bind, loose]
  have bound : ({ h with line := some ⟨connection, .responder, isOpen⟩ } : Handle Party).line =
    some ⟨connection, .responder, isOpen⟩ := rfl
  exact told_finish (told_pump bound pending) _

theorem told_deliver {sent : List Packet} (told : h.agent.Told sent) (payload : Bytes) (w : σ) :
    (h.deliver (Party.kind σ) payload w).2.1.agent.Told
      (sent ++ (h.deliver (Party.kind σ) payload w).1.sent) := by
  unfold Handle.deliver
  split
  · rwa [List.append_nil]
  · rename_i m _
    unfold Handle.receive
    split
    · rw [Handle.finish, List.append_nil]
      exact told_finish told []
    · rename_i agent w' accepted
      rcases told with ⟨rfl, pending⟩ | ⟨m, packet, rfl, tells, answered⟩
      · have made := told_pump (h := { h with agent }) (σ := σ) line (pending.of_consume accepted)
        exact told_finish made (Handle.pump (Party.kind σ) { h with agent }).1
      · rw [Party.consume_of_done answered.done] at accepted
        cases accepted

end Handshake
end ChainRelay
