import ChainRelay.Proofs.Connection.Queue
import ChainRelay.Proofs.Handshake.Reply
import ChainRelay.Server.Gate

/-! The handshake stands before every other protocol. Until it has accepted a version
nothing else is bound, so whatever the other agents have taken in, nothing of theirs is
queued; and a gate that does not accept queues nothing more. -/
namespace ChainRelay

open Handshake (Party)

structure Gated (q : List Packet) : Prop where
  /-- it begins with a reply to the proposal -/
  first : ∀ packet later, q = packet :: later → ∃ m : Handshake.Message, m.IsReply ∧ packet.Tells m
  /-- behind a message that accepts no version there is nothing -/
  only : ∀ packet later m, q = packet :: later → packet.Tells m →
    (∀ version data, m ≠ .acceptVersion version data) → later = []
  /-- another protocol comes behind an accepted version -/
  behind : ∀ before packet after, q = before ++ packet :: after →
    packet.channel.protocol ≠ Handshake.number →
      ∃ reply ∈ before, ∃ version data, reply.Tells (.acceptVersion version data)

def Opened (q : List Packet) : Prop :=
  ∃ version data packet later, q = packet :: later ∧
    packet.Tells (.acceptVersion version data)

namespace Opened

theorem of_prefix {q r : List Packet} (opened : Opened q) (grown : q <+: r) : Opened r := by
  obtain ⟨version, data, packet, later, rfl, tells⟩ := opened
  obtain ⟨more, rfl⟩ := grown
  exact ⟨version, data, packet, later ++ more, rfl, tells⟩

theorem gated {q : List Packet} (opened : Opened q) : Gated q := by
  obtain ⟨version, data, packet, later, rfl, tells⟩ := opened
  constructor
  case first =>
    rintro _ _ ⟨⟩
    exact ⟨.acceptVersion version data, rfl, tells⟩
  case only =>
    rintro _ _ m ⟨⟩ told apart
    obtain ⟨version', data', rfl⟩ := Handshake.exists_eq_acceptVersion tells told
    exact absurd rfl (apart version' data')
  case behind =>
    intro before other after split apart
    cases before with
    | nil =>
      cases split
      exact absurd (congrArg Channel.protocol tells.channel_eq) apart
    | cons head before =>
      cases split
      exact ⟨packet, List.mem_cons_self, version, data, tells⟩

end Opened

namespace Handshake.Party.Told

variable {sent : List Packet} {p : Party}

theorem gated (told : p.Told sent) : Gated sent := by
  rcases told with ⟨rfl, -⟩ | ⟨m, packet, rfl, tells, answered⟩
  · exact ⟨nofun, nofun, fun before _ _ split => by cases before <;> cases split⟩
  · constructor
    case first =>
      rintro _ _ ⟨⟩
      exact ⟨m, answered.reply, tells⟩
    case only =>
      rintro _ _ _ ⟨⟩ - -
      rfl
    case behind =>
      intro before other after split apart
      cases before with
      | nil =>
        cases split
        exact absurd (congrArg Channel.protocol tells.channel_eq) apart
      | cons head before => cases before <;> cases split

theorem opened (told : p.Told sent) {version : UInt64} {data : VersionData}
    (outcome : p.outcome = some (.accepted version data)) : Opened sent := by
  rcases told with ⟨rfl, pending⟩ | ⟨m, packet, rfl, tells, answered⟩
  · rw [pending.outcome_eq] at outcome
    cases outcome
  · have ends : outcomeOf? m = some (.accepted version data) :=
      answered.outcome_eq.symm.trans outcome
    cases m with
    | acceptVersion version' data' => exact ⟨version', data', packet, [], rfl, tells⟩
    | _ => cases ends

end Handshake.Party.Told

variable {σ : Type}

/-- Only the handshake at this place is on the connection, and the queue is what it has
told. -/
structure Board.Awaits (connection place : Nat) (b : Board σ) : Prop where
  told : ∃ h isOpen, b.handles[place]? = some (.handshake h) ∧
    h.line = some ⟨connection, .responder, isOpen⟩ ∧ h.agent.Told (b.queued connection)
  alone : ∀ other, b.connectionAt other = some connection → other = place

namespace Board

variable {chain : ChainSource σ} {connection place : Nat} {b : Board σ}

theorem Awaits.deliver (awaits : b.Awaits connection place) (target : Nat) (payload : Bytes) :
    (b.deliver chain target payload).Awaits connection place := by
  obtain ⟨⟨h, isOpen, here, line, told⟩, alone⟩ := awaits
  have stays := fun w x => AnyHandle.stays_deliver chain payload w x
  refine ⟨?told, fun other bound => alone other ?alone⟩
  case told =>
    by_cases same : target = place
    · subst same
      have heard := Handshake.told_deliver line told payload b.world
      have kept := (Handle.stays_deliver (Party.kind σ) payload h b.world).line_eq
      have bound : (AnyHandle.handshake h).line.map (·.connection) = some connection :=
        congrArg (Option.map _) line
      refine ⟨_, isOpen, handles_operate here, kept.trans line, ?_⟩
      rw [Board.deliver, queued_operate stays here, if_pos bound]
      exact heard
    · have apart : b.connectionAt target ≠ some connection := fun bound => same (alone _ bound)
      refine ⟨h, isOpen, (handles_operate_of_ne same).trans here, line, ?_⟩
      rw [Board.deliver, queued_operate_of_apart stays apart]
      exact told
  case alone => rwa [Board.deliver, connectionAt_operate stays] at bound

variable (chain) in
theorem Awaits.bind {h : Handle Party} (here : b.handles[place]? = some (.handshake h))
    (loose : h.line = none) (pending : h.agent.Pending) (empty : b.queued connection = [])
    (unused : ∀ other, b.connectionAt other ≠ some connection) (isOpen : Bool) :
    (b.bind chain place connection isOpen).1 = .ok () ∧
      (b.bind chain place connection isOpen).2.Awaits connection place := by
  have side : (AnyHandle.handshake h).role chain = .server := pending.role_eq
  obtain ⟨done, line⟩ := Handle.bind_of_unbound (Party.kind σ) loose ⟨connection, .responder, isOpen⟩
  have told : (h.bind (Party.kind σ) ⟨connection, .responder, isOpen⟩).2.2.agent.Told
      (h.bind (Party.kind σ) ⟨connection, .responder, isOpen⟩).2.1.sent :=
    Handshake.told_bind loose pending
  rw [Board.bind, here]
  dsimp only
  rw [side]
  refine ⟨done, ⟨_, isOpen, handles_note _ here _, line, ?told⟩, fun other bound => ?alone⟩
  case told =>
    have named := congrArg (fun line => (Option.map Line.connection line).getD 0) line
    rw [queued_note, empty]
    exact (congrArg (Party.Told · _) (if_pos named)).mpr told
  case alone =>
    by_cases same : other = place
    · exact same
    · rw [connectionAt_note_of_ne _ _ (Ne.symm same)] at bound
      exact absurd bound (unused other)

variable (chain) in
theorem pending_sealAll {h : Handle Party} (here : b.handles[place]? = some (.handshake h))
    (loose : h.line = none) (pending : h.agent.Pending) (places : List Nat) :
    ∃ h', (b.sealAll chain places).handles[place]? = some (.handshake h') ∧ h'.line = none ∧
      h'.agent.Pending := by
  unfold sealAll
  induction places generalizing b h with
  | nil => exact ⟨h, here, loose, pending⟩
  | cons target places ih =>
    rw [List.foldl_cons]
    have after : (b.modify target (·.sealListeners chain)).handles[place]? =
        some (if target = place then (AnyHandle.handshake h).sealListeners chain
          else .handshake h) := by
      rw [modify, List.getElem?_modify, here]
      rfl
    split at after
    · exact ih after loose ⟨pending.role_eq, pending.live, pending.outcome_eq, pending.reply⟩
    · exact ih after loose pending

theorem opened_of_bind {target : Nat} {isOpen : Bool} (opened : Opened (b.queued connection)) :
    Opened ((b.bind chain place target isOpen).2.queued connection) :=
  opened.of_prefix (queued_prefix_bind chain isOpen target)

end Board

namespace Gate

variable {chain : ChainSource σ} {connection : Nat} {g : Gate} {b : Board σ}

def Guards (connection : Nat) (g : Gate) (b : Board σ) : Prop :=
  match g.phase with
  | .waiting => b.Awaits connection g.crew.handshake
  | .serving => Opened (b.queued connection)
  | .ended => Gated (b.queued connection)

theorem Guards.gated (guards : Guards connection g b) : Gated (b.queued connection) := by
  unfold Guards at guards
  split at guards
  · obtain ⟨h, isOpen, -, -, told⟩ := guards.told
    exact told.gated
  · exact guards.gated
  · exact guards

theorem guards_finish (gated : Gated (b.queued connection)) :
    Guards connection (g.finish chain b).1 (g.finish chain b).2 := by
  change Gated ((Board.unbindAll chain g.crew.places (g.link.close chain b).2).queued connection)
  rw [Board.queued_unbindAll]
  exact gated

theorem Guards.receive (guards : Guards connection g b) (bytes : Bytes) (live : g.phase ≠ .ended) :
    Guards connection (g.receive chain bytes b).1 (g.receive chain bytes b).2 := by
  obtain ⟨crew, link, phase⟩ := g
  cases phase with
  | waiting =>
    exact Link.receive_keeps chain (P := fun b => b.Awaits connection crew.handshake)
      (fun _ _ _ awaits => awaits.deliver _ _) bytes link guards
  | serving =>
    exact Link.receive_keeps chain (P := fun b => Opened (b.queued connection))
      (fun _ _ _ opened => opened.of_prefix Board.queued_prefix_operate) bytes link guards
  | ended => exact absurd rfl live

theorem Guards.look (guards : Guards connection g b) :
    Guards connection (g.look chain b).1 (g.look chain b).2 := by
  have gated := guards.gated
  unfold Gate.look
  split
  · rename_i version data waits outcome
    rw [Guards, waits] at guards
    obtain ⟨h, isOpen, here, -, told⟩ := guards.told
    rw [Board.outcome, here] at outcome
    have opened : Opened ((g.link.bindAll chain g.crew.agents b).2.2.queued connection) :=
      Link.bindAll_keeps chain (P := fun b => Opened (b.queued connection))
        (fun _ _ _ _ opened => Board.opened_of_bind opened) _ _ (told.opened outcome)
    split
    · rename_i link b' bound
      rw [bound] at opened
      exact opened
    · rename_i e link b' bound
      rw [bound] at opened
      exact guards_finish opened.gated
  · exact guards_finish gated
  · exact guards

theorem Guards.step (guards : Guards connection g b) (t : Turn) :
    Guards connection (g.step chain t b).1 (g.step chain t b).2 := by
  unfold Gate.step
  split
  · exact guards
  · rename_i bytes live
    exact guards.receive bytes live
  · exact guards.look
  · rename_i place serves
    rw [Guards, serves] at guards
    rw [Guards, serves]
    exact guards.of_prefix Board.queued_prefix_operate
  · exact guards
  · exact guards_finish guards.gated

theorem Guards.follow (guards : Guards connection g b) (turns : List Turn) :
    Guards connection (follow chain turns g b).1 (follow chain turns g b).2 := by
  induction turns generalizing g b with
  | nil => exact guards
  | cons t turns ih => exact ih (guards.step t)

variable (chain) in
theorem guards_begin {crew : Crew} {link : Link} {h : Handle Party}
    (here : b.handles[crew.handshake]? = some (.handshake h)) (loose : h.line = none)
    (pending : h.agent.Pending) (unused : ∀ place, b.connectionAt place ≠ some link.id)
    (empty : b.queued link.id = []) :
    Guards link.id (begin chain crew link b).1 (begin chain crew link b).2 := by
  obtain ⟨h', here', loose', pending'⟩ :=
    Board.pending_sealAll chain here loose pending crew.places
  obtain ⟨quiet, there⟩ := Board.sealAll_unseen link.id chain crew.places b
  have still : ∀ other, (b.sealAll chain crew.places).connectionAt other ≠ some link.id := by
    intro other
    rw [there other]
    exact unused other
  unfold begin
  dsimp only
  generalize b.sealAll chain crew.places = b at here' quiet still ⊢
  rw [empty] at quiet
  have same := Link.foldl_route_id chain b crew.agents link
  generalize crew.agents.foldl (fun l place => l.route chain place b) link = l at same ⊢
  rw [← same] at quiet still ⊢
  rw [Link.bind, Link.route_id]
  obtain ⟨done, awaits⟩ := Board.Awaits.bind chain here' loose' pending' quiet still
    (l.route chain crew.handshake b).isOpen
  dsimp only
  rw [done]
  exact awaits

/-- What is queued on a connection from its begin through these turns. -/
def served (chain : ChainSource σ) (crew : Crew) (link : Link) (turns : List Turn)
    (b : Board σ) : List Packet :=
  let (g, b) := begin chain crew link b
  (follow chain turns g b).2.queued link.id

/-- A server that shakes hands with a new agent, on a connection that no handle is on yet,
keeps the gate shut: whatever arrives, and whichever agents it has. -/
theorem gated_served {crew : Crew} {link : Link} {versions : VersionTable}
    {listeners : Listeners Handshake.Event}
    (fresh : b.handles[crew.handshake]? =
      some (.handshake (.new { Party.new .server versions with listeners })))
    (unused : ∀ place, b.connectionAt place ≠ some link.id) (empty : b.queued link.id = [])
    (turns : List Turn) : Gated (served chain crew link turns b) := by
  have begun := guards_begin chain fresh rfl (Party.pending_new versions listeners) unused empty
  exact (begun.follow turns).gated

open Segment (writeMessage)

/-- A ping in front of the proposal is answered when the proposal has been. -/
theorem gated_served_ping :
    let crew : Crew := ⟨0, [1]⟩
    let link : Link := .new 1 1000
    let b : Board ChainStore := ⟨[.handshake (.new (.new .server (.nodeToNode 7))),
      .keepAliveServer (.new .new)], .inMemory, [], []⟩
    let ping := writeMessage 0 ⟨KeepAlive.number, .initiator⟩ [0x82, 0, 5]
    let propose := writeMessage 0 ⟨Handshake.number, .initiator⟩
      [0x82, 0, 0xa1, 13, 0x84, 7, 0xf4, 0, 0xf4]
    let q := served ChainStore.source crew link [.bytes ping, .look, .bytes propose, .look] b
    b.handles[crew.handshake]? = some (.handshake (.new
        { Party.new .server (.nodeToNode 7) with listeners := .empty })) ∧
      (∀ place, b.connectionAt place ≠ some link.id) ∧ b.queued link.id = [] ∧
      q.map (·.payload) = [[0x83, 1, 13, 0x84, 7, 0xf4, 0, 0xf4], [0x82, 1, 5]] ∧ Gated q := by
  intro crew link b ping propose q
  have unused : ∀ place, b.connectionAt place ≠ some link.id := by
    intro place
    match place with
    | 0 | 1 | _ + 2 => exact nofun
  exact ⟨rfl, unused, rfl, by decide +kernel, gated_served rfl unused rfl _⟩

end Gate
end ChainRelay
