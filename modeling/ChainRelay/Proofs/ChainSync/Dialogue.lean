import ChainRelay.ChainSync.Client
import ChainRelay.ChainSync.Server
import ChainRelay.Proofs.ChainSync.Codec
import ChainRelay.Proofs.Protocol.Lawful

/-! Two chain-sync agents that exchange encoded messages, each step whenever it can be
taken. A question and its answer take four steps, and at each of them no other can be
taken, so it does not matter who is quick and who is slow. -/
namespace ChainRelay.ChainSync

theorem Message.Whole.delivered {m : Message} (whole : m.Whole) :
    ∃ b, protocol.encode m = .ok b ∧ protocol.decode b = .ok m := by
  have sent := conveys.delivered whole.fits
  rwa [whole.carried_eq] at sent

structure Dialogue (σ : Type) where
  client : Client
  server : Server
  toServer : List Bytes
  toClient : List Bytes
  world : σ
  received : List Message

namespace Dialogue

def begin {σ : Type} (candidates : List Point) (window : Nat) (w : σ) : Dialogue σ :=
  ⟨.new candidates, .new .headers window, [], [], w, []⟩

section
variable {σ : Type} (chain : ChainSource σ)

inductive Step : Dialogue σ → Dialogue σ → Prop
  | ask {d : Dialogue σ} {m : Message} {client : Client} {b : Bytes}
      (taken : (Client.kind σ).takeNext d.client = some (m, client))
      (written : protocol.encode m = .ok b) :
      Step d { d with client, toServer := d.toServer ++ [b] }
  | answer {d : Dialogue σ} {m : Message} {server : Server} {b : Bytes}
      (taken : (Server.kind chain).takeNext d.server = some (m, server))
      (written : protocol.encode m = .ok b) :
      Step d { d with server, toClient := d.toClient ++ [b] }
  | reach {d : Dialogue σ} {b : Bytes} {rest : List Bytes} {m : Message} {server : Server}
      {world : σ} (first : d.toServer = b :: rest) (read : protocol.decode b = .ok m)
      (taken : (Server.kind chain).consume m d.server d.world = .ok (server, world)) :
      Step d { d with server, world, toServer := rest }
  | learn {d : Dialogue σ} {b : Bytes} {rest : List Bytes} {m : Message} {client : Client}
      {world : σ} (first : d.toClient = b :: rest) (read : protocol.decode b = .ok m)
      (taken : (Client.kind σ).consume m d.client d.world = .ok (client, world)) :
      Step d { d with client, world, toClient := rest, received := d.received ++ [m] }

/-- Nothing is under way, and neither side has anything to send. -/
structure Quiet (d : Dialogue σ) : Prop where
  toServer : d.toServer = []
  toClient : d.toClient = []
  client : (Client.kind σ).takeNext d.client = none
  server : (Server.kind chain).takeNext d.server = none

/-- Whichever steps are taken, there are finitely many, and the last leads to `e`, where
all is quiet. -/
inductive Settles (e : Dialogue σ) : Dialogue σ → Prop
  | rest (quiet : e.Quiet chain) : Settles e e
  | on {d : Dialogue σ} (some : ∃ d', Step chain d d')
      (each : ∀ d', Step chain d d' → Settles e d') : Settles e d

end

variable {σ : Type} {chain : ChainSource σ} {d d' e : Dialogue σ} {client client' : Client}
  {server server' : Server} {w w' : σ} {received : List Message} {m : Message} {b : Bytes}

/-! ### A step that is the only one -/

theorem Settles.next (later : Settles chain e d') (step : Step chain d d')
    (only : ∀ other, Step chain d other → other = d') : Settles chain e d := by
  refine .on ⟨d', step⟩ fun other taken => ?_
  rw [only other taken]
  exact later

theorem settles_ask (later : Settles chain e ⟨client', server, [b], [], w, received⟩)
    (taken : (Client.kind σ).takeNext client = some (m, client'))
    (written : protocol.encode m = .ok b) (idle : (Server.kind chain).takeNext server = none) :
    Settles chain e ⟨client, server, [], [], w, received⟩ := by
  refine later.next (.ask taken written) fun other step => ?_
  cases step with
  | ask taken' written' =>
    cases taken.symm.trans taken'
    cases written.symm.trans written'
    rfl
  | answer taken' => cases idle.symm.trans taken'
  | reach first => cases first
  | learn first => cases first

theorem settles_answer (later : Settles chain e ⟨client, server', [], [b], w, received⟩)
    (taken : (Server.kind chain).takeNext server = some (m, server'))
    (written : protocol.encode m = .ok b) (idle : (Client.kind σ).takeNext client = none) :
    Settles chain e ⟨client, server, [], [], w, received⟩ := by
  refine later.next (.answer taken written) fun other step => ?_
  cases step with
  | ask taken' => cases idle.symm.trans taken'
  | answer taken' written' =>
    cases taken.symm.trans taken'
    cases written.symm.trans written'
    rfl
  | reach first => cases first
  | learn first => cases first

theorem settles_reach (later : Settles chain e ⟨client, server', [], [], w', received⟩)
    (read : protocol.decode b = .ok m)
    (taken : (Server.kind chain).consume m server w = .ok (server', w'))
    (waits : (Client.kind σ).takeNext client = none)
    (idle : (Server.kind chain).takeNext server = none) :
    Settles chain e ⟨client, server, [b], [], w, received⟩ := by
  refine later.next (.reach rfl read taken) fun other step => ?_
  cases step with
  | ask taken' => cases waits.symm.trans taken'
  | answer taken' => cases idle.symm.trans taken'
  | reach first read' taken' =>
    cases first
    cases read.symm.trans read'
    cases taken.symm.trans taken'
    rfl
  | learn first => cases first

theorem settles_learn (later : Settles chain e ⟨client', server, [], [], w', received ++ [m]⟩)
    (read : protocol.decode b = .ok m)
    (taken : (Client.kind σ).consume m client w = .ok (client', w'))
    (waits : (Client.kind σ).takeNext client = none)
    (idle : (Server.kind chain).takeNext server = none) :
    Settles chain e ⟨client, server, [], [b], w, received⟩ := by
  refine later.next (.learn rfl read taken) fun other step => ?_
  cases step with
  | ask taken' => cases waits.symm.trans taken'
  | answer taken' => cases idle.symm.trans taken'
  | reach first => cases first
  | learn first read' taken' =>
    cases first
    cases read.symm.trans read'
    cases taken.symm.trans taken'
    rfl

/-! ### A question and its answer -/

theorem takeNext_of_silent {s : Server} (silent : s.replies = []) :
    (Server.kind chain).takeNext s = none := by
  have unsaid : (Server.kind chain).produce s = none := by
    change (s.replies.head?.bind fun m => (s.state.move m).bind fun _ => some m) = none
    rw [silent]
    rfl
  rw [AgentKind.takeNext, AgentKind.ready, unsaid]
  split <;> rfl

theorem takeNext_of_reply {s : Server} {next : State} (turn : s.state.agency = .server)
    (replies : s.replies = [m]) (moved : s.state.move m = some next) :
    (Server.kind chain).takeNext s = some (m, { s with state := next, replies := [] }) := by
  have made : (Server.kind chain).produce s = some m := by
    change (s.replies.head?.bind fun m => (s.state.move m).bind fun _ => some m) = some m
    rw [replies, List.head?_cons, Option.bind_some, moved]
    rfl
  have holds : (Server.kind chain).hasAgency s = true := by
    change Role.server.holds s.state.agency = true
    rw [turn]
    rfl
  have left : s.replies.tail = [] := by rw [replies, List.tail_cons]
  refine (AgentKind.takeNext_of_moves holds made moved).trans ?_
  rw [← left]
  rfl

theorem settles_round {question answer : Message} {waiting next : State}
    (idle : client.state = .idle) (made : client.produce = some question) (whole : question.Whole)
    (asked : State.idle.move question = some waiting) (listens : server.state = .idle)
    (silent : server.replies = [])
    (heard : Server.received chain question { server with state := waiting } w = (server', w'))
    (state : server'.state = waiting) (replies : server'.replies = [answer])
    (told : answer.Whole) (answered : waiting.move answer = some next)
    (later : Settles chain e ⟨({ client with state := next } : Client).received answer,
      { server' with state := next, replies := [] }, [], [], w', received ++ [answer]⟩) :
    Settles chain e ⟨client, server, [], [], w, received⟩ := by
  have turn : waiting.agency = .server := by
    cases question <;> cases asked <;> first | rfl | cases answered
  obtain ⟨b, written, read⟩ := whole.delivered
  obtain ⟨c, replied, learnt⟩ := told.delivered
  have speaks : (Client.kind σ).hasAgency client = true := by
    change Role.client.holds client.state.agency = true
    rw [idle]
    rfl
  have asks : (Client.kind σ).takeNext client = some (question, { client with state := waiting }) :=
    AgentKind.takeNext_of_moves speaks made (by rw [← asked, ← idle]; rfl)
  have waits : (Client.kind σ).takeNext ({ client with state := waiting } : Client) = none := by
    refine AgentKind.takeNext_of_lacks ?_
    change Role.client.holds waiting.agency = false
    rw [turn]
    rfl
  have reached : (Server.kind chain).consume question server w = .ok (server', w') := by
    refine (AgentKind.consume_of_moves rfl ?_ ?_ w).trans (congrArg Except.ok heard)
    · change Role.client.holds server.state.agency = true
      rw [listens]
      rfl
    · change server.state.move question = some waiting
      rw [listens, asked]
  have gives : (Server.kind chain).takeNext server' =
      some (answer, { server' with state := next, replies := [] }) :=
    takeNext_of_reply (by rw [state, turn]) replies (by rw [state, answered])
  have learns : (Client.kind σ).consume answer ({ client with state := waiting } : Client) w' =
      .ok (({ client with state := next } : Client).received answer, w') := by
    refine AgentKind.consume_of_moves rfl ?_ answered w'
    change Role.server.holds waiting.agency = true
    rw [turn]
    rfl
  refine settles_ask ?_ asks written (takeNext_of_silent silent)
  refine settles_reach ?_ read reached waits (takeNext_of_silent silent)
  refine settles_answer ?_ gives replied waits
  exact settles_learn later learnt learns waits (takeNext_of_silent rfl)

end Dialogue
end ChainRelay.ChainSync
