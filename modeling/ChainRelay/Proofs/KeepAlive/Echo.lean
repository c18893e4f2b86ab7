import ChainRelay.Proofs.KeepAlive.Client
import ChainRelay.Proofs.Protocol.Lossless

/-! A client and a server of keep-alive, joined by links. The ping in flight is at all times in
one place: on its way, with the server, or on its way back as a response. So every response
fits, and no ping is lost. -/
namespace ChainRelay

namespace Exchange

variable {σ State Message A B E F : Type} (x : Pairing σ State Message A B E F)

def calls (e : Exchange σ A B) : Move σ → List (Nat × E)
  | .act .client action => (e.client.act x.client x.ask e.world action).1.calls
  | .deliver .client =>
    match e.toClient with
    | [] => []
    | b :: _ => (e.client.deliver x.client b e.world).1.calls
  | _ => []

def callsOf (e : Exchange σ A B) : List (Move σ) → List (Nat × E)
  | [] => []
  | move :: moves => e.calls x move ++ (e.step x move).callsOf moves

end Exchange

theorem Handle.deliver_of_decode {σ State Message A E : Type} {k : AgentKind σ A State Message E}
    {b : Bytes} {m : Message} (read : k.protocol.decode b = .ok m) (h : Handle A) (w : σ) :
    h.deliver k b w = (h.receive k m w).2 := by
  rw [Handle.deliver, read]

namespace KeepAlive
open Client (accounted reported)

variable {σ : Type}

def pinged? : Move σ → Option UInt32
  | .act .client (.request (.ping cookie)) => some cookie
  | _ => none

/-- Where the ping in flight is, if there is one, and what is on the links. -/
inductive Phase (c : Client) (s : Server) : List Bytes → List Bytes → Prop
  | calm (client : c.state = .client) (server : s.state = .client) (landed : c.inFlight = none)
      (idle : s.replies = []) : Phase c s [] []
  | asking {cookie : UInt32} {b : Bytes} (client : c.state = .server) (server : s.state = .client)
      (flying : c.inFlight = some cookie) (idle : s.replies = [])
      (read : protocol.decode b = .ok (.ping cookie)) : Phase c s [b] []
  | answering {cookie : UInt32} (client : c.state = .server) (server : s.state = .server)
      (flying : c.inFlight = some cookie) (busy : s.replies = [.response cookie]) : Phase c s [] []
  | answered {cookie : UInt32} {b : Bytes} (client : c.state = .server)
      (server : s.state = .client) (flying : c.inFlight = some cookie) (idle : s.replies = [])
      (read : protocol.decode b = .ok (.response cookie)) : Phase c s [] [b]
  | closing {b : Bytes} (client : c.state = .done) (server : s.state = .client)
      (landed : c.inFlight = none) (idle : s.replies = [])
      (read : protocol.decode b = .ok .done) : Phase c s [b] []
  | closed (client : c.state = .done) (server : s.state = .done) (landed : c.inFlight = none)
      (idle : s.replies = []) : Phase c s [] []

theorem decode_of_encode {m : Message} {b : Bytes} (written : protocol.encode m = .ok b) :
    protocol.decode b = .ok m := by
  obtain ⟨b', written', read⟩ := conveys.delivered (m := m) trivial
  rw [written] at written'
  cases written'
  exact read

variable {c : Client} {s : Server} {out back : List Bytes}

namespace Phase

theorem of_client (phase : Phase c s out back) {d : Client} (state : d.state = c.state)
    (inFlight : d.inFlight = c.inFlight) : Phase d s out back := by
  cases phase with
  | calm client server landed idle =>
    exact .calm (state.trans client) server (inFlight.trans landed) idle
  | asking client server flying idle read =>
    exact .asking (state.trans client) server (inFlight.trans flying) idle read
  | answering client server flying busy =>
    exact .answering (state.trans client) server (inFlight.trans flying) busy
  | answered client server flying idle read =>
    exact .answered (state.trans client) server (inFlight.trans flying) idle read
  | closing client server landed idle read =>
    exact .closing (state.trans client) server (inFlight.trans landed) idle read
  | closed client server landed idle =>
    exact .closed (state.trans client) server (inFlight.trans landed) idle

theorem calm_of_client (phase : Phase c s out back) (free : c.state = .client) :
    out = [] ∧ back = [] ∧ c.inFlight = none ∧ s.state = .client ∧ s.replies = [] := by
  cases phase with
  | calm _ server landed idle => exact ⟨rfl, rfl, landed, server, idle⟩
  | asking client | answering client | answered client | closing client | closed client =>
    rw [free] at client
    cases client

theorem client_commit (phase : Phase c s out back) {m : Message} {next : State} {b : Bytes}
    (free : c.state = .client) (made : c.produce = some m)
    (moved : protocol.move c.state m = some next) (written : protocol.encode m = .ok b) :
    Phase ((Client.kind σ).commit m next c) s (out ++ [b]) back := by
  obtain ⟨rfl, rfl, landed, server, idle⟩ := phase.calm_of_client free
  have read := decode_of_encode written
  obtain ⟨cookie, rest, rfl, -, same⟩ | ⟨rfl, -, same⟩ :=
    Client.commit_cases (σ := σ) free made moved
  · rw [same]
    exact .asking rfl server rfl idle read
  · rw [same]
    exact .closing rfl server landed idle read

theorem server_commit (phase : Phase c s out back) {m : Message} {next : State} {b : Bytes}
    (made : s.replies.head? = some m) (moved : protocol.move s.state m = some next)
    (written : protocol.encode m = .ok b) :
    Phase c ((Server.kind σ).commit m next s) out (back ++ [b]) := by
  have read := decode_of_encode written
  cases phase with
  | calm _ _ _ idle | asking _ _ _ idle | answered _ _ _ idle | closing _ _ _ idle
  | closed _ _ _ idle =>
    rw [idle] at made
    cases made
  | answering client server flying busy =>
    rw [busy] at made
    cases made
    rw [server] at moved
    cases moved
    refine .answered client rfl flying ?_ read
    simp [AgentKind.commit, Server.kind, busy]

theorem server_take {b : Bytes} {rest : List Bytes} (phase : Phase c s (b :: rest) back) (w : σ) :
    ∃ m s', protocol.decode b = .ok m ∧ (Server.kind σ).consume m s w = .ok (s', w) ∧
      Phase c s' rest back := by
  have side : (Server.kind σ).role s = .server := rfl
  cases phase with
  | @asking cookie _ client server flying idle read =>
    have holds : Role.server.peer.holds ((Server.kind σ).protocol.agency s.state) = true := by
      rw [server]
      rfl
    have moved : (Server.kind σ).protocol.move s.state (.ping cookie) = some .server := by
      rw [server]
      rfl
    refine ⟨_, _, read, AgentKind.consume_of_moves side holds moved w, ?_⟩
    exact .answering client rfl flying (by simp [Server.kind, Server.received, idle])
  | closing client server landed idle read =>
    have holds : Role.server.peer.holds ((Server.kind σ).protocol.agency s.state) = true := by
      rw [server]
      rfl
    have moved : (Server.kind σ).protocol.move s.state .done = some .done := by
      rw [server]
      rfl
    exact ⟨_, _, read, AgentKind.consume_of_moves side holds moved w,
      .closed client rfl landed idle⟩

theorem client_take {b : Bytes} {rest : List Bytes} (phase : Phase c s out (b :: rest)) (w : σ) :
    ∃ cookie, protocol.decode b = .ok (.response cookie) ∧ c.inFlight = some cookie ∧
      (Client.kind σ).consume (.response cookie) c w =
        .ok (Client.received (.response cookie) { c with state := .client }, w) ∧
      Phase (Client.received (.response cookie) { c with state := .client }) s out rest := by
  have side : (Client.kind σ).role c = .client := rfl
  cases phase with
  | @answered cookie _ client server flying idle read =>
    have holds : Role.client.peer.holds ((Client.kind σ).protocol.agency c.state) = true := by
      rw [client]
      rfl
    have moved : (Client.kind σ).protocol.move c.state (.response cookie) = some .client := by
      rw [client]
      rfl
    refine ⟨cookie, read, flying, AgentKind.consume_of_moves side holds moved w, ?_⟩
    have landed : (Client.received (.response cookie) { c with state := .client }).inFlight = none ∧
        (Client.received (.response cookie) { c with state := .client }).state = .client := by
      simp [Client.received, flying]
    exact .calm landed.2 server landed.1 idle

end Phase

structure Joined (id : Nat) (pings : List UInt32) (calls : List (Nat × Event)) (c : Client)
    (s : Server) (out back : List Bytes) : Prop where
  once : c.listeners.ids.count id = 1
  whole : accounted id calls c = pings
  phase : Phase c s out back

namespace Joined

variable {id : Nat} {pings : List UInt32} {calls : List (Nat × Event)}

theorem client_says (joined : Joined id pings calls c s out back) {m : Message} {next : State}
    {b : Bytes} (turn : (Client.kind σ).hasAgency c = true) (made : c.produce = some m)
    (moved : protocol.move c.state m = some next) (written : protocol.encode m = .ok b) :
    Joined id pings calls ((Client.kind σ).commit m next c) s (out ++ [b]) back := by
  have free := Client.client_of_holds turn
  obtain ⟨-, -, landed, -, -⟩ := joined.phase.calm_of_client free
  refine ⟨?_, ?_, joined.phase.client_commit free made moved written⟩
  · obtain ⟨_, _, -, -, same⟩ | ⟨-, -, same⟩ := Client.commit_cases (σ := σ) free made moved
    · rw [same]
      exact joined.once
    · rw [same]
      exact joined.once
  · rw [Client.accounted_commit free landed made moved]
    exact joined.whole

theorem client_calls (joined : Joined id pings calls c s out back) :
    Joined id pings (calls ++ c.listeners.take.1) { c with listeners := c.listeners.take.2 } s
      out back where
  once := joined.once
  whole := Client.accounted_takeCalls.trans joined.whole
  phase := joined.phase.of_client rfl rfl

theorem client_asked (joined : Joined id pings calls c s out back) (r : Request) :
    Joined id (pings ++ (Client.pinged? (.asked r)).toList) calls (r.ofKeepAlive c) s out back := by
  obtain ⟨state, inFlight, listeners, -⟩ := Client.ofKeepAlive_frame r c
  refine ⟨?_, ?_, joined.phase.of_client state inFlight⟩
  · rw [listeners]
    exact joined.once
  · rw [Client.accounted_ofKeepAlive, joined.whole]

theorem client_speaks {h : Handle Client} {w : σ} {e : Effects Event} {t : Handle Client × σ}
    (joined : Joined id pings calls h.agent s out back)
    (speaks : (Client.conduct σ).Speaks (h, w) e t) :
    Joined id pings (calls ++ e.calls) t.1.agent s (out ++ e.sent.map (·.payload)) back := by
  refine speaks.keeps (I := fun sent called c =>
    Joined id pings (calls ++ called) c s (out ++ sent.map (·.payload)) back) ?_ ?_ ?_
  · intro sent called c m next packet joined turn made moved written
    rw [List.map_append, ← List.append_assoc]
    exact joined.client_says turn made moved written
  · intro sent called c joined
    rw [← List.append_assoc]
    exact joined.client_calls
  · rw [List.append_nil, List.map_nil, List.append_nil]
    exact joined

theorem server_speaks {h : Handle Server} {w : σ} {e : Effects Empty} {t : Handle Server × σ}
    (joined : Joined id pings calls c h.agent out back)
    (speaks : (Server.conduct σ).Speaks (h, w) e t) :
    Joined id pings calls c t.1.agent out (back ++ e.sent.map (·.payload)) := by
  refine speaks.keeps (I := fun sent _ s =>
    Joined id pings calls c s out (back ++ sent.map (·.payload))) ?_ ?_ ?_
  · intro sent _ s m next packet joined _ made moved written
    rw [List.map_append, ← List.append_assoc]
    exact ⟨joined.once, joined.whole, joined.phase.server_commit made moved written⟩
  · intro sent _ s joined
    exact joined
  · rw [List.map_nil, List.append_nil]
    exact joined

theorem client_hears (joined : Joined id pings calls c s out back) {cookie : UInt32}
    {rest : List Bytes} (fits : c.inFlight = some cookie)
    (phase : Phase (Client.received (.response cookie) { c with state := .client }) s out rest) :
    Joined id pings calls (Client.received (.response cookie) { c with state := .client }) s
      out rest where
  once := by simpa [Client.received, fits, Listeners.notify] using joined.once
  whole := (Client.accounted_received joined.once fits).trans joined.whole
  phase := phase

end Joined

/-! ### Steps and runs of the pair -/

abbrev Joint (id : Nat) (pings : List UInt32) (calls : List (Nat × Event))
    (e : Exchange σ Client Server) : Prop :=
  Joined id pings calls e.client.agent e.server.agent e.toServer e.toClient

variable {id : Nat} {pings : List UInt32} {calls : List (Nat × Event)}
  {e : Exchange σ Client Server}

theorem joint_prepare (joint : Joint id pings calls e) (action : Action) :
    Joined id (pings ++ (pinged? (.act .client action : Move σ)).toList) calls
      ((Client.conduct σ).prepare e.client e.world action).1.agent e.server.agent e.toServer
      e.toClient := by
  cases action with
  | request r =>
    have asked := joint.client_asked r
    cases r <;> exact asked
  | pump | sendNext | bind line =>
    change Joined id (pings ++ []) calls e.client.agent e.server.agent e.toServer e.toClient
    rw [List.append_nil]
    exact joint

theorem joint_step (joint : Joint id pings calls e) (move : Move σ) :
    Joint id (pings ++ (pinged? move).toList) (calls ++ e.calls (pairing σ) move)
      (e.step (pairing σ) move) := by
  cases move with
  | act side action =>
    cases side with
    | client =>
      exact (joint_prepare joint action).client_speaks (Conduct.speaks_act action e.client e.world)
    | server =>
      -- no request means anything to a server, so it asks for no ping
      have prepared :
          ((Server.conduct σ).prepare e.server e.world action) = (e.server, e.world) := by
        cases action <;> rfl
      have speaks := Conduct.speaks_act (c := Server.conduct σ) action e.server e.world
      rw [prepared] at speaks
      change Joined id (pings ++ []) (calls ++ []) _ _ _ _
      rw [List.append_nil, List.append_nil]
      exact joint.server_speaks speaks
  | deliver side =>
    cases side with
    | client =>
      cases under : e.toClient with
      | nil => simpa [pinged?, Exchange.calls, Exchange.step, under] using joint
      | cons b rest =>
        have phase := joint.phase
        rw [under] at phase
        obtain ⟨cookie, read, fits, taken, later⟩ := phase.client_take e.world
        have speaks := Conduct.speaks_receive_of_ok (c := Client.conduct σ) (h := e.client) taken
        have said := (joint.client_hears fits later).client_speaks speaks
        have heard : e.client.deliver (pairing σ).client b e.world =
            (e.client.receive (Client.kind σ) (.response cookie) e.world).2 :=
          Handle.deliver_of_decode read e.client e.world
        simp only [pinged?, Exchange.calls, Exchange.step, under, heard]
        rw [Option.toList_none, List.append_nil]
        exact said
    | server =>
      cases under : e.toServer with
      | nil => simpa [pinged?, Exchange.calls, Exchange.step, under] using joint
      | cons b rest =>
        have phase := joint.phase
        rw [under] at phase
        obtain ⟨m, s', read, taken, later⟩ := phase.server_take e.world
        have speaks := Conduct.speaks_receive_of_ok (c := Server.conduct σ) (h := e.server) taken
        have took : Joined id pings calls e.client.agent s' rest e.toClient :=
          ⟨joint.once, joint.whole, later⟩
        have said := took.server_speaks speaks
        have heard : e.server.deliver (pairing σ).server b e.world =
            (e.server.receive (Server.kind σ) m e.world).2 :=
          Handle.deliver_of_decode read e.server e.world
        simp only [Exchange.step, under, heard]
        change Joined id (pings ++ []) (calls ++ []) _ _ _ _
        rw [List.append_nil, List.append_nil]
        exact said
  | change w =>
    change Joined id (pings ++ []) (calls ++ []) _ _ _ _
    rw [List.append_nil, List.append_nil]
    exact joint

theorem joint_run (joint : Joint id pings calls e) (moves : List (Move σ)) :
    Joint id (pings ++ moves.filterMap pinged?) (calls ++ e.callsOf (pairing σ) moves)
      (e.run (pairing σ) moves) := by
  induction moves generalizing pings calls e with
  | nil =>
    rw [List.filterMap_nil, Exchange.callsOf, List.append_nil, List.append_nil]
    exact joint
  | cons move moves ih =>
    have asked : pings ++ (move :: moves).filterMap pinged? =
        pings ++ (pinged? move).toList ++ moves.filterMap pinged? := by
      rw [List.filterMap_cons, List.append_assoc]
      cases pinged? move <;> rfl
    rw [asked, Exchange.callsOf, ← List.append_assoc]
    exact ih (joint_step joint move)

def opening (l : Listeners Event) (w : σ) : Exchange σ Client Server :=
  .start { Client.new with listeners := l } .new w

theorem exists_run_step (e : Exchange σ Client Server) (move : Move σ) :
    ∃ log, (Client.conduct σ).Run (e.client, e.world) log
        ((e.step (pairing σ) move).client, (e.step (pairing σ) move).world) ∧
      .reset ∉ log ∧ log.flatMap Note.calls = e.calls (pairing σ) move := by
  -- to the client a step of the server is a change of the world
  have idle : ∀ w, (Client.conduct σ).Run (e.client, e.world) [] (e.client, w) :=
    fun w => (Conduct.Step.change w).run
  cases move with
  | act side action =>
    cases side with
    | client =>
      obtain ⟨log, ran, kept, -, -, -, called⟩ :=
        Conduct.does_perform (c := Client.conduct σ) (.act action) e.client e.world
      exact ⟨log, ran, kept, called⟩
    | server => exact ⟨[], idle _, nofun, rfl⟩
  | deliver side =>
    cases side with
    | client =>
      simp only [Exchange.step, Exchange.calls]
      cases e.toClient with
      | nil => exact ⟨[], .nil, nofun, rfl⟩
      | cons b rest =>
        obtain ⟨log, ran, kept, -, -, -, called⟩ :=
          Conduct.does_perform (c := Client.conduct σ) (.deliver b) e.client e.world
        exact ⟨log, ran, kept, called⟩
    | server =>
      simp only [Exchange.step, Exchange.calls]
      cases e.toServer with
      | nil => exact ⟨[], .nil, nofun, rfl⟩
      | cons b rest => exact ⟨[], idle _, nofun, rfl⟩
  | change w => exact ⟨[], idle w, nofun, rfl⟩

theorem exists_run (e : Exchange σ Client Server) (moves : List (Move σ)) :
    ∃ log, (Client.conduct σ).Run (e.client, e.world) log
        ((e.run (pairing σ) moves).client, (e.run (pairing σ) moves).world) ∧
      .reset ∉ log ∧ log.flatMap Note.calls = e.callsOf (pairing σ) moves := by
  induction moves generalizing e with
  | nil => exact ⟨[], .nil, nofun, rfl⟩
  | cons move moves ih =>
    obtain ⟨log, ran, kept, called⟩ := exists_run_step e move
    obtain ⟨more, later, kept', called'⟩ := ih (e.step (pairing σ) move)
    refine ⟨log ++ more, ran.append later, ?_, ?_⟩
    · exact fun member => (List.mem_append.mp member).elim kept kept'
    · rw [List.flatMap_append, called, called', Exchange.callsOf]

/-- What has been said of the pings after these steps of the pair. -/
structure Echoed (id : Nat) (l : Listeners Event) (w : σ) (moves : List (Move σ)) : Prop where
  whole : Client.reported id ((opening l w).callsOf (pairing σ) moves)
      ((opening l w).run (pairing σ) moves).client.agent ++
    ((opening l w).run (pairing σ) moves).client.agent.inFlight.toList ++
    ((opening l w).run (pairing σ) moves).client.agent.queued = moves.filterMap pinged?
  fits : ∀ b rest, ((opening l w).run (pairing σ) moves).toClient = b :: rest →
    ∃ cookie, protocol.decode b = .ok (.response cookie) ∧
      ((opening l w).run (pairing σ) moves).client.agent.inFlight = some cookie
  /-- the client's part is a run like any other -/
  ran : ∃ log, (Client.conduct σ).Run (.new { Client.new with listeners := l }, w) log
      (((opening l w).run (pairing σ) moves).client, ((opening l w).run (pairing σ) moves).world) ∧
    .reset ∉ log ∧ log.flatMap Note.calls = (opening l w).callsOf (pairing σ) moves

/-- What a client reports are pings that it was asked for, in order, each at most once, and it is
done only when it has none left, whatever reaches it. If that comes from a server, over links
and without a reset, then no response fails to fit, and every ping has been reported, is in
flight or is queued. -/
theorem pings_reported {l : Listeners Event} {id : Nat} (once : l.ids.count id = 1)
    (unowed : l.pending = []) (w : σ) :
    (∀ {log s}, (Client.conduct σ).Run (.new { Client.new with listeners := l }, w) log s →
      Client.Reports id log s) ∧
    ∀ moves : List (Move σ), Echoed id l w moves := by
  refine ⟨Client.reports_of_run once unowed, fun moves => ?_⟩
  have start : Joint id [] [] (opening l w) :=
    ⟨once, by simp [opening, Exchange.start, Handle.new, accounted, Client.reported,
      Listeners.told, Client.new, unowed], .calm rfl rfl rfl rfl⟩
  have joint := joint_run start moves
  refine ⟨?_, ?_, exists_run (opening l w) moves⟩
  · exact joint.whole
  · intro b rest under
    have phase := joint.phase
    rw [under] at phase
    obtain ⟨cookie, read, flying, -, -⟩ :=
      phase.client_take (σ := σ) ((opening l w).run (pairing σ) moves).world
    exact ⟨cookie, read, flying⟩

/-- One cookie twice and a large one. The first is back, and the second on its way. -/
theorem pings_reported_again :
    let l : Listeners Event := ⟨[7], 8, false, []⟩
    let moves : List (Move Unit) :=
      [.act .client (.bind ⟨0, .initiator, true⟩), .act .server (.bind ⟨0, .responder, true⟩),
        .act .client (.request (.ping 5)), .act .client (.request (.ping 5)),
        .act .client (.request (.ping 70000)), .deliver .server, .deliver .client]
    let c := ((opening l ()).run (pairing Unit) moves).client.agent
    l.ids.count 7 = 1 ∧ l.pending = [] ∧
      Client.reported 7 ((opening l ()).callsOf (pairing Unit) moves) c = [5] ∧
      c.inFlight = some 5 ∧ c.queued = [70000] ∧ Echoed 7 l () moves := by
  intro l moves c
  have once : l.ids.count 7 = 1 := rfl
  have echoed := (pings_reported once rfl ()).2 moves
  exact ⟨once, rfl, by decide +kernel, by decide +kernel, by decide +kernel, echoed⟩

end KeepAlive
end ChainRelay
