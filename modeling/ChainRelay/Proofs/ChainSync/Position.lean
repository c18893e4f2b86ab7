import ChainRelay.Proofs.Chain.Store
import ChainRelay.Proofs.ChainSync.Course
import ChainRelay.Proofs.Protocol.Lawful

/-! A client and a server of one chain, joined by two links. The chain grows and is rolled
back at any time, and a connection may break. Whenever nothing is under way, the client
is at the point that the server gave last, or has no cursor. -/
namespace ChainRelay.ChainSync
open Blocks (Holds Follows)

/-- Links hand messages over as they are, or write them and read them back. -/
inductive Carriage where
  | handed
  | written

def Carriage.pass : Carriage → Message → Message
  | handed, m => m
  | written, m => m.carried

/-- Both sides, the messages on their way in either direction, oldest first, the chain,
and all that the server has computed on this connection. -/
structure Conversation where
  client : Client
  server : Server
  toServer : List Message
  toClient : List Message
  store : ChainStore
  computed : List Computed

inductive Step where
  | append (b : StoredBlock)
  | rollback (p : Point)
  | notify
  | resetTo (p : Point)
  | setCandidates (points : List Point)
  | send (side : Role)
  | deliver (side : Role)
  | reconnect

namespace Conversation

def served (c : Conversation) (called : Server × ChainStore) : Conversation :=
  { c with
    server := called.1
    store := called.2
    computed := c.computed ++ (called.1.replies.drop c.server.replies.length).map fun reply =>
      ⟨reply, c.server.lastSent, c.store.blocks⟩ }

/-- A refused call changes nothing, and a refused message is dropped. -/
def step (carriage : Carriage) (flavor : Flavor) (window : Nat) (c : Conversation) :
    Step → Conversation
  | .append b =>
    match c.store.append b with
    | .ok (_, store) => { c with store }
    | .error _ => c
  | .rollback p =>
    match c.store.rollback p with
    | .ok (_, store) => { c with store }
    | .error _ => c
  | .notify => c.served (c.server.notifyNewBlock ChainStore.source c.store)
  | .resetTo p => { c with client := c.client.resetTo p }
  | .setCandidates points => { c with client := c.client.setCandidates points }
  | .send .client =>
    match (Client.kind ChainStore).takeNext c.client with
    | some (m, client) => { c with client, toServer := c.toServer ++ [m] }
    | none => c
  | .send .server =>
    match (Server.kind ChainStore.source).takeNext c.server with
    | some (m, server) => { c with server, toClient := c.toClient ++ [m] }
    | none => c
  | .deliver .client =>
    match c.toClient with
    | [] => c
    | m :: rest =>
      match (Client.kind ChainStore).consume (carriage.pass m) c.client c.store with
      | .ok (client, _) => { c with client, toClient := rest }
      | .error _ => { c with toClient := rest }
  | .deliver .server =>
    match c.toServer with
    | [] => c
    | m :: rest =>
      match (Server.kind ChainStore.source).consume (carriage.pass m) c.server c.store with
      | .ok called => { c with toServer := rest }.served called
      | .error _ => { c with toServer := rest }
  | .reconnect =>
    { c with
      client := c.client.reset
      server := .new flavor window
      toServer := []
      toClient := []
      computed := [] }

/-- A new block can be served and does not bring a hash that is on the chain at another
point. -/
def Right (flavor : Flavor) (c : Conversation) : Step → Prop
  | .append b =>
    b.Serves flavor ∧ ∀ a ∈ c.store.blocks, a.point.hash = b.point.hash → a.point = b.point
  | _ => True

inductive Reachable (carriage : Carriage) (flavor : Flavor) (window : Nat) : Conversation → Prop
  | start {client : Client} {store : ChainStore} (idle : client.state = .idle)
      (cursor : client.cursor = none) (unmet : client.intersected = false)
      (empty : store = .inMemory ∨ store = .inTable) :
      Reachable carriage flavor window ⟨client, .new flavor window, [], [], store, []⟩
  | step {c : Conversation} (s : Step) (before : Reachable carriage flavor window c)
      (right : c.Right flavor s) :
      Reachable carriage flavor window (c.step carriage flavor window s)

structure InPosition (carriage : Carriage) (flavor : Flavor) (c : Conversation) : Prop where
  aligned : protocol.Aligned (fun m n => carriage.pass m = n) .client c.client.state c.server.state
    c.toServer c.toClient
  sound : c.store.Sound
  serves : ∀ b ∈ c.store.blocks, b.Serves flavor
  flavored : c.server.flavor = flavor
  wide : 1 ≤ c.server.window
  given : ∀ p ∈ c.server.sent, p = .origin ∨ c.store.Knows p
  steady : c.client.Steady
  settled : ∀ m ∈ c.toClient ++ c.server.replies, m.Settled
  course : OnCourse c.client.cursor c.server.lastSent (c.toClient ++ c.server.replies)
  justified : ∀ e ∈ c.computed, e.Justified flavor
  first : RollsBackFirst (c.computed.map (·.reply))
  owes : owed (c.computed.map (·.reply)) = true →
    c.server.owesRollback = true ∧ c.server.lastSent ≠ none

variable {carriage : Carriage} {flavor : Flavor} {window : Nat} {c : Conversation}

theorem moved_pass (carriage : Carriage) (s : State) (m : Message) :
    protocol.move s (carriage.pass m) = protocol.move s m := by
  cases carriage with
  | handed => rfl
  | written => exact conveys.moved s m

theorem goal_pass (carriage : Carriage) {m : Message} (settled : m.Settled) :
    (carriage.pass m).goal = m.goal := by
  cases carriage with
  | handed => rfl
  | written => exact settled

theorem carries_one (carriage : Carriage) {role : Role} {s next : State} {m : Message}
    (holds : role.holds (protocol.agency s) = true) (moved : protocol.move s m = some next) :
    protocol.Carries (fun m n => carriage.pass m = n) role s [m] next := by
  refine ⟨carriage.pass m, next, holds, rfl, ?_, rfl⟩
  rw [moved_pass]
  exact moved

theorem inPosition_fresh {client : Client} {store : ChainStore} (idle : client.state = .idle)
    (cursor : client.cursor = none) (unmet : client.intersected = false) (sound : store.Sound)
    (serves : ∀ b ∈ store.blocks, b.Serves flavor) :
    InPosition carriage flavor ⟨client, .new flavor window, [], [], store, []⟩ where
  aligned := .inl ⟨rfl, idle.symm⟩
  sound := sound
  serves := serves
  flavored := rfl
  wide := Nat.le_max_right window 1
  given := nofun
  steady _ := ⟨cursor, unmet, by simp [idle], by simp [idle]⟩
  settled := nofun
  course := .inl cursor
  justified := nofun
  first := by
    intro before p t between reply after cut
    simp at cut
  owes := nofun

/-! ### The server is called -/

theorem InPosition.serves_server (inv : InPosition carriage flavor c) :
    ∀ b ∈ c.store.blocks, b.Serves c.server.flavor := by
  rw [inv.flavored]
  exact inv.serves

theorem computed_served (c : Conversation) (s' : Server) (reply : Option Message)
    (grown : s'.replies = c.server.replies ++ reply.toList) :
    (c.served (s', c.store)).computed = c.computed ++
      reply.toList.map fun reply => ⟨reply, c.server.lastSent, c.store.blocks⟩ := by
  rw [served, grown, List.drop_left]

theorem InPosition.served (inv : InPosition carriage flavor c) {s' : Server}
    (replied : Server.Replied c.store.blocks c.server s') :
    InPosition carriage flavor (c.served (s', c.store)) := by
  obtain ⟨reply, sent, owesRollback, tipWaiting, answer, rfl⟩ := replied
  have right := inv.sound.answers
  have computed := computed_served c
    { c.server with
      sent, owesRollback, tipWaiting, replies := c.server.replies ++ reply.toList } reply rfl
  have history : (reply.toList.map fun m => (⟨m, c.server.lastSent, c.store.blocks⟩ : Computed)).map
      (·.reply) = reply.toList := by
    rw [List.map_map]
    exact List.map_id _
  refine { inv with
    given := answer.given right.known_of_mem inv.given
    settled := ?_, course := ?_, justified := ?_, first := ?_, owes := ?_ }
  · intro m member
    rcases List.mem_append.mp member with sent | replies
    · exact inv.settled m (List.mem_append_left _ sent)
    · rcases List.mem_append.mp replies with old | new
      · exact inv.settled m (List.mem_append_right _ old)
      · exact answer.settled right.ordered m (Option.mem_toList.mp new)
  · have beyond := inv.course.append reply
    rw [← answer.last inv.wide, List.append_assoc] at beyond
    exact beyond
  · rw [computed]
    intro e member
    rcases List.mem_append.mp member with old | new
    · exact inv.justified e old
    · obtain ⟨m, here, rfl⟩ := List.mem_map.mp new
      rw [← inv.flavored]
      exact answer.justified m (Option.mem_toList.mp here)
  · rw [computed, List.map_append, history]
    exact inv.first.append fun due => answer.rollsBack (inv.owes due)
  · rw [computed, List.map_append, history, owed, List.foldl_append]
    exact answer.owes inv.owes

/-! ### A message leaves -/

theorem InPosition.sendClient (inv : InPosition carriage flavor c) {m : Message} {next : State}
    (ready : (Client.kind ChainStore).ready c.client = some (m, next)) :
    InPosition carriage flavor
      { c with
        client := (Client.kind ChainStore).commit m next c.client
        toServer := c.toServer ++ [m] } := by
  obtain ⟨holds, made, moved⟩ := AgentKind.ready_eq_some.mp ready
  have sent : protocol.Carries (fun m n => carriage.pass m = n) .client c.client.state [m] next :=
    carries_one carriage holds moved
  exact { inv with aligned := inv.aligned.send sent, steady := inv.steady.sent made moved }

theorem InPosition.sendServer (inv : InPosition carriage flavor c) {m : Message} {next : State}
    (ready : (Server.kind ChainStore.source).ready c.server = some (m, next)) :
    InPosition carriage flavor
      { c with
        server := (Server.kind ChainStore.source).commit m next c.server
        toClient := c.toClient ++ [m] } := by
  obtain ⟨holds, made, moved⟩ := AgentKind.ready_eq_some.mp ready
  have sent : protocol.Carries (fun m n => carriage.pass m = n) .server c.server.state [m] next :=
    carries_one carriage holds moved
  obtain ⟨first, head, rest⟩ := Option.bind_eq_some_iff.mp made
  obtain ⟨_, -, same⟩ := Option.bind_eq_some_iff.mp rest
  cases same
  obtain ⟨later, replies⟩ := List.head?_eq_some_iff.mp head
  -- the message only moves from the replies to the link
  have along : c.toClient ++ [m] ++ c.server.replies.tail = c.toClient ++ c.server.replies := by
    simp [replies]
  have settled := inv.settled
  have course := inv.course
  rw [← along] at settled course
  exact { inv with aligned := (inv.aligned.symm.send sent).symm, settled, course }

/-! ### A message arrives -/

theorem InPosition.deliverServer (inv : InPosition carriage flavor c) {m : Message}
    {rest : List Message} (under : c.toServer = m :: rest) :
    ∃ called, (Server.kind ChainStore.source).consume (carriage.pass m) c.server c.store =
      .ok called ∧ InPosition carriage flavor ({ c with toServer := rest }.served called) := by
  have aligned := inv.aligned.symm
  rw [under] at aligned
  obtain ⟨n, next, holds, rfl, moved, later⟩ := aligned.receive
  have taken := AgentKind.consume_of_moves (k := Server.kind ChainStore.source) rfl holds moved
    c.store
  have inside : InPosition carriage flavor
      { c with server := { c.server with state := next }, toServer := rest } :=
    { inv with aligned := later.symm }
  obtain ⟨s', ran, replied⟩ := Server.received_run inv.sound.answers
    (s := { c.server with state := next }) inv.given inv.serves_server (carriage.pass m)
  exact ⟨(s', c.store), taken.trans (congrArg Except.ok ran), inside.served replied⟩

theorem InPosition.deliverClient (inv : InPosition carriage flavor c) {m : Message}
    {rest : List Message} (under : c.toClient = m :: rest) :
    ∃ client, (Client.kind ChainStore).consume (carriage.pass m) c.client c.store =
      .ok (client, c.store) ∧ InPosition carriage flavor { c with client, toClient := rest } := by
  have aligned := inv.aligned
  rw [under] at aligned
  obtain ⟨n, next, holds, rfl, moved, later⟩ := aligned.receive
  have taken := AgentKind.consume_of_moves (k := Client.kind ChainStore) rfl holds moved c.store
  refine ⟨_, taken, ?_⟩
  have settled := inv.settled
  have course := inv.course
  rw [under] at settled course
  have state := (Client.received_frame (carriage.pass m)
    ((Client.kind ChainStore).withState next c.client)).1
  have moves := Client.received_cursor (c := (Client.kind ChainStore).withState next c.client)
    (fun follow => (inv.steady follow).1) (carriage.pass m)
  rw [goal_pass carriage (settled m (by simp))] at moves
  refine { inv with
    aligned := ?_
    steady := inv.steady.received holds moved
    settled := fun n member => settled n (List.mem_cons_of_mem m member)
    course := course.arrive moves }
  have reached : ((Client.kind ChainStore).withState next c.client).state = next := rfl
  rw [← reached, ← state] at later
  exact later

/-! ### Runs -/

theorem InPosition.append (inv : InPosition carriage flavor c) {b : StoredBlock}
    (serves : b.Serves flavor)
    (fresh : ∀ a ∈ c.store.blocks, a.point.hash = b.point.hash → a.point = b.point)
    {r : AppendResult} {store : ChainStore} (done : c.store.append b = .ok (r, store)) :
    InPosition carriage flavor { c with store } := by
  obtain ⟨sound, knows, grown⟩ := inv.sound.append serves.hash fresh done
  have serve : ∀ a ∈ store.blocks, a.Serves flavor := by
    rcases grown with ⟨same, -⟩ | longer
    · rw [same]
      exact inv.serves
    · intro a member
      rw [longer] at member
      rcases List.mem_append.mp member with old | new
      · exact inv.serves a old
      · rw [List.mem_singleton.mp new]
        exact serves
  have given := inv.given
  rw [← knows] at given
  exact { inv with sound, given, serves := serve }

theorem InPosition.rollback (inv : InPosition carriage flavor c) {p : Point} {n : Nat}
    {store : ChainStore} (done : c.store.rollback p = .ok (n, store)) :
    InPosition carriage flavor { c with store } := by
  obtain ⟨sound, knows, front⟩ := inv.sound.rollback done
  have given := inv.given
  rw [← knows] at given
  exact { inv with sound, given, serves := fun b member => inv.serves b (front.subset member) }

theorem inPosition_step (inv : InPosition carriage flavor c) (s : Step)
    (right : c.Right flavor s) : InPosition carriage flavor (c.step carriage flavor window s) := by
  cases s with
  | append b =>
    cases done : c.store.append b with
    | error e => simpa only [step, done] using inv
    | ok answer => simpa only [step, done] using inv.append right.1 right.2 done
  | rollback p =>
    cases done : c.store.rollback p with
    | error e => simpa only [step, done] using inv
    | ok answer => simpa only [step, done] using inv.rollback done
  | notify =>
    obtain ⟨s', ran, replied⟩ :=
      Server.notifyNewBlock_run inv.sound.answers inv.given inv.serves_server
    simp only [step, ran]
    exact inv.served replied
  | resetTo p =>
    have steady : (c.client.resetTo p).Steady := fun follow =>
      ⟨rfl, rfl, (inv.steady follow).2.2⟩
    exact { inv with steady, course := inv.course.lost }
  | setCandidates points =>
    have steady : (c.client.setCandidates points).Steady := fun follow =>
      ⟨(inv.steady follow).1, rfl, (inv.steady follow).2.2⟩
    exact { inv with steady }
  | send side =>
    cases side with
    | client =>
      cases ready : (Client.kind ChainStore).ready c.client with
      | none => simpa only [step, AgentKind.takeNext, ready, Option.map_none] using inv
      | some made =>
        simpa only [step, AgentKind.takeNext, ready, Option.map_some] using inv.sendClient ready
    | server =>
      cases ready : (Server.kind ChainStore.source).ready c.server with
      | none => simpa only [step, AgentKind.takeNext, ready, Option.map_none] using inv
      | some made =>
        simpa only [step, AgentKind.takeNext, ready, Option.map_some] using inv.sendServer ready
  | deliver side =>
    cases side with
    | client =>
      cases under : c.toClient with
      | nil => simpa only [step, under] using inv
      | cons m rest =>
        obtain ⟨client, taken, kept⟩ := inv.deliverClient under
        simpa only [step, under, taken] using kept
    | server =>
      cases under : c.toServer with
      | nil => simpa only [step, under] using inv
      | cons m rest =>
        obtain ⟨called, taken, kept⟩ := inv.deliverServer under
        simpa only [step, under, taken] using kept
  | reconnect => exact inPosition_fresh rfl rfl rfl inv.sound inv.serves

theorem inPosition_of_reachable (reachable : Reachable carriage flavor window c) :
    InPosition carriage flavor c := by
  induction reachable with
  | start idle cursor unmet empty =>
    rcases empty with rfl | rfl
    · exact inPosition_fresh idle cursor unmet ChainStore.sound_inMemory nofun
    · exact inPosition_fresh idle cursor unmet ChainStore.sound_inTable nofun
  | step s _ right ih => exact inPosition_step ih s right

def oneBlock : StoredBlock where
  point := ⟨20, some (.digest [0x81, 0x82, 0x01, 0x14])⟩
  blockNumber := 1
  header := [0x82, 0x01, 0xD8, 0x18, 0x44, 0x81, 0x82, 0x01, 0x14]
  body := []

theorem serves_oneBlock : oneBlock.Serves .headers := by
  have slot : (HeaderContent.shelley 1 [0x81, 0x82, 0x01, 0x14]).slot = .ok 20 := by rfl
  refine ⟨.shelley 1 [0x81, 0x82, 0x01, 0x14], by rfl, ?_⟩
  rw [HeaderContent.point, slot]
  rfl

def exchanged (c : Conversation) : Conversation :=
  [Step.send .client, .deliver .server, .send .server, .deliver .client].foldl
    (step .written .headers 4) c

theorem reachable_exchanged (reachable : Reachable .written .headers 4 c) :
    Reachable .written .headers 4 c.exchanged :=
  (((reachable.step (.send .client) trivial).step (.deliver .server) trivial).step
    (.send .server) trivial).step (.deliver .client) trivial

/-- A client finds the origin of a chain of one block, is rolled back to it and is then
given the block. -/
def followedOneBlock : Conversation :=
  (step .written .headers 4 ⟨.new [.origin], .new .headers 4, [], [], .inMemory, []⟩
    (.append oneBlock)).exchanged.exchanged.exchanged

/-- Both sides agree on the position when nothing is under way. Every update leads on from
the point given last or back to a point of the chain, and an intersection is followed by a
roll back. -/
theorem position_agreed (reachable : Reachable carriage flavor window c) :
    (c.toServer = [] → c.toClient = [] → c.server.replies = [] →
      c.client.cursor = none ∨ c.client.cursor = c.server.lastSent) ∧
    (∀ e ∈ c.computed, ∀ content t, e.reply = .rollForward content t →
      ∃ p b, e.last = some p ∧ Holds e.blocks p ∧ Follows e.blocks p b ∧
        b.content flavor = .ok content ∧ content.point = .ok b.point) ∧
    (∀ e ∈ c.computed, ∀ p t, e.reply = .rollBackward p t → Holds e.blocks p) ∧
    RollsBackFirst (c.computed.map (·.reply)) := by
  have inv := inPosition_of_reachable reachable
  refine ⟨fun _ arrived said => ?_, fun e member content t same => ?_,
    fun e member p t same => ?_, inv.first⟩
  · have course := inv.course
    rw [arrived, said] at course
    exact course
  · exact (inv.justified e member).forward same
  · exact (inv.justified e member).backward same

theorem position_agreed_oneBlock :
    Reachable .written .headers 4 followedOneBlock ∧
      followedOneBlock.computed.map (·.reply) = [.intersectFound .origin oneBlock.tip,
        .rollBackward .origin oneBlock.tip,
        .rollForward (.shelley 1 [0x81, 0x82, 0x01, 0x14]) oneBlock.tip] ∧
      followedOneBlock.client.cursor = some oneBlock.point ∧
      (followedOneBlock.client.cursor = none ∨
        followedOneBlock.client.cursor = followedOneBlock.server.lastSent) := by
  have start : Reachable .written .headers 4
      ⟨.new [.origin], .new .headers 4, [], [], .inMemory, []⟩ := .start rfl rfl rfl (.inl rfl)
  have grown := start.step (.append oneBlock) ⟨serves_oneBlock, nofun⟩
  have reached : Reachable .written .headers 4 followedOneBlock :=
    reachable_exchanged (reachable_exchanged (reachable_exchanged grown))
  refine ⟨reached, by decide +kernel, by decide +kernel, ?_⟩
  exact (position_agreed reached).1 (by decide +kernel) (by decide +kernel) (by decide +kernel)

end Conversation
end ChainRelay.ChainSync
