import ChainRelay.Proofs.ChainSync.Position
import ChainRelay.Proofs.ChainSync.Replies

/-! When a client has nothing to ask. It drops its candidates only on the answer that none of
them is on the chain, so a client that is left without a message to send is one whose last
search has failed. A reorganisation can bring that about, because a roll back and a reset
leave one candidate. -/
namespace ChainRelay

def ChainStore.HasBlock (s : ChainStore) : Prop := ∃ t, s.tip = .ok (some t)

instance (s : ChainStore) : Decidable s.HasBlock :=
  match top : s.tip with
  | .ok (some t) => .isTrue ⟨t, top⟩
  | .ok none => .isFalse fun ⟨_, same⟩ => by cases top.symm.trans same
  | .error _ => .isFalse fun ⟨_, same⟩ => by cases top.symm.trans same

namespace ChainSync

def Message.Answerable (s : ChainStore) : Message → Prop
  | .findIntersect points => ∀ p ∈ points, (s.hasPoint p).isOk
  | _ => True

instance (s : ChainStore) (m : Message) : Decidable (m.Answerable s) :=
  match m with
  | .findIntersect points => inferInstanceAs (Decidable (∀ p ∈ points, (s.hasPoint p).isOk))
  | .requestNext | .awaitReply | .rollForward _ _ | .rollBackward _ _ | .intersectFound _ _
  | .intersectNotFound _ | .done => .isTrue trivial

structure Search where
  points : List Point
  store : ChainStore

def Search.Fails (s : Search) : Prop :=
  ∀ p ∈ s.points, p.isOrigin = false ∧ s.store.hasPoint p = .ok false

namespace Server

/-! ### What the server says -/

section
variable {σ : Type} (chain : ChainSource σ)

theorem meets_of_updates {m : Message} (updates : m.updates = true) : m.meets = false := by
  cases m with
  | rollForward _ _ | rollBackward _ _ => rfl
  | _ => cases updates

theorem meets_findIntersect (points : List Point) (s : Server) (w : σ) :
    (findIntersect chain points s w).1.meets = true := by
  unfold findIntersect
  split <;> rfl

theorem notifyNewBlock_says (s : Server) (w : σ) :
    (notifyNewBlock chain s w).1.state = s.state ∧
      ∃ said : Option Message, (∀ m ∈ said, m.meets = false) ∧
        (notifyNewBlock chain s w).1.replies = s.replies ++ said.toList := by
  obtain ⟨sent, owesRollback, same | ⟨-, -, update, updates, same⟩⟩ := notifyNewBlock_eq chain s w
  · rw [same]
    exact ⟨rfl, none, nofun, (List.append_nil _).symm⟩
  · rw [same]
    refine ⟨rfl, some update, ?_, rfl⟩
    rintro m ⟨⟩
    exact meets_of_updates updates

theorem received_findIntersect (points : List Point) (s : Server) (w : σ) :
    (received chain (.findIntersect points) s w).1.state = s.state ∧
      (received chain (.findIntersect points) s w).1.replies =
        s.replies ++ [(findIntersect chain points s w).1] := by
  obtain ⟨sent, owesRollback, tipWaiting, frame⟩ := findIntersect_frame chain points s w
  simp only [received, enqueue, frame, and_self]

theorem received_says {m : Message} (other : ∀ points, m ≠ .findIntersect points) (s : Server)
    (w : σ) :
    (received chain m s w).1.state = s.state ∧
      ∃ said : Option Message, (∀ m ∈ said, m.meets = false) ∧
        (received chain m s w).1.replies = s.replies ++ said.toList := by
  cases m with
  | findIntersect points => exact absurd rfl (other points)
  | requestNext =>
    obtain ⟨reply, sent, owesRollback, tipWaiting, same, answer⟩ :=
      received_requestNext_eq chain s w
    rw [same]
    refine ⟨rfl, some reply, ?_, rfl⟩
    rintro m ⟨⟩
    rcases answer with rfl | ⟨updates, -⟩
    · rfl
    · exact meets_of_updates updates
  | _ =>
    refine ⟨rfl, none, fun m said => ?_, (List.append_nil _).symm⟩
    exact absurd said (Option.not_mem_none m)

end

theorem contains_of_hasBlock {s : ChainStore} (live : s.HasBlock) (p : Point) :
    (contains ChainStore.source p).run s =
      if p.isOrigin then (.ok true, s) else (s.hasPoint p, s) := by
  obtain ⟨t, top⟩ := live
  unfold contains
  split
  · have told : ChainStore.source.tip.run s = (.ok (some t), s) := congrArg (·, s) top
    rw [Lookup.run_bind, told]
    rfl
  · rfl

theorem fails_of_firstContained {s : ChainStore} (live : s.HasBlock) {points : List Point}
    (answers : ∀ p ∈ points, (s.hasPoint p).isOk)
    (missed : (firstContained ChainStore.source points s).1 = none) :
    (⟨points, s⟩ : Search).Fails := by
  induction points with
  | nil => exact nofun
  | cons p points ih =>
    obtain ⟨r, answer⟩ : ∃ r, s.hasPoint p = .ok r := by
      have answered := answers p List.mem_cons_self
      cases answer : s.hasPoint p with
      | ok r => exact ⟨r, rfl⟩
      | error e =>
        rw [answer] at answered
        cases answered
    rw [firstContained, contains_of_hasBlock live, answer] at missed
    cases start : p.isOrigin with
    | true =>
      rw [start] at missed
      cases missed
    | false =>
      rw [start] at missed
      cases r with
      | true => cases missed
      | false =>
        intro q member
        rcases List.mem_cons.mp member with rfl | later
        · exact ⟨start, answer⟩
        · exact ih (fun q there => answers q (List.mem_cons_of_mem p there)) missed q later

theorem fails_of_findIntersect {s : ChainStore} (live : s.HasBlock) {points : List Point}
    (answers : ∀ p ∈ points, (s.hasPoint p).isOk) {server : Server} {t : Tip}
    (told : (findIntersect ChainStore.source points server s).1 = .intersectNotFound t) :
    (⟨points, s⟩ : Search).Fails := by
  unfold findIntersect at told
  split at told
  · cases told
  · rename_i missed
    exact fails_of_firstContained live answers (congrArg Prod.fst missed)

end Server

namespace Client

/-! ### What the client makes of it -/

theorem doneRequested_received (m : Message) (c : Client) :
    (c.received m).doneRequested = c.doneRequested := by
  cases m with
  | rollForward header tip =>
    simp only [received, forward, report]
    cases header.point <;> rfl
  | rollBackward p tip =>
    simp only [received, backward, report]
    by_cases same : c.cursor = some p
    · rw [if_pos same]
    · rw [if_neg same]
  | intersectFound p tip =>
    simp only [received, found, report]
    cases c.followTip <;> rfl
  | _ => rfl

theorem cursor_received {c : Client} (placed : c.intersected = true → c.cursor ≠ none) (m : Message)
    (met : (c.received m).intersected = true) : (c.received m).cursor ≠ none := by
  cases m with
  | rollForward header tip =>
    simp only [received, forward, report] at met ⊢
    cases told : header.point with
    | ok p => exact Option.some_ne_none p
    | error e =>
      rw [told] at met
      exact placed met
  | rollBackward p tip =>
    simp only [received, backward, report] at met ⊢
    by_cases same : c.cursor = some p
    · rw [if_pos same] at met ⊢
      exact placed met
    · rw [if_neg same]
      exact Option.some_ne_none p
  | intersectFound p tip =>
    simp only [received, found, report] at met ⊢
    cases follow : c.followTip with
    | true =>
      rw [follow] at met
      exact placed met
    | false => exact Option.some_ne_none p
  | _ => exact placed met

theorem candidates_received {c : Client} {m : Message} (unmet : (c.received m).intersected = false)
    (blank : (c.received m).candidates = []) :
    (c.intersected = false ∧ c.candidates = []) ∨ ∃ t, m = .intersectNotFound t := by
  cases m with
  | rollForward header tip =>
    simp only [received, forward, report] at unmet blank
    cases told : header.point with
    | ok p | error e =>
      rw [told] at unmet blank
      exact .inl ⟨unmet, blank⟩
  | rollBackward p tip =>
    simp only [received, backward, report] at unmet blank
    by_cases same : c.cursor = some p
    · rw [if_pos same] at unmet blank
      exact .inl ⟨unmet, blank⟩
    · rw [if_neg same] at blank
      cases blank
  | intersectFound p tip =>
    simp only [received, found, report] at unmet blank
    cases follow : c.followTip with
    | true =>
      rw [follow] at blank
      cases blank
    | false =>
      rw [follow] at unmet
      cases unmet
  | intersectNotFound tip => exact .inr ⟨tip, rfl⟩
  | _ => exact .inl ⟨unmet, blank⟩

end Client

namespace Conversation

def search (carriage : Carriage) (c : Conversation) (last : Option Search) : Step → Option Search
  | .deliver .server =>
    match c.toServer.head?.map carriage.pass with
    | some (.findIntersect points) => some ⟨points, c.store⟩
    | _ => last
  | _ => last

/-- The client is left to itself, and the chain answers what a search asks of it. -/
def Undisturbed (carriage : Carriage) (c : Conversation) : Step → Prop
  | .resetTo _ | .setCandidates _ => False
  | .deliver .server => ∀ m ∈ c.toServer.head?, (carriage.pass m).Answerable c.store
  | _ => True

instance (carriage : Carriage) (c : Conversation) (s : Step) :
    Decidable (c.Undisturbed carriage s) :=
  match s with
  | .resetTo _ | .setCandidates _ => .isFalse id
  | .deliver .server =>
    inferInstanceAs (Decidable (∀ m ∈ c.toServer.head?, (carriage.pass m).Answerable c.store))
  | .append _ | .rollback _ | .notify | .send _ | .deliver .client | .reconnect => .isTrue trivial

/-- What steps in any order lead to, and the search that came to a server last. The client
begins with the origin among its candidates, and the chain always has a block. -/
inductive Following (carriage : Carriage) (flavor : Flavor) (window : Nat) :
    Conversation → Option Search → Prop
  | start {client : Client} {store : ChainStore} (idle : client.state = .idle)
      (cursor : client.cursor = none) (unmet : client.intersected = false)
      (going : client.doneRequested = false) (origin : .origin ∈ client.candidates)
      (live : store.HasBlock) :
      Following carriage flavor window ⟨client, .new flavor window, [], [], store, []⟩ none
  | step {c : Conversation} {last : Option Search} (s : Step)
      (before : Following carriage flavor window c last) (calm : c.Undisturbed carriage s)
      (live : (c.step carriage flavor window s).store.HasBlock) :
      Following carriage flavor window (c.step carriage flavor window s) (c.search carriage last s)

def Failed (last : Option Search) : Prop := ∃ s, last = some s ∧ s.Fails

structure Tracks (carriage : Carriage) (c : Conversation) (last : Option Search) : Prop where
  aligned : protocol.Aligned (fun m n => carriage.pass m = n) .client c.client.state c.server.state
    c.toServer c.toClient
  pending : c.server.replies.countP Message.meets = if c.server.state = .intersect then 1 else 0
  refused : ∀ m ∈ c.toClient ++ c.server.replies, ∀ t, carriage.pass m = .intersectNotFound t →
    Failed last
  going : c.client.doneRequested = false
  placed : c.client.intersected = true → c.client.cursor ≠ none
  lost : c.client.intersected = false → c.client.candidates = [] →
    c.client.state = .idle ∧ c.toServer = [] ∧ Failed last

variable {carriage : Carriage} {flavor : Flavor} {window : Nat} {c : Conversation}
  {last : Option Search}

theorem exists_eq_notFound {m : Message} {t : Tip} (passed : carriage.pass m = .intersectNotFound t) :
    ∃ t, m = .intersectNotFound t := by
  cases carriage <;> cases m <;> first | exact ⟨_, rfl⟩ | cases passed

theorem meets_of_move {s next : State} {m : Message} (turn : Role.server.holds s.agency = true)
    (moved : s.move m = some next) :
    (m.meets = true ↔ s = .intersect) ∧ next ≠ .intersect := by
  cases s with
  | idle | done => cases turn
  | intersect => cases m <;> cases moved <;> exact ⟨⟨fun _ => rfl, fun _ => rfl⟩, nofun⟩
  | canAwait => cases m <;> cases moved <;> exact ⟨⟨nofun, nofun⟩, nofun⟩
  | mustReply => cases m <;> cases moved <;> exact ⟨⟨nofun, nofun⟩, nofun⟩

theorem ne_intersect_of_move {m : Message} {next : State}
    (other : ∀ points, m ≠ .findIntersect points) (moved : State.idle.move m = some next) :
    next ≠ .intersect := by
  cases m with
  | findIntersect points => exact absurd rfl (other points)
  | requestNext | done =>
    cases moved
    decide
  | _ => cases moved

theorem Tracks.candidates_ne (inv : Tracks carriage c last) {m : Message} {rest : List Message}
    (under : c.toServer = m :: rest) (unmet : c.client.intersected = false) :
    c.client.candidates ≠ [] := by
  intro blank
  have away := (inv.lost unmet blank).2.1
  rw [under] at away
  cases away

theorem tracks_fresh {client : Client} {store : ChainStore} (idle : client.state = .idle)
    (going : client.doneRequested = false) (unmet : client.intersected = false)
    (lost : client.candidates = [] → Failed last) :
    Tracks carriage ⟨client, .new flavor window, [], [], store, []⟩ last where
  aligned := .inl ⟨rfl, idle.symm⟩
  pending := rfl
  refused := nofun
  going := going
  placed met := by
    rw [unmet] at met
    cases met
  lost _ none := ⟨idle, rfl, lost none⟩

theorem Tracks.speaks (inv : Tracks carriage c last) {s' : Server} {said : Option Message}
    (state : s'.state = c.server.state) (quiet : ∀ m ∈ said, m.meets = false)
    (replies : s'.replies = c.server.replies ++ said.toList) (store : ChainStore) :
    Tracks carriage (c.served (s', store)) last := by
  have none : said.toList.countP Message.meets = 0 := by
    rw [List.countP_eq_zero]
    intro m member
    rw [quiet m (Option.mem_toList.mp member)]
    exact nofun
  have aligned := inv.aligned
  rw [← state] at aligned
  refine { inv with aligned, pending := ?pending, refused := ?refused }
  case pending =>
    change s'.replies.countP _ = if s'.state = _ then _ else _
    rw [replies, state, List.countP_append, none]
    exact inv.pending
  case refused =>
    intro m member t passed
    change m ∈ c.toClient ++ s'.replies at member
    rw [replies, ← List.append_assoc] at member
    rcases List.mem_append.mp member with old | new
    · exact inv.refused m old t passed
    · obtain ⟨t', rfl⟩ := exists_eq_notFound passed
      cases quiet _ (Option.mem_toList.mp new)

theorem Tracks.searched (inv : Tracks carriage c last) {rest : List Message} {s' : Server}
    {reply : Message} {last' : Option Search} (silent : c.toClient = [])
    (none : c.server.replies.countP Message.meets = 0)
    (found : c.client.intersected = false → c.client.candidates ≠ [])
    (state : s'.state = .intersect) (replies : s'.replies = c.server.replies ++ [reply])
    (answer : reply.meets = true)
    (aligned : protocol.Aligned (fun m n => carriage.pass m = n) .client c.client.state .intersect
      rest c.toClient)
    (failed : ∀ t, reply = .intersectNotFound t → Failed last') (store : ChainStore) :
    Tracks carriage ({ c with toServer := rest }.served (s', store)) last' := by
  rw [← state] at aligned
  refine { inv with
    aligned, pending := ?pending, refused := ?refused
    lost := fun unmet blank => absurd blank (found unmet) }
  case pending =>
    change s'.replies.countP _ = if s'.state = _ then 1 else 0
    rw [replies, if_pos state, List.countP_append, none, List.countP_singleton, if_pos answer]
  case refused =>
    intro m member t passed
    change m ∈ c.toClient ++ s'.replies at member
    rw [silent, replies, List.nil_append] at member
    obtain ⟨t', rfl⟩ := exists_eq_notFound passed
    rcases List.mem_append.mp member with old | new
    · exact absurd rfl (List.countP_eq_zero.mp none _ old)
    · exact failed t' (List.mem_singleton.mp new).symm

theorem Tracks.sendClient (inv : Tracks carriage c last) {m : Message} {next : State}
    (ready : (Client.kind ChainStore).ready c.client = some (m, next)) :
    Tracks carriage
      { c with
        client := (Client.kind ChainStore).commit m next c.client
        toServer := c.toServer ++ [m] } last := by
  obtain ⟨holds, made, moved⟩ := AgentKind.ready_eq_some.mp ready
  have sent : protocol.Carries (fun m n => carriage.pass m = n) .client c.client.state [m] next :=
    carries_one carriage holds moved
  refine { inv with aligned := inv.aligned.send sent, lost := fun unmet none => ?lost }
  -- a client that is lost has nothing to send
  have silent : c.client.produce = .none := by
    unfold Client.produce
    rw [inv.going, show c.client.intersected = false from unmet,
      show c.client.candidates = [] from none]
    rfl
  cases silent.symm.trans made

theorem Tracks.sendServer (inv : Tracks carriage c last) {m : Message} {next : State}
    (ready : (Server.kind ChainStore.source).ready c.server = some (m, next)) :
    Tracks carriage
      { c with
        server := (Server.kind ChainStore.source).commit m next c.server
        toClient := c.toClient ++ [m] } last := by
  obtain ⟨holds, made, moved⟩ := AgentKind.ready_eq_some.mp ready
  have sent : protocol.Carries (fun m n => carriage.pass m = n) .server c.server.state [m] next :=
    carries_one carriage holds moved
  obtain ⟨first, head, rest⟩ := Option.bind_eq_some_iff.mp made
  obtain ⟨_, -, same⟩ := Option.bind_eq_some_iff.mp rest
  cases same
  obtain ⟨later, replies⟩ := List.head?_eq_some_iff.mp head
  have along : c.toClient ++ [m] ++ c.server.replies.tail = c.toClient ++ c.server.replies := by
    simp [replies]
  have refused := inv.refused
  rw [← along] at refused
  refine { inv with
    aligned := (inv.aligned.symm.send sent).symm, refused, pending := ?pending }
  change c.server.replies.tail.countP _ = if next = .intersect then 1 else 0
  obtain ⟨answers, leaves⟩ := meets_of_move holds moved
  have count := inv.pending
  rw [replies, List.countP_cons] at count
  rw [replies, List.tail_cons, if_neg leaves]
  by_cases searching : c.server.state = .intersect
  · rw [if_pos searching, if_pos (answers.mpr searching)] at count
    exact Nat.succ.inj count
  · rw [if_neg searching] at count
    exact Nat.eq_zero_of_add_eq_zero_right count

theorem Tracks.deliverServer (inv : Tracks carriage c last) (live : c.store.HasBlock)
    (calm : c.Undisturbed carriage (.deliver .server)) {m : Message} {rest : List Message}
    (under : c.toServer = m :: rest) :
    ∃ called, (Server.kind ChainStore.source).consume (carriage.pass m) c.server c.store =
      .ok called ∧ Tracks carriage ({ c with toServer := rest }.served called)
        (c.search carriage last (.deliver .server)) := by
  have turned := inv.aligned.symm
  rw [under] at turned
  have silent := turned.out_eq_nil
  obtain ⟨n, next, holds, arrived, moved, later⟩ := turned.receive
  have head : c.toServer.head?.map carriage.pass = some n := by
    rw [under, ← arrived]
    rfl
  have idle : c.server.state = .idle := by
    cases state : c.server.state with
    | idle => rfl
    | _ =>
      rw [state] at holds
      cases holds
  have none := inv.pending
  rw [idle, if_neg nofun] at none
  have found := inv.candidates_ne under
  have taken := AgentKind.consume_of_moves (k := Server.kind ChainStore.source) rfl holds moved
    c.store
  rw [arrived, search, head]
  refine ⟨_, taken, ?_⟩
  by_cases searches : ∃ points, n = .findIntersect points
  · obtain ⟨points, rfl⟩ := searches
    obtain ⟨state, replies⟩ := Server.received_findIntersect ChainStore.source points
      { c.server with state := next } c.store
    obtain rfl : next = .intersect := by
      rw [idle] at moved
      cases moved
      rfl
    have answer := Server.meets_findIntersect ChainStore.source points
      { c.server with state := .intersect } c.store
    have answers : Message.Answerable c.store (.findIntersect points) := by
      rw [← arrived]
      exact calm m (by rw [under]; rfl)
    refine inv.searched silent none found state replies answer later.symm (fun t told => ?_) _
    exact ⟨_, rfl, Server.fails_of_findIntersect live answers told⟩
  · have other : ∀ points, n ≠ .findIntersect points := fun points same => searches ⟨points, same⟩
    have leaves := ne_intersect_of_move other (idle ▸ moved)
    have moving : Tracks carriage
        { c with server := { c.server with state := next }, toServer := rest } last :=
      { inv with
        aligned := later.symm
        pending := none.trans (if_neg leaves).symm
        lost := fun unmet blank => absurd blank (found unmet) }
    obtain ⟨state, said, quiet, replies⟩ := Server.received_says ChainStore.source other
      { c.server with state := next } c.store
    have kept := moving.speaks state quiet replies
      (Server.received ChainStore.source n { c.server with state := next } c.store).2
    cases n with
    | findIntersect points => exact absurd rfl (other points)
    | _ => exact kept

theorem Tracks.deliverClient (inv : Tracks carriage c last) {m : Message} {rest : List Message}
    (under : c.toClient = m :: rest) :
    ∃ client, (Client.kind ChainStore).consume (carriage.pass m) c.client c.store =
      .ok (client, c.store) ∧ Tracks carriage { c with client, toClient := rest } last := by
  have aligned := inv.aligned
  have refused := inv.refused
  rw [under] at aligned refused
  have quiet := aligned.out_eq_nil
  obtain ⟨n, next, holds, arrived, moved, later⟩ := aligned.receive
  have taken := AgentKind.consume_of_moves (k := Client.kind ChainStore) rfl holds moved c.store
  rw [arrived]
  refine ⟨_, taken, ?_⟩
  have state := (Client.received_frame n { c.client with state := next }).1
  refine { inv with
    aligned := ?aligned
    refused := fun m' member => refused m' (List.mem_cons_of_mem m member)
    going := (Client.doneRequested_received n { c.client with state := next }).trans inv.going
    placed := Client.cursor_received (c := { c.client with state := next }) inv.placed n
    lost := fun unmet blank => ?lost }
  case aligned =>
    change protocol.Aligned _ _ (Client.received n { c.client with state := next }).state _ _ _
    rw [state]
    exact later
  case lost =>
    rcases Client.candidates_received (c := { c.client with state := next }) unmet blank with
      ⟨before, none⟩ | ⟨t, rfl⟩
    · -- a client that was lost waits for nothing
      rw [(inv.lost before none).1] at holds
      cases holds
    · refine ⟨state.trans ?_, quiet, refused m List.mem_cons_self t arrived⟩
      change c.client.state.move (.intersectNotFound t) = some next at moved
      cases before : c.client.state <;> rw [before] at moved <;> cases moved
      rfl

theorem tracks_step (inv : Tracks carriage c last) (live : c.store.HasBlock) (s : Step)
    (calm : c.Undisturbed carriage s) :
    Tracks carriage (c.step carriage flavor window s) (c.search carriage last s) := by
  cases s with
  | append b =>
    simp only [step]
    split
    · exact { inv with }
    · exact inv
  | rollback p =>
    simp only [step]
    split
    · exact { inv with }
    · exact inv
  | notify =>
    obtain ⟨state, said, quiet, replies⟩ :=
      Server.notifyNewBlock_says ChainStore.source c.server c.store
    exact inv.speaks state quiet replies _
  | resetTo p => exact calm.elim
  | setCandidates points => exact calm.elim
  | send side =>
    cases side with
    | client =>
      simp only [step, AgentKind.takeNext]
      cases ready : (Client.kind ChainStore).ready c.client with
      | none => exact inv
      | some made => exact inv.sendClient ready
    | server =>
      simp only [step, AgentKind.takeNext]
      cases ready : (Server.kind ChainStore.source).ready c.server with
      | none => exact inv
      | some made => exact inv.sendServer ready
  | deliver side =>
    cases side with
    | client =>
      cases under : c.toClient with
      | nil => simpa only [step, search, under] using inv
      | cons m rest =>
        obtain ⟨client, taken, kept⟩ := inv.deliverClient under
        simpa only [step, search, under, taken] using kept
    | server =>
      cases under : c.toServer with
      | nil => simpa only [step, search, under, List.head?_nil, Option.map_none] using inv
      | cons m rest =>
        obtain ⟨called, taken, kept⟩ := inv.deliverServer live calm under
        simpa only [step, under, taken] using kept
  | reconnect =>
    refine tracks_fresh rfl rfl rfl fun blank => ?_
    cases cursor : c.client.cursor with
    | some p =>
      simp only [Client.reset, cursor] at blank
      cases blank
    | none =>
      simp only [Client.reset, cursor] at blank
      have unmet : c.client.intersected = false :=
        Bool.eq_false_iff.mpr fun met => inv.placed met cursor
      exact (inv.lost unmet blank).2.2

theorem Following.live (following : Following carriage flavor window c last) :
    c.store.HasBlock := by
  cases following with
  | start _ _ _ _ _ live => exact live
  | step _ _ _ live => exact live

theorem tracks_of_following (following : Following carriage flavor window c last) :
    Tracks carriage c last := by
  induction following with
  | start idle cursor unmet going origin live =>
    refine tracks_fresh idle going unmet fun blank => ?_
    rw [blank] at origin
    cases origin
  | step s before calm live ih => exact tracks_step ih before.live s calm

/-- A client that follows a chain has something to ask, a search of some points or the next
update, unless the last search that came to a server named neither the origin nor a point
that was on the chain. -/
theorem produces_unless_failed (following : Following carriage flavor window c last) :
    (∃ points, points ≠ [] ∧ c.client.produce = some (.findIntersect points)) ∨
      c.client.produce = some .requestNext ∨ Failed last := by
  have inv := tracks_of_following following
  have going := inv.going
  cases met : c.client.intersected with
  | true =>
    refine .inr (.inl ?_)
    unfold Client.produce
    rw [going, met]
    rfl
  | false =>
    cases candidates : c.client.candidates with
    | nil => exact .inr (.inr (inv.lost met candidates).2.2)
    | cons p points =>
      refine .inl ⟨p :: points, nofun, ?_⟩
      unfold Client.produce
      rw [going, met, candidates]
      rfl

/-! ### A fork while the client is away -/

def Allowed (carriage : Carriage) (flavor : Flavor) (window : Nat) : List Step → Conversation → Prop
  | [], _ => True
  | s :: later, c => c.Undisturbed carriage s ∧ (c.step carriage flavor window s).store.HasBlock ∧
      Allowed carriage flavor window later (c.step carriage flavor window s)

instance decidableAllowed (carriage : Carriage) (flavor : Flavor) (window : Nat) :
    (script : List Step) → (c : Conversation) → Decidable (Allowed carriage flavor window script c)
  | [], _ => .isTrue trivial
  | s :: later, c =>
    have := decidableAllowed carriage flavor window later (c.step carriage flavor window s)
    inferInstanceAs (Decidable (_ ∧ _ ∧ _))

def follow (carriage : Carriage) (flavor : Flavor) (window : Nat) :
    List Step → Conversation → Option Search → Conversation × Option Search
  | [], c, last => (c, last)
  | s :: later, c, last =>
    follow carriage flavor window later (c.step carriage flavor window s) (c.search carriage last s)

theorem Following.follow (following : Following carriage flavor window c last) {script : List Step}
    (allowed : Allowed carriage flavor window script c) :
    Following carriage flavor window (follow carriage flavor window script c last).1
      (Conversation.follow carriage flavor window script c last).2 := by
  induction script generalizing c last with
  | nil => exact following
  | cons s later ih =>
    obtain ⟨calm, live, allowed⟩ := allowed
    exact ih (following.step s calm live) allowed

def secondBlock : StoredBlock where
  point := ⟨30, some (.digest [0x81, 0x82, 0x02, 0x18, 0x1E])⟩
  blockNumber := 2
  header := [0x82, 0x01, 0xD8, 0x18, 0x45, 0x81, 0x82, 0x02, 0x18, 0x1E]
  body := []

def rivalBlock : StoredBlock where
  point := ⟨31, some (.digest [0x81, 0x82, 0x02, 0x18, 0x1F])⟩
  blockNumber := 2
  header := [0x82, 0x01, 0xD8, 0x18, 0x45, 0x81, 0x82, 0x02, 0x18, 0x1F]
  body := []

def beforeFork : Conversation :=
  ⟨.new [secondBlock.point, .origin], .new .headers 4, [], [],
    (ChainStore.inMemory.appendAll [oneBlock, secondBlock]).2, []⟩

/-- The client finds the second block, which gives way to a rival. The connection breaks, and
the client looks for the block again. -/
def forkScript : List Step :=
  [.send .client, .deliver .server, .send .server, .deliver .client,
    .rollback oneBlock.point, .append rivalBlock, .notify, .reconnect,
    .send .client, .deliver .server, .send .server, .deliver .client]

def afterFork : Conversation × Option Search :=
  follow .written .headers 4 forkScript beforeFork none

theorem following_afterFork : Following .written .headers 4 afterFork.1 afterFork.2 := by
  have begun : Following .written .headers 4 beforeFork none :=
    .start rfl rfl rfl rfl (by decide) (by decide +kernel)
  exact begun.follow (by decide +kernel)

theorem afterFork_lost :
    afterFork.2.map (·.points) = some [secondBlock.point] ∧
      (Client.kind ChainStore).hasAgency afterFork.1.client = true ∧
        afterFork.1.client.produce = none := by
  decide +kernel

theorem produces_unless_failed_afterFork :
    afterFork.2.map (·.points) = some [secondBlock.point] ∧
      Following .written .headers 4 afterFork.1 afterFork.2 ∧
      ((∃ points, points ≠ [] ∧ afterFork.1.client.produce = some (.findIntersect points)) ∨
        afterFork.1.client.produce = some .requestNext ∨ Failed afterFork.2) :=
  ⟨afterFork_lost.1, following_afterFork, produces_unless_failed following_afterFork⟩

/-- A reorganisation leaves a client with nothing to ask, though it is its turn. -/
theorem afterFork_stalls :
    ¬ ∀ carriage flavor window c last, Following carriage flavor window c last →
      (Client.kind ChainStore).hasAgency c.client = true → c.client.produce ≠ none := by
  intro always
  obtain ⟨-, turn, stalled⟩ := afterFork_lost
  exact always _ _ _ _ _ following_afterFork turn stalled

end Conversation
end ChainSync
end ChainRelay
