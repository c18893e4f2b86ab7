import ChainRelay.Proofs.Chain.Store
import ChainRelay.Proofs.ChainSync.Course
import ChainRelay.Proofs.ChainSync.Dialogue

/-! A whole synchronisation. While a chain stays as it is, each question is answered by the
one message that is due, so a client gets every block after the point where it starts, in
order, and then waits at the tip. -/
namespace ChainRelay
open Cbor (bind_eq_ok)

namespace StoredBlock

def MadeFrom (h : HeaderContent) (b : StoredBlock) : Prop :=
  h.Fits ∧ ofHeader h b.blockNumber b.body = .ok b

variable {h : HeaderContent} {b : StoredBlock}

theorem MadeFrom.point_eq (made : b.MadeFrom h) : h.point = .ok b.point := by
  obtain ⟨p, point, rest⟩ := bind_eq_ok.mp made.2
  obtain ⟨header, -, same⟩ := bind_eq_ok.mp rest
  rw [← Except.ok.inj same]
  exact point

theorem MadeFrom.content_eq (made : b.MadeFrom h) : b.content .headers = .ok h := by
  obtain ⟨p, -, rest⟩ := bind_eq_ok.mp made.2
  obtain ⟨header, written, same⟩ := bind_eq_ok.mp rest
  rw [← Except.ok.inj same]
  exact HeaderContent.decode_encode made.1 written

theorem MadeFrom.serves (made : b.MadeFrom h) : b.Serves .headers :=
  ⟨h, made.content_eq, made.point_eq⟩

end StoredBlock

namespace ChainSync
open Blocks (Holds reach)

variable {σ : Type} {chain : ChainSource σ} {known : Point → Prop} {w : σ}
  {blocks : List StoredBlock} {last : StoredBlock} {p : Point}

/-! ### The answers that are due -/

namespace Server

section
variable (right : chain.Answers known w blocks) (top : blocks.getLast? = some last)
include right top

theorem tip_eq : tip chain w = (last.tip, w) := by
  rw [tip, right.tip, top]
  rfl

theorem contains_of_holds (held : Holds blocks p) :
    (contains chain p).run w = (.ok true, w) := by
  unfold contains
  split
  · rw [Lookup.run_bind, right.tip, top]
    rfl
  · rename_i later
    rcases held with rfl | ⟨b, member, rfl⟩
    · exact absurd rfl later
    · exact right.hasPoint_of_mem b member

variable {s : Server}

theorem received_findIntersect_of_holds (held : Holds blocks p) :
    received chain (.findIntersect [p]) s w =
      ({ s with
          sent := [p], owesRollback := true, tipWaiting := false
          replies := s.replies ++ [.intersectFound p last.tip] }, w) := by
  simp only [received, findIntersect, firstContained, contains_of_holds right top held,
    tip_eq right top, enqueue]

omit top in
theorem onChain_of_holds (held : Holds blocks p) : (onChain chain p).run w = (.ok true, w) := by
  have given : p = .origin ∨ known p := by
    rcases held with rfl | ⟨b, member, rfl⟩
    · exact .inl rfl
    · exact .inr (right.known_of_mem b member)
  rcases onChain_run right given with ⟨-, ran⟩ | ⟨off, -⟩
  · exact ran
  · exact absurd held off

theorem received_requestNext_back (reached : s.lastSent = some p) (held : Holds blocks p)
    (owes : s.owesRollback = true) :
    received chain .requestNext s w =
      ({ s with
          owesRollback := false, replies := s.replies ++ [.rollBackward p last.tip] }, w) := by
  simp only [received, requestNext, nextUpdate, reached, onChain_of_holds right held, owes,
    tip_eq right top, enqueue, Option.isNone_some, Bool.false_eq_true, if_false, if_true]

theorem received_requestNext_forward {front back : List StoredBlock} {b : StoredBlock}
    {h : HeaderContent} (cut : blocks = front ++ b :: back)
    (reached : s.lastSent = some (reach front)) (owes : s.owesRollback = false)
    (read : b.content s.flavor = .ok h) :
    received chain .requestNext s w =
      ({ s.record b.point with replies := s.replies ++ [.rollForward h last.tip] }, w) := by
  have held : Holds blocks (reach front) := cut ▸ Blocks.holds_reach front (b :: back)
  have next : (following chain s.flavor (reach front)).run w = (.ok (some (b.point, h)), w) := by
    have member : b ∈ blocks := by simp [cut]
    rw [following, Lookup.run_bind, right.nextAfter front (b :: back) cut]
    simp only [List.head?_cons, Option.map_some, Lookup.run_bind, contentAt_run right member read]
    rfl
  simp only [received, requestNext, nextUpdate, reached, onChain_of_holds right held, owes, next,
    tip_eq right top, enqueue, record, Option.isNone_some, Bool.false_eq_true, if_false]

omit top in
theorem received_requestNext_await (reached : s.lastSent = some (reach blocks))
    (owes : s.owesRollback = false) :
    received chain .requestNext s w =
      ({ s with tipWaiting := true, replies := s.replies ++ [.awaitReply] }, w) := by
  have whole : blocks = blocks ++ [] := (List.append_nil blocks).symm
  have held : Holds blocks (reach blocks) := by
    have held := Blocks.holds_reach blocks []
    rwa [List.append_nil] at held
  have ends : (following chain s.flavor (reach blocks)).run w = (.ok none, w) := by
    rw [following, Lookup.run_bind, right.nextAfter blocks [] whole]
    rfl
  simp only [received, requestNext, nextUpdate, reached, onChain_of_holds right held, owes, ends,
    enqueue, Option.isNone_some, Bool.false_eq_true, if_false]

end

end Server

namespace Client

/-! ### Where they take the client -/

theorem received_rollForward {h : HeaderContent} (point : h.point = .ok p) (t : Tip) (c : Client) :
    c.received (.rollForward h t) =
      { c with
        peerTip := some t, cursor := some p
        listeners := c.listeners.notify (forwardEvent t h) } := by
  simp only [received, forward, point, report]

theorem received_rollBackward {c : Client} (there : c.cursor = some p) (t : Tip) :
    c.received (.rollBackward p t) =
      { c with peerTip := some t, listeners := c.listeners.notify (.rollBackward p t) } := by
  simp only [received, backward, there, if_true, report]

theorem received_intersectFound {c : Client} (known : c.followTip = false) (t : Tip) :
    c.received (.intersectFound p t) =
      { c with
        peerTip := some t, cursor := some p, intersected := true
        listeners := c.listeners.notify (.intersectFound p t) } := by
  simp only [received, found, report, known, Bool.false_eq_true, if_false]

end Client

/-! ### From one block to the next -/

namespace Dialogue

/-- A client that is at a point and whose turn it is, and the server that has brought it
there. -/
structure Abreast (client : Client) (server : Server) (p : Point) (owes : Bool) : Prop where
  idle : client.state = .idle
  going : client.doneRequested = false
  met : client.intersected = true
  cursor : client.cursor = some p
  listens : server.state = .idle
  silent : server.replies = []
  reached : server.lastSent = some p
  owes_eq : server.owesRollback = owes
  flavor : server.flavor = .headers
  wide : 1 ≤ server.window

namespace Abreast

variable {client : Client} {server : Server} {owes : Bool}

theorem round (abreast : Abreast client server p owes) {e : Dialogue σ} {server' : Server}
    {answer : Message} {next : State} {received : List Message}
    (heard : Server.received chain .requestNext { server with state := .canAwait } w = (server', w))
    (state : server'.state = .canAwait) (replies : server'.replies = server.replies ++ [answer])
    (told : answer.Whole) (answered : State.canAwait.move answer = some next)
    (later : Settles chain e ⟨({ client with state := next } : Client).received answer,
      { server' with state := next, replies := [] }, [], [], w, received ++ [answer]⟩) :
    Settles chain e ⟨client, server, [], [], w, received⟩ := by
  have made : client.produce = some .requestNext := by
    unfold Client.produce
    rw [abreast.going, abreast.met]
    rfl
  have only : server'.replies = [answer] := by
    rw [replies, abreast.silent, List.nil_append]
  exact settles_round abreast.idle made trivial rfl abreast.listens abreast.silent heard state only
    told answered later

theorem forward (abreast : Abreast client server p false) {h : HeaderContent} {b : StoredBlock}
    (point : h.point = .ok b.point) (t : Tip) (front : List StoredBlock) :
    Abreast (({ client with state := .idle } : Client).received (.rollForward h t))
      { ({ server with state := .canAwait } : Server).record b.point with
        state := .idle, replies := [] } (reach (front ++ [b])) false := by
  rw [Blocks.reach_concat, Client.received_rollForward point]
  exact {
    idle := rfl
    going := abreast.going
    met := abreast.met
    cursor := rfl
    listens := rfl
    silent := rfl
    reached := Server.record_getLast? (s := { server with state := .canAwait }) abreast.wide b.point
    owes_eq := abreast.owes_eq
    flavor := abreast.flavor
    wide := abreast.wide }

theorem backward (abreast : Abreast client server p true) (t : Tip) :
    Abreast (({ client with state := .idle } : Client).received (.rollBackward p t))
      { server with state := .idle, owesRollback := false, replies := [] } p false := by
  rw [Client.received_rollBackward (c := { client with state := .idle }) abreast.cursor]
  exact { abreast with idle := rfl, listens := rfl, silent := rfl, owes_eq := rfl }

end Abreast

theorem abreast_found (p : Point) (window : Nat) (t : Tip) :
    Abreast (({ Client.new [p] with state := .idle } : Client).received (.intersectFound p t))
      { Server.new .headers window with
        state := .idle, sent := [p], owesRollback := true, tipWaiting := false
        replies := [] } p true := by
  rw [Client.received_intersectFound rfl]
  exact {
    idle := rfl
    going := rfl
    met := rfl
    cursor := rfl
    listens := rfl
    silent := rfl
    reached := rfl
    owes_eq := rfl
    flavor := rfl
    wide := Nat.le_max_right window 1 }

section
variable {client : Client} {server : Server} (right : chain.Answers known w blocks)
  (top : blocks.getLast? = some last)
include right top

theorem placed_tip : last.tip.point.Placed :=
  .inr (right.ordered.hashed last (List.mem_of_getLast? top))

variable {content : StoredBlock → HeaderContent} (made : ∀ b ∈ blocks, b.MadeFrom (content b))
include made

theorem settles_rest {front back : List StoredBlock} (cut : blocks = front ++ back)
    (abreast : Abreast client server (reach front) false) (received : List Message) :
    ∃ e, Settles chain e ⟨client, server, [], [], w, received⟩ ∧
      e.received = received ++
        (back.map (fun b => Message.rollForward (content b) last.tip) ++ [.awaitReply]) ∧
      e.client.cursor = some last.point := by
  induction back generalizing front client server received with
  | nil =>
    rw [List.append_nil] at cut
    subst cut
    have heard := Server.received_requestNext_await right
      (s := { server with state := .canAwait }) abreast.reached abreast.owes_eq
    have ends : reach blocks = last.point := by
      rw [reach, top]
      rfl
    refine ⟨_, abreast.round heard rfl rfl trivial rfl (.rest ?_), rfl, ends ▸ abreast.cursor⟩
    exact ⟨rfl, rfl, rfl, takeNext_of_silent rfl⟩
  | cons b back ih =>
    have member : b ∈ blocks := by simp [cut]
    have read : b.content server.flavor = .ok (content b) := by
      rw [abreast.flavor]
      exact (made b member).content_eq
    have heard := Server.received_requestNext_forward right top
      (s := { server with state := .canAwait }) cut abreast.reached abreast.owes_eq read
    have whole : (Message.rollForward (content b) last.tip).Whole :=
      ⟨(made b member).1, placed_tip right top⟩
    have beyond : blocks = (front ++ [b]) ++ back := by
      rw [cut, List.append_assoc, List.singleton_append]
    have moved := abreast.forward (made b member).point_eq last.tip front
    obtain ⟨e, settled, heardAll, ends⟩ :=
      ih beyond moved (received ++ [.rollForward (content b) last.tip])
    refine ⟨e, abreast.round heard rfl rfl whole rfl settled, ?_, ends⟩
    rw [heardAll, List.append_assoc]
    rfl

theorem settles_owing {front back : List StoredBlock} (cut : blocks = front ++ back)
    (abreast : Abreast client server (reach front) true) (received : List Message) :
    ∃ e, Settles chain e ⟨client, server, [], [], w, received⟩ ∧
      e.received = received ++ .rollBackward (reach front) last.tip ::
        (back.map (fun b => Message.rollForward (content b) last.tip) ++ [.awaitReply]) ∧
      e.client.cursor = some last.point := by
  have held : Holds blocks (reach front) := cut ▸ Blocks.holds_reach front back
  have heard := Server.received_requestNext_back right top
    (s := { server with state := .canAwait }) abreast.reached held abreast.owes_eq
  have whole : (Message.rollBackward (reach front) last.tip).Whole :=
    ⟨placed_of_holds right.ordered held, placed_tip right top⟩
  obtain ⟨e, settled, heardAll, ends⟩ := settles_rest right top made cut
    (abreast.backward last.tip) (received ++ [.rollBackward (reach front) last.tip])
  refine ⟨e, abreast.round heard rfl rfl whole rfl settled, ?_, ends⟩
  rw [heardAll, List.append_assoc, List.singleton_append]

theorem settles_begin {front back : List StoredBlock} (cut : blocks = front ++ back)
    (window : Nat) :
    ∃ e, Settles chain e (begin [reach front] window w) ∧
      e.received = .intersectFound (reach front) last.tip :: .rollBackward (reach front) last.tip ::
        (back.map (fun b => Message.rollForward (content b) last.tip) ++ [.awaitReply]) ∧
      e.client.cursor = some last.point := by
  have held : Holds blocks (reach front) := cut ▸ Blocks.holds_reach front back
  have placed := placed_of_holds right.ordered held
  have heard := Server.received_findIntersect_of_holds right top
    (s := { Server.new .headers window with state := .intersect }) held
  have question : (Message.findIntersect [reach front]).Whole := by
    refine ⟨(by decide : 1 < UInt64.size), fun q member => ?_⟩
    rw [List.mem_singleton.mp member]
    exact placed
  have answer : (Message.intersectFound (reach front) last.tip).Whole :=
    ⟨placed, placed_tip right top⟩
  obtain ⟨e, settled, heardAll, ends⟩ := settles_owing right top made cut
    (abreast_found (reach front) window last.tip) [.intersectFound (reach front) last.tip]
  exact ⟨e, settles_round rfl rfl question rfl rfl rfl heard rfl rfl answer rfl settled, heardAll,
    ends⟩

end

/-- Over a chain of blocks made from headers, of which no two have one hash, a client that
starts at the origin or at any block gets every block after it, once and in order. Then both
sides fall silent, and the client is at the tip. -/
theorem synchronises {start store : ChainStore} {content : StoredBlock → HeaderContent}
    {front back : List StoredBlock} (empty : start = .inMemory ∨ start = .inTable)
    (made : ∀ b ∈ front ++ back, b.MadeFrom (content b))
    (distinct : (front ++ back).Pairwise fun a b => a.point.hash ≠ b.point.hash)
    (filled : start.appendAll (front ++ back) = (.ok (), store))
    (top : (front ++ back).getLast? = some last) (window : Nat) :
    ∃ e, Settles ChainStore.source e (begin [reach front] window store) ∧
      e.received = .intersectFound (reach front) last.tip :: .rollBackward (reach front) last.tip ::
        (back.map (fun b => Message.rollForward (content b) last.tip) ++ [.awaitReply]) ∧
      e.client.cursor = some last.point := by
  have hashed : ∀ b ∈ front ++ back, b.point.hash.isSome := fun b member =>
    (made b member).serves.hash
  obtain ⟨sound, grown⟩ : store.Sound ∧ store.blocks = front ++ back := by
    rcases empty with rfl | rfl
    · exact ChainStore.sound_inMemory.appendAll hashed distinct filled
    · exact ChainStore.sound_inTable.appendAll hashed distinct filled
  have right := sound.answers
  rw [grown] at right
  exact settles_begin right top made rfl window

def byronBlock : StoredBlock where
  point := ⟨20, some (.digest [0x84, 0, 0, 0, 0x81, 0x82, 0, 0x14])⟩
  blockNumber := 1
  header := [0x82, 0, 0x82, 0x82, 1, 9, 0xD8, 0x18, 0x48, 0x84, 0, 0, 0, 0x81, 0x82, 0, 0x14]
  body := []

def shelleyBlock : StoredBlock where
  point := ⟨30, some (.digest [0x81, 0x82, 2, 0x18, 0x1E])⟩
  blockNumber := 2
  header := [0x82, 1, 0xD8, 0x18, 0x45, 0x81, 0x82, 2, 0x18, 0x1E]
  body := []

def eraHeader (b : StoredBlock) : HeaderContent :=
  if b.blockNumber = 1 then .byronMain 9 [0x84, 0, 0, 0, 0x81, 0x82, 0, 0x14]
  else .shelley 1 [0x81, 0x82, 2, 0x18, 0x1E]

theorem madeFrom_eraHeader :
    ∀ b ∈ [byronBlock] ++ [shelleyBlock], b.MadeFrom (eraHeader b) := by
  intro b member
  rcases List.mem_append.mp member with early | late
  · rw [List.mem_singleton.mp early]
    exact ⟨⟨by decide, nofun⟩, by rfl⟩
  · rw [List.mem_singleton.mp late]
    exact ⟨⟨by decide, fun same => by cases same; decide⟩, by rfl⟩

/-- From the first of two blocks, with room for one point. -/
theorem synchronises_twoEras :
    (∀ b ∈ [byronBlock] ++ [shelleyBlock], b.MadeFrom (eraHeader b)) ∧
      ([byronBlock] ++ [shelleyBlock]).Pairwise (fun a b => a.point.hash ≠ b.point.hash) ∧
      ∃ store, ChainStore.inMemory.appendAll ([byronBlock] ++ [shelleyBlock]) = (.ok (), store) ∧
        ∃ e, Settles ChainStore.source e (begin [byronBlock.point] 1 store) ∧
          e.received = [.intersectFound byronBlock.point shelleyBlock.tip,
            .rollBackward byronBlock.point shelleyBlock.tip,
            .rollForward (.shelley 1 [0x81, 0x82, 2, 0x18, 0x1E]) shelleyBlock.tip, .awaitReply] ∧
          e.client.cursor = some shelleyBlock.point := by
  have distinct : ([byronBlock] ++ [shelleyBlock]).Pairwise
      fun a b => a.point.hash ≠ b.point.hash := by decide +kernel
  obtain ⟨store, filled⟩ :
      ∃ store, ChainStore.inMemory.appendAll ([byronBlock] ++ [shelleyBlock]) =
        (.ok (), store) := by
    have taken : (ChainStore.inMemory.appendAll ([byronBlock] ++ [shelleyBlock])).1.isOk = true := by
      decide +kernel
    cases done : ChainStore.inMemory.appendAll ([byronBlock] ++ [shelleyBlock]) with
    | mk r store =>
      rw [done] at taken
      cases r with
      | ok => exact ⟨store, rfl⟩
      | error e => cases taken
  have later : eraHeader shelleyBlock = .shelley 1 [0x81, 0x82, 2, 0x18, 0x1E] := rfl
  rw [← later]
  exact ⟨madeFrom_eraHeader, distinct, store, filled,
    synchronises (.inl rfl) madeFrom_eraHeader distinct filled rfl 1⟩

end Dialogue
end ChainSync
end ChainRelay
