import ChainRelay.Proofs.Protocol.Replies

/-! What each server has left to say, whatever it is asked and whatever its chain answers. -/
namespace ChainRelay

variable {σ : Type}

def Never {State Message : Type} (_ : State) (_ : List Message) : Prop := False

theorem Protocol.continues_one {State Message : Type} {p : Protocol State Message}
    {Parks : State → List Message → Prop} {s t : State} {m : Message}
    (holds : Role.server.holds (p.agency s) = true) (moved : p.move s m = some t)
    (ends : Role.server.holds (p.agency t) = false ∨ Parks t [m]) : p.Continues Parks s [m] :=
  ⟨t, ⟨m, t, holds, rfl, moved, rfl⟩, ends⟩

namespace KeepAlive.Server

theorem replier : (Server.conduct σ).Replier Never fun _ => True where
  plain := Server.plain
  parks := id
  role _ := rfl
  produce _ := rfl
  writable _ _ := protocol.exists_encode (Message.hasFloat_toCbor _)
  backlog _ := le_rfl
  number _ _ _ := rfl
  ask _ _ due := ⟨due, List.prefix_rfl⟩
  take := by
    intro s m next w _ spent live lacks moved
    change s.replies = [] at spent
    change Role.server.holds s.state.agency = false at lacks
    change s.state.move m = some next at moved
    refine ⟨trivial, ?_⟩
    change protocol.Continues Never (received m { s with state := next }).state
      (received m { s with state := next }).replies
    cases at_ : s.state with
    | client =>
      rw [at_] at moved
      cases m with
      | ping cookie =>
        cases moved
        simp only [received, spent]
        exact Protocol.continues_one rfl rfl (.inl rfl)
      | done =>
        cases moved
        simp only [received, spent]
        exact ⟨.done, rfl, .inl rfl⟩
      | response cookie => cases moved
    | server => simp [at_, State.agency, Role.holds] at lacks
    | done =>
      rw [at_] at moved
      cases m <;> cases moved
  give _ made _ := ⟨trivial, Server.inLine.queue_commit _ made⟩
  call _ _ := ⟨trivial, rfl⟩
  reset _ := ⟨trivial, rfl, rfl⟩
  initial := rfl

end KeepAlive.Server

namespace BlockFetch.Server

theorem continues_answer (bodies : Except ChainError (Option (List Bytes))) :
    protocol.Continues Never .busy (answer bodies) := by
  have batch (bodies : List Bytes) :
      protocol.Carries Eq .server .streaming (bodies.map .block ++ [.batchDone]) .idle := by
    induction bodies with
    | nil => exact ⟨.batchDone, .idle, rfl, rfl, rfl, rfl⟩
    | cons body bodies ih => exact ⟨.block body, .streaming, rfl, rfl, rfl, ih⟩
  unfold answer
  split
  · rename_i found
    exact ⟨.idle, ⟨.startBatch, .streaming, rfl, rfl, rfl, batch found⟩, .inl rfl⟩
  · exact Protocol.continues_one rfl rfl (.inl rfl)

theorem replier {chain : ChainSource σ} : (Server.conduct chain).Replier Never fun _ => True where
  plain := Server.plain
  parks := id
  role _ := rfl
  produce _ := rfl
  writable _ _ := protocol.exists_encode (Message.hasFloat_toCbor _)
  backlog _ := le_rfl
  number _ _ _ := rfl
  ask _ _ due := ⟨due, List.prefix_rfl⟩
  take := by
    intro s m next w _ spent live lacks moved
    change s.replies = [] at spent
    change Role.server.holds s.state.agency = false at lacks
    change s.state.move m = some next at moved
    refine ⟨trivial, ?_⟩
    change protocol.Continues Never (received chain m { s with state := next } w).1.state
      (received chain m { s with state := next } w).1.replies
    cases at_ : s.state with
    | idle =>
      rw [at_] at moved
      cases m with
      | requestRange range =>
        cases moved
        simp only [received, spent]
        exact continues_answer _
      | clientDone =>
        cases moved
        simp only [received, spent]
        exact ⟨.done, rfl, .inl rfl⟩
      | _ => cases moved
    | busy | streaming => simp [at_, State.agency, Role.holds] at lacks
    | done =>
      rw [at_] at moved
      cases m <;> cases moved
  give _ made _ := ⟨trivial, Server.inLine.queue_commit _ made⟩
  call _ _ := ⟨trivial, rfl⟩
  reset _ := ⟨trivial, rfl, rfl⟩
  initial := rfl

end BlockFetch.Server

theorem Handshake.Message.IsReply.move {m : Handshake.Message} (reply : m.IsReply) :
    Handshake.protocol.move .confirm m = some .done := by
  cases m with
  | proposeVersions proposed => cases reply
  | _ => rfl

namespace Handshake.Party

structure Answers (p : Party) : Prop where
  role_eq : p.role = .server
  reply : ∀ m, p.reply = some m → m.IsReply

theorem replier : (Party.conduct σ).Replier Never Answers where
  plain := Party.plain
  parks := id
  role answers := answers.role_eq
  produce {p} due := by
    change p.produce = p.reply.toList.head?
    rw [produce, due.sane.role_eq]
    cases p.reply <;> rfl
  writable answers member :=
    protocol.exists_encode (answers.reply _ (Option.mem_toList.mp member)).hasFloat_toCbor
  backlog p := by
    change p.reply.toList.length ≤ 1
    cases p.reply <;> simp
  number _ _ _ := rfl
  ask _ _ due := ⟨due, List.prefix_rfl⟩
  take := by
    intro p m next w answers spent live lacks moved
    have none : p.reply = none := Option.toList_eq_nil_iff.mp spent
    change p.role.holds p.state.agency = false at lacks
    rw [answers.role_eq] at lacks
    change p.state.move m = some next at moved
    change (Party.conduct σ).Due Never Answers (received m { p with state := next })
    cases at_ : p.state with
    | propose =>
      rw [at_] at moved
      cases m with
      | proposeVersions proposed =>
        cases moved
        have reply := isReply_answer p.versions proposed
        refine ⟨⟨answers.role_eq, ?_⟩, ?_⟩
        · intro m made
          cases made
          exact reply
        · exact Protocol.continues_one rfl reply.move (.inl rfl)
      | _ => cases moved
    | confirm => simp [at_, State.agency, Role.holds] at lacks
    | done =>
      rw [at_] at moved
      cases m <;> cases moved
  give := by
    intro p m next answers made moved
    have reply : p.reply = some m := by
      change p.produce = some m at made
      rwa [produce, answers.role_eq] at made
    have role_eq : ((kind σ).commit m next p).role = .server := by
      simp only [AgentKind.commit, kind, sent, answers.role_eq]
      split <;> rfl
    have spent : ((kind σ).commit m next p).reply = none := by
      simp only [AgentKind.commit, kind, sent, answers.role_eq]
      split <;> rfl
    refine ⟨⟨role_eq, ?_⟩, ?_⟩
    · intro m made
      cases spent.symm.trans made
    · simp only [conduct, reply, spent]
      rfl
  call _ answers := ⟨⟨answers.role_eq, answers.reply⟩, rfl⟩
  reset answers := ⟨⟨answers.role_eq, nofun⟩, rfl, rfl⟩
  initial := rfl

end Handshake.Party

namespace ChainSync.Server

/-- A server may wait for a new block once it has promised an update, and then has nothing
to say. -/
def Parked (t : State) (queue : List Message) : Prop :=
  t = .mustReply ∧ (queue = [] ∨ queue = [.awaitReply])

/-- The client waits at the tip only while the promise is all that there is to say. -/
def Waits (s : Server) : Prop :=
  s.tipWaiting = true →
    (s.state = .canAwait ∧ s.replies = [.awaitReply]) ∨ (s.state = .mustReply ∧ s.replies = [])

theorem move_of_updates {m : Message} (updates : m.updates = true) {s : State}
    (at_ : s = .canAwait ∨ s = .mustReply) : protocol.move s m = some .idle := by
  cases m with
  | rollForward _ _ | rollBackward _ _ => rcases at_ with rfl | rfl <;> rfl
  | _ => cases updates

theorem due_received (chain : ChainSource σ) {s : Server} {m : Message} {next : State} (w : σ)
    (spent : s.replies = []) (content : s.tipWaiting = false)
    (moved : State.move .idle m = some next) :
    (conduct chain).Due Parked Waits (received chain m { s with state := next } w).1 := by
  cases m with
  | findIntersect points =>
    cases moved
    obtain ⟨reply, sent, owes, tip, same, found, waits⟩ :=
      received_findIntersect_eq chain points { s with state := .intersect } w
    rw [same]
    refine ⟨fun waiting => by simp [content] at waits; simp [waits] at waiting, ?_⟩
    simp only [conduct, kind, spent, List.nil_append]
    rcases found with ⟨p, t, rfl⟩ | ⟨t, rfl⟩
    · exact Protocol.continues_one rfl rfl (.inl rfl)
    · exact Protocol.continues_one rfl rfl (.inl rfl)
  | requestNext =>
    cases moved
    obtain ⟨reply, sent, owes, tip, same, answer⟩ :=
      received_requestNext_eq chain { s with state := .canAwait } w
    rw [same]
    rcases answer with rfl | ⟨updates, still⟩
    · refine ⟨fun _ => .inl ⟨rfl, by simp [spent]⟩, ?_⟩
      simp only [conduct, kind, spent, List.nil_append]
      exact Protocol.continues_one rfl rfl (.inr ⟨rfl, .inr rfl⟩)
    · refine ⟨fun waiting => by simp [still, content] at waiting, ?_⟩
      simp only [conduct, kind, spent, List.nil_append]
      exact Protocol.continues_one rfl (move_of_updates updates (.inl rfl)) (.inl rfl)
  | done =>
    cases moved
    refine ⟨fun waiting => by simp [received, content] at waiting, .done, ?_, .inl rfl⟩
    simp only [conduct, kind, received, spent]
    rfl
  | _ => cases moved

/-- A pushed update comes after the promise of it, or when the promise has left. -/
theorem due_notified (chain : ChainSource σ) {s : Server} (w : σ)
    (due : (conduct chain).Due Parked Waits s) :
    (conduct chain).Due Parked Waits (notifyNewBlock chain s w).1 := by
  obtain ⟨sent, owes, same | ⟨waits, -, update, updates, same⟩⟩ := notifyNewBlock_eq chain s w
  · rw [same]
    exact ⟨due.sane, due.continues⟩
  · rw [same]
    refine ⟨nofun, ?_⟩
    simp only [conduct, kind]
    rcases due.sane waits with ⟨at_, promised⟩ | ⟨at_, spent⟩
    · rw [at_, promised]
      exact ⟨.idle, ⟨.awaitReply, .mustReply, rfl, rfl, rfl, update, .idle, rfl, rfl,
        move_of_updates updates (.inr rfl), rfl⟩, .inl rfl⟩
    · rw [at_, spent]
      exact Protocol.continues_one rfl (move_of_updates updates (.inr rfl)) (.inl rfl)

theorem replier {chain : ChainSource σ} : (Server.conduct chain).Replier Parked Waits where
  plain := Server.plain
  parks := by
    rintro t m rest ⟨at_, none | lone⟩
    · cases none
    · cases lone
      exact ⟨at_, .inl rfl⟩
  role _ := rfl
  produce {s} due := by
    obtain ⟨t, run, -⟩ := due.continues
    change (do let m ← s.replies.head?; let _ ← s.state.move m; return m) = s.replies.head?
    change protocol.Carries Eq .server s.state s.replies t at run
    cases waiting : s.replies with
    | nil => rfl
    | cons m rest =>
      rw [waiting] at run
      obtain ⟨_, next, -, rfl, moved, -⟩ := run
      change s.state.move m = some next at moved
      simp [moved]
  writable _ _ := protocol.exists_encode (Message.hasFloat_toCbor _)
  backlog _ := le_rfl
  number _ _ _ := rfl
  ask := by
    intro s r w due
    cases r with
    | notifyNewBlock => exact ⟨due_notified chain w due, (notifyNewBlock_adds chain s w).2⟩
    | _ => exact ⟨due, List.prefix_rfl⟩
  take := by
    intro s m next w sane spent live lacks moved
    change s.replies = [] at spent
    change Role.server.holds s.state.agency = false at lacks
    change s.state.move m = some next at moved
    cases at_ : s.state with
    | idle =>
      rw [at_] at moved
      have content : s.tipWaiting = false := by
        cases waits : s.tipWaiting with
        | false => rfl
        | true => simpa [at_] using sane waits
      exact due_received chain w spent content moved
    | done =>
      rw [at_] at moved
      cases m <;> cases moved
    | _ => simp [at_, State.agency, Role.holds] at lacks
  give := by
    intro s m next sane made moved
    have first : s.replies.head? = some m := head?_of_produce made
    change s.state.move m = some next at moved
    refine ⟨fun waits => ?_, Server.inLine.queue_commit _ made⟩
    -- what leaves is the promise, since no more than that is in the queue
    rcases sane waits with ⟨at_, promised⟩ | ⟨-, spent⟩
    · rw [promised] at first
      cases first
      rw [at_] at moved
      cases moved
      exact .inr ⟨rfl, by simp [conduct, kind, AgentKind.commit, promised]⟩
    · rw [spent] at first
      cases first
  call _ sane := ⟨sane, rfl⟩
  reset _ := ⟨nofun, rfl, rfl⟩
  initial := rfl

end ChainSync.Server

/-- A server that has taken in anything, in any order, over any chain, has left to say what
ends its turn, and no more. -/
theorem servers_continue (chain : ChainSource σ) (w : σ) :
    (∀ {flavor window log s},
      (ChainSync.Server.conduct chain).Run (.new (.new flavor window), w) log s →
        (ChainSync.Server.conduct chain).Replies ChainSync.Server.Parked log s) ∧
    (∀ {maxBatch log s}, (BlockFetch.Server.conduct chain).Run (.new (.new maxBatch), w) log s →
      (BlockFetch.Server.conduct chain).Replies Never log s) ∧
    (∀ {log s}, (KeepAlive.Server.conduct σ).Run (.new .new, w) log s →
      (KeepAlive.Server.conduct σ).Replies Never log s) ∧
    (∀ {versions listeners log s}, (Handshake.Party.conduct σ).Run
        (.new { Handshake.Party.new .server versions with listeners }, w) log s →
      (Handshake.Party.conduct σ).Replies Never log s) := by
  refine ⟨?_, ?_, ?_, ?_⟩
  · intro flavor window log s run
    exact ChainSync.Server.replier.replies (by exact nofun) rfl rfl run
  · intro maxBatch log s run
    exact BlockFetch.Server.replier.replies trivial rfl rfl run
  · intro log s run
    exact KeepAlive.Server.replier.replies trivial rfl rfl run
  · intro versions listeners log s run
    have fresh : { Handshake.Party.new .server versions with listeners }.Answers :=
      ⟨rfl, fun m made => by cases made⟩
    exact Handshake.Party.replier.replies fresh rfl rfl run

/-- A block that comes before the promise of it has left. -/
theorem servers_continue_pushed :
    let tip : Tip := ⟨⟨20, some .zero⟩, 1⟩
    let log : List (Note ChainSync.Message Empty) :=
      [.taken (.findIntersect [.origin]), .queued (.intersectFound .origin tip),
        .given (.intersectFound .origin tip) none,
        .taken .requestNext, .queued (.rollBackward .origin tip),
        .given (.rollBackward .origin tip) none,
        .taken .requestNext, .queued .awaitReply,
        .asked .notifyNewBlock, .queued (.rollForward (.block [0x80]) tip)]
    let h : Handle ChainSync.Server := .new ⟨.blocks, .canAwait, [.origin, tip.point], 10, false,
      false, [.awaitReply, .rollForward (.block [0x80]) tip]⟩
    let c := ChainSync.Server.conduct Exchange.shortChain
    c.Run (.new (.new .blocks 10), true) log (h, true) ∧
      c.Replies ChainSync.Server.Parked log (h, true) := by
  intro tip log h c
  let at_ (state : ChainSync.State) (sent : List Point) (owes tipWaiting : Bool)
      (replies : List ChainSync.Message) : Handle ChainSync.Server :=
    .new ⟨.blocks, state, sent, 10, owes, tipWaiting, replies⟩
  have found : c.Step (.new (.new .blocks 10), true)
      [.taken (.findIntersect [.origin]), .queued (.intersectFound .origin tip)]
      (at_ .intersect [.origin] true false [.intersectFound .origin tip], true) :=
    Conduct.Step.take (c := c) (h := .new (.new .blocks 10))
      (a := (at_ .intersect [.origin] true false [.intersectFound .origin tip]).agent) rfl
  have intersected : c.Step (at_ .intersect [.origin] true false [.intersectFound .origin tip], true)
      [.given (.intersectFound .origin tip) none] (at_ .idle [.origin] true false [], true) :=
    .draw rfl
  have back : c.Step (at_ .idle [.origin] true false [], true)
      [.taken .requestNext, .queued (.rollBackward .origin tip)]
      (at_ .canAwait [.origin] false false [.rollBackward .origin tip], true) :=
    Conduct.Step.take (c := c) (h := at_ .idle [.origin] true false [])
      (a := (at_ .canAwait [.origin] false false [.rollBackward .origin tip]).agent) rfl
  have rolled : c.Step (at_ .canAwait [.origin] false false [.rollBackward .origin tip], true)
      [.given (.rollBackward .origin tip) none] (at_ .idle [.origin] false false [], true) :=
    .draw rfl
  have promised : c.Step (at_ .idle [.origin] false false [], false)
      [.taken .requestNext, .queued .awaitReply]
      (at_ .canAwait [.origin] false true [.awaitReply], false) :=
    Conduct.Step.take (c := c) (h := at_ .idle [.origin] false false [])
      (a := (at_ .canAwait [.origin] false true [.awaitReply]).agent) rfl
  have pushed : c.Step (at_ .canAwait [.origin] false true [.awaitReply], true)
      [.asked .notifyNewBlock, .queued (.rollForward (.block [0x80]) tip)] (h, true) :=
    .ask .notifyNewBlock
  have run : c.Run (.new (.new .blocks 10), true) log (h, true) :=
    (((((((Conduct.Run.nil.snoc found).snoc intersected).snoc back).snoc rolled).snoc
      (.change false)).snoc promised).snoc (.change true)).snoc pushed
  exact ⟨run, (servers_continue Exchange.shortChain true).1 run⟩

end ChainRelay
