import ChainRelay.Proofs.ChainSync.Lookups
import ChainRelay.Proofs.Protocol.Servers

/-! Clients that wait at the tip. A server that has told its client to wait holds the turn, and
a notification either finds the client its update, once, or finds it at the end of the chain.
Each request is answered by at most one update, which leaves after the promise of it. -/
namespace ChainRelay.ChainSync.Server

variable {σ : Type} {chain : ChainSource σ} {known : Point → Prop} {w : σ}

def requests : Note Message Empty → Bool
  | .taken .requestNext => true
  | _ => false

def answers (log : List (Note Message Empty)) : List Message :=
  (Conduct.since log).filterMap Note.queued?

def delivered (log : List (Note Message Empty)) : List Message := log.filterMap Note.given?

/-! ### What a turn does -/

theorem answers_append {log notes : List (Note Message Empty)}
    (on : ∀ n ∈ notes, n.goesOn = true) :
    answers (log ++ notes) = answers log ++ notes.filterMap Note.queued? := by
  rw [answers, Conduct.since_append on, List.filterMap_append]
  rfl

theorem answers_cut {log notes : List (Note Message Empty)} {n : Note Message Empty}
    (cut : n.goesOn = false) (on : ∀ n ∈ notes, n.goesOn = true) :
    answers (log ++ n :: notes) = notes.filterMap Note.queued? := by
  rw [answers, Conduct.since_cut cut on]

theorem lastSent_nextUpdate {s s' : Server} {v : σ} {r : Except ChainError (Option Message)}
    (wide : 1 ≤ s.window) (placed : s.lastSent ≠ none)
    (sought : nextUpdate chain s w = (r, s', v)) : s'.lastSent ≠ none := by
  have outcome := nextUpdate_outcome chain s w
  rw [sought] at outcome
  cases outcome with
  | unplaced _ | unsure _ _ | unread _ _ _ _ | atTip _ _ _ _ | confirmed _ _ _ _ => exact placed
  | interrupted _ _ broken => simpa [lastSent] using ne_nil_of_broken broken
  | forked _ _ _ _ | adrift _ _ _ _ => simp [lastSent]
  | forward _ _ _ _ _ =>
    rw [lastSent, record_getLast? wide]
    nofun

theorem updates_of_nextUpdate {s s' : Server} {v : σ} {m : Message}
    (sought : nextUpdate chain s w = (.ok (some m), s', v)) : m.updates = true :=
  updates_nextUpdate chain (congrArg Prod.fst sought)

theorem Waits.content {s : Server} (waits : s.Waits) (idle : s.state = .idle) :
    s.tipWaiting = false := by
  cases waiting : s.tipWaiting with
  | false => rfl
  | true => simpa [idle] using waits waiting

/-- A turn adds nothing to the answer, or it adds the update that a client waits for, or it
begins another answer. -/
inductive Adds (s s' : Server) (before after : List Message) : Prop
  | nothing (waits : s'.tipWaiting = s.tipWaiting) (same : after = before)
  | update {m : Message} (waits : s.tipWaiting = true) (woken : s'.tipWaiting = false)
      (updates : m.updates = true) (grown : after = before ++ [m])
  | anew {said : List Message} (cut : after = said) (short : said.length ≤ 1)
      (promised : s'.tipWaiting = true → said = [.awaitReply])

theorem Turn.adds {s : Server} {log notes : List (Note Message Empty)} {r : Server × σ}
    (turn : Turn chain s w notes r) (waits : s.Waits) :
    Adds s r.1 (answers log) (answers (log ++ notes)) := by
  cases turn with
  | rest _ => exact .nothing rfl (by rw [List.append_nil])
  | called | ignored _ | content _ | given _ _ _ =>
    exact .nothing rfl ((answers_append (by simp [Note.goesOn])).trans (List.append_nil _))
  | missed _ _ sought _ =>
    obtain ⟨-, kept, -⟩ := frame_of_nextUpdate sought
    exact .nothing kept ((answers_append (by simp [Note.goesOn])).trans (List.append_nil _))
  | pushed waiting _ sought =>
    refine .update waiting rfl (updates_of_nextUpdate sought) ?_
    exact answers_append (by simp [Note.goesOn])
  | finished idle =>
    refine .anew (answers_cut rfl (List.forall_mem_nil _)) (Nat.zero_le 1) fun waiting => ?_
    cases (waits.content idle).symm.trans waiting
  | found _ _ _ =>
    refine .anew (answers_cut rfl (by simp [Note.goesOn])) (Nat.le_refl 1) fun waiting => ?_
    cases waiting
  | lost idle _ _ =>
    refine .anew (answers_cut rfl (by simp [Note.goesOn])) (Nat.le_refl 1) fun waiting => ?_
    cases (waits.content idle).symm.trans waiting
  | early _ _ | parked _ _ _ _ =>
    exact .anew (answers_cut rfl (by simp [Note.goesOn])) (Nat.le_refl 1) fun _ => rfl
  | answered idle _ sought =>
    obtain ⟨-, kept, -⟩ := frame_of_nextUpdate sought
    refine .anew (answers_cut rfl (by simp [Note.goesOn])) (Nat.le_refl 1) fun waiting => ?_
    cases (waits.content idle).symm.trans (kept.symm.trans waiting)
  | reset =>
    refine .anew (answers_cut rfl (List.forall_mem_nil _)) (Nat.zero_le 1) fun waiting => ?_
    cases waiting

/-- The updates that are promised, or wait, or have left. -/
def owedUpdates (log : List (Note Message Empty)) (s : Server) : Nat :=
  s.tipWaiting.toNat + s.replies.countP Message.updates + (delivered log).countP Message.updates

theorem owedUpdates_turn {s : Server} {log notes : List (Note Message Empty)} {r : Server × σ}
    (turn : Turn chain s w notes r) :
    owedUpdates (log ++ notes) r.1 ≤ owedUpdates log s + notes.countP requests := by
  simp only [owedUpdates, delivered, List.filterMap_append, List.countP_append]
  cases turn with
  | rest _ | called | ignored _ | content _ | finished _ => simp [List.filterMap_cons]
  | missed _ _ sought _ =>
    obtain ⟨-, waits, replies⟩ := frame_of_nextUpdate sought
    simp [List.filterMap_cons, waits, replies]
  | pushed waiting _ sought =>
    obtain ⟨-, -, replies⟩ := frame_of_nextUpdate sought
    have updates := updates_of_nextUpdate sought
    simp [List.filterMap_cons, enqueue, waiting, replies, updates]
    omega
  | found _ _ _ | lost _ _ _ =>
    simp [List.filterMap_cons, requests, enqueue, Message.updates]
  | early _ _ =>
    simp [List.filterMap_cons, enqueue, Message.updates]
  | parked _ _ sought _ =>
    obtain ⟨-, -, replies⟩ := frame_of_nextUpdate sought
    simp [List.filterMap_cons, List.countP_cons, enqueue, Message.updates, requests, replies]
    omega
  | answered _ _ sought =>
    obtain ⟨-, waits, replies⟩ := frame_of_nextUpdate sought
    have updates := updates_of_nextUpdate sought
    simp [List.filterMap_cons, List.countP_cons, enqueue, requests, waits, replies, updates]
    omega
  | given packet waiting moved =>
    simp [waiting, List.countP_cons]
    omega
  | reset =>
    simp [List.filterMap_cons, requests, kind]

theorem Turn.placed {s : Server} {notes : List (Note Message Empty)} {r : Server × σ}
    (turn : Turn chain s w notes r) (wide : 1 ≤ s.window)
    (placed : s.tipWaiting = true → s.lastSent ≠ none) :
    1 ≤ r.1.window ∧ (r.1.tipWaiting = true → r.1.lastSent ≠ none) := by
  cases turn with
  | rest _ | called | ignored _ | content _ | finished _ | lost _ _ _ | early _ _ | given _ _ _ =>
    exact ⟨wide, placed⟩
  | missed waiting _ sought _ =>
    obtain ⟨window, -, -⟩ := frame_of_nextUpdate sought
    exact ⟨window ▸ wide, fun _ => lastSent_nextUpdate wide (placed waiting) sought⟩
  | pushed _ _ sought =>
    obtain ⟨window, -, -⟩ := frame_of_nextUpdate sought
    exact ⟨window ▸ wide, nofun⟩
  | found _ _ _ | reset => exact ⟨wide, nofun⟩
  | parked _ set sought _ | answered _ set sought =>
    obtain ⟨window, -, -⟩ := frame_of_nextUpdate sought
    have reached := lastSent_nextUpdate (s := { s with state := .canAwait }) wide set sought
    exact ⟨window ▸ wide, fun _ => reached⟩

/-! ### A run -/

/-- What a request may be answered with: one message, or the promise and then an update. -/
inductive Answering : List Message → Prop
  | short {said : List Message} (one : said.length ≤ 1) : Answering said
  | pushed {m : Message} (updates : m.updates = true) : Answering [.awaitReply, m]

structure Wakes (log : List (Note Message Empty)) (s : Server) : Prop where
  wide : 1 ≤ s.window
  placed : s.tipWaiting = true → s.lastSent ≠ none
  promised : s.tipWaiting = true → answers log = [.awaitReply]
  answering : Answering (answers log)
  paid : owedUpdates log s ≤ log.countP requests

theorem Turn.wakes {s : Server} {log notes : List (Note Message Empty)} {r : Server × σ}
    (turn : Turn chain s w notes r) (waits : s.Waits) (before : Wakes log s) :
    Wakes (log ++ notes) r.1 := by
  obtain ⟨wide, placed⟩ := turn.placed before.wide before.placed
  have paid : owedUpdates (log ++ notes) r.1 ≤ (log ++ notes).countP requests := by
    rw [List.countP_append]
    exact (owedUpdates_turn turn).trans (Nat.add_le_add_right before.paid _)
  have adds : Adds s r.1 (answers log) (answers (log ++ notes)) := turn.adds waits
  cases adds with
  | nothing kept same =>
    refine ⟨wide, placed, fun waiting => ?_, ?_, paid⟩
    · rw [same]
      exact before.promised (kept ▸ waiting)
    · rw [same]
      exact before.answering
  | update waiting woken updates grown =>
    rw [before.promised waiting] at grown
    refine ⟨wide, placed, fun waiting => ?_, ?_, paid⟩
    · cases woken.symm.trans waiting
    · rw [grown]
      exact .pushed updates
  | anew cut short promised =>
    refine ⟨wide, placed, fun waiting => ?_, ?_, paid⟩
    · rw [cut]
      exact promised waiting
    · rw [cut]
      exact .short short

theorem wakes_of_run {flavor : Flavor} {window : Nat} {w₀ : σ} {log : List (Note Message Empty)}
    {t : Handle Server × σ} (run : (conduct chain).Run (.new (.new flavor window), w₀) log t) :
    ((conduct chain).Due Parked Waits t.1.agent ∧
      answers log = delivered (Conduct.since log) ++ t.1.agent.replies) ∧
    Wakes log t.1.agent := by
  induction run with
  | nil =>
    refine ⟨⟨⟨nofun, .idle, rfl, .inl rfl⟩, rfl⟩, ?_⟩
    exact ⟨Nat.le_max_right window 1, nofun, nofun, .short (Nat.zero_le 1), Nat.le_refl 0⟩
  | snoc _ step ih =>
    obtain ⟨due, wakes⟩ := ih
    exact ⟨replier.keeps.step step due, (turn_of_act step.act).wakes due.1.sane wakes⟩

/-! ### A notification -/

/-- The client is where the chain ends, and is owed nothing. -/
structure AtEnd (chain : ChainSource σ) (w : σ) (s : Server) (p : Point) : Prop where
  reached : s.lastSent = some p
  settled : s.owesRollback = false
  stands : Stands chain w p
  last : (chain.nextAfter p).run w = (.ok none, w)

theorem AtEnd.eq_reach {s : Server} {p : Point} (atEnd : AtEnd chain w s p) {l : List StoredBlock}
    (right : chain.Answers known w l) : p = Blocks.reach l := by
  obtain ⟨front, back, rfl, rfl⟩ := (holds_of_onChain right atEnd.stands).1.exists_front
  have none := (right.nextAfter front back rfl).symm.trans atEnd.last
  cases back with
  | nil => rw [List.append_nil]
  | cons b back => cases none

theorem atEnd_of_nextUpdate (unfailing : chain.Unfailing known w) {s s' : Server}
    (readable : Readable chain s.flavor w) (given : ∀ p ∈ s.sent, known p)
    (placed : s.lastSent ≠ none) {r : Except ChainError (Option Message)} {v : σ}
    (sought : nextUpdate chain s w = (r, s', v)) (none : ∀ m, r ≠ .ok (some m)) :
    s' = s ∧ v = w ∧ ∃ p, AtEnd chain w s p := by
  have outcome := nextUpdate_outcome chain s w
  rw [sought] at outcome
  cases outcome with
  | unplaced unset => exact absurd unset placed
  | unsure reached failed =>
    rcases stands_or_gone unfailing (given _ (List.mem_of_getLast? reached)) with ran | ran
    · cases failed.symm.trans ran
    · cases failed.symm.trans ran
  | interrupted _ off broken =>
    obtain ⟨rfl, -⟩ := gone_of_onChain unfailing off
    refine absurd broken (dropOffChain_unfailing unfailing fun p member => ?_)
    exact given p (List.mem_reverse.mp member)
  | unread reached on _ failed =>
    obtain ⟨rfl, stands⟩ := stands_of_onChain unfailing on
    rcases following_unfailing unfailing s.flavor (given _ (List.mem_of_getLast? reached)) with
      ⟨-, found⟩ | ⟨next, r, -, after, read, found⟩
    · cases failed.symm.trans found
    · obtain ⟨content, reads⟩ := readable _ next stands after
      cases read.symm.trans reads
      cases failed.symm.trans found
  | atTip reached on settled top =>
    obtain ⟨rfl, stands⟩ := stands_of_onChain unfailing on
    rcases following_unfailing unfailing s.flavor (given _ (List.mem_of_getLast? reached)) with
      ⟨last, found⟩ | ⟨next, r, -, after, read, found⟩
    · cases top.symm.trans found
      exact ⟨rfl, rfl, _, reached, settled, stands, last⟩
    · have same := top.symm.trans found
      cases r <;> cases same
  | forked _ _ _ _ | adrift _ _ _ _ | confirmed _ _ _ _ | forward _ _ _ _ _ =>
    exact absurd rfl (none _)

inductive Notified (chain : ChainSource σ) (s : Server) (w : σ) (r : Server × σ) : Prop
  | woken {m : Message} (updates : m.updates = true) (said : r.1.replies = s.replies ++ [m])
      (content : r.1.tipWaiting = false)
  | atEnd {p : Point} (atEnd : AtEnd chain w s p)
      (top : ∀ known l, chain.Answers known w l → p = Blocks.reach l) (same : r = (s, w))

theorem notified (unfailing : chain.Unfailing known w) {s : Server}
    (readable : Readable chain s.flavor w) (given : ∀ p ∈ s.sent, known p)
    (placed : s.lastSent ≠ none) (waits : s.tipWaiting = true) (turn : s.hasAgency = true) :
    Notified chain s w (notifyNewBlock chain s w) := by
  have both : (s.tipWaiting && s.hasAgency) = true := by rw [waits, turn]; rfl
  rw [notifyNewBlock, if_pos both]
  split
  · rename_i m s' v sought
    obtain ⟨-, -, kept⟩ := frame_of_nextUpdate sought
    exact .woken (updates_of_nextUpdate sought) (congrArg (· ++ [m]) kept) rfl
  · rename_i r s' v none sought
    obtain ⟨rfl, rfl, p, atEnd⟩ := atEnd_of_nextUpdate unfailing readable given placed sought none
    exact .atEnd atEnd (fun _ _ right => atEnd.eq_reach right) rfl

/-- A server that makes its client wait has the turn and knows where the client is. A
notification then queues one update, or finds the client where the chain ends; to a server that
makes nobody wait it does nothing. There is at most one update for each request, and one that
is pushed leaves after the promise. -/
theorem wakes_once (chain : ChainSource σ) {flavor : Flavor} {window : Nat} {w₀ : σ}
    {log : List (Entry σ Server Message Empty)} {t : Handle Server × σ}
    (recorded : (conduct chain).Recorded (.new (.new flavor window), w₀) log t) :
    (t.1.agent.tipWaiting = true → t.1.agent.hasAgency = true ∧
      (t.1.agent.state = .canAwait ∨ t.1.agent.state = .mustReply) ∧ t.1.agent.lastSent ≠ none) ∧
    (∀ known : Point → Prop, (∀ e ∈ log, chain.Unfailing known e.world) →
      chain.Unfailing known t.2 → Readable chain t.1.agent.flavor t.2 →
      t.1.agent.tipWaiting = true →
      Notified chain t.1.agent t.2 (notifyNewBlock chain t.1.agent t.2)) ∧
    (t.1.agent.tipWaiting = false →
      ∀ w, notifyNewBlock chain t.1.agent w = (t.1.agent, w)) ∧
    owedUpdates (log.map (·.note)) t.1.agent ≤ (log.map (·.note)).countP requests ∧
    Answering (delivered (Conduct.since (log.map (·.note))) ++ t.1.agent.replies) ∧
    (t.1.agent.tipWaiting = true →
      delivered (Conduct.since (log.map (·.note))) ++ t.1.agent.replies = [.awaitReply]) := by
  obtain ⟨⟨due, own⟩, wakes⟩ := wakes_of_run recorded.run
  have awaits : t.1.agent.tipWaiting = true →
      t.1.agent.state = .canAwait ∨ t.1.agent.state = .mustReply := fun waits =>
    (due.sane waits).imp And.left And.left
  have turn : t.1.agent.tipWaiting = true → t.1.agent.hasAgency = true := fun waits => by
    rcases awaits waits with at_ | at_ <;> simp [hasAgency, at_, State.agency]
  rw [← own]
  refine ⟨fun waits => ⟨turn waits, awaits waits, wakes.placed waits⟩, ?_, ?_, wakes.paid,
    wakes.answering, wakes.promised⟩
  · intro known always now readable waits
    exact notified now readable (known_recorded recorded always) (wakes.placed waits) waits
      (turn waits)
  · intro content w
    rw [notifyNewBlock, content]
    rfl

open Moment (lower rival)

def parked (later : List (Conduct.Deed Moment Message)) :
    List (Entry Moment Server Message Empty) × Handle Server × Moment :=
  (conduct (ChainStore.among reorganised)).follow (.new (.new .headers 4), .grown)
    (opening lower.point ++ .take .requestNext :: later)

theorem recorded_parked (later : List (Conduct.Deed Moment Message)) :
    (conduct (ChainStore.among reorganised)).Recorded (.new (.new .headers 4), .grown)
      (parked later).1 (parked later).2 :=
  Conduct.recorded_follow _ _

theorem readable_reorganised (m : Moment) :
    Readable (ChainStore.among reorganised) .headers m :=
  readable_of_answers (sound_reorganised m).answers.among fun b member =>
    (serves_reorganised m b member).imp fun _ => And.left

/-- A client waits at the second of two blocks, which is then replaced. It is rolled back, and
another notification does nothing. -/
theorem wakes_once_replaced :
    ((parked [.change .replaced]).2.1.agent.tipWaiting = true ∧
      Notified (ChainStore.among reorganised) (parked [.change .replaced]).2.1.agent
        (parked [.change .replaced]).2.2
        (notifyNewBlock (ChainStore.among reorganised) (parked [.change .replaced]).2.1.agent
          (parked [.change .replaced]).2.2)) ∧
    ((parked [.change .replaced, .ask .notifyNewBlock]).2.1.agent.replies =
        [.awaitReply, .rollBackward lower.point rival.tip] ∧
      ∀ m, notifyNewBlock (ChainStore.among reorganised)
          (parked [.change .replaced, .ask .notifyNewBlock]).2.1.agent m =
        ((parked [.change .replaced, .ask .notifyNewBlock]).2.1.agent, m)) := by
  obtain ⟨waits, flavor, replies, content⟩ :
      (parked [.change .replaced]).2.1.agent.tipWaiting = true ∧
      (parked [.change .replaced]).2.1.agent.flavor = .headers ∧
      (parked [.change .replaced, .ask .notifyNewBlock]).2.1.agent.replies =
        [.awaitReply, .rollBackward lower.point rival.tip] ∧
      (parked [.change .replaced, .ask .notifyNewBlock]).2.1.agent.tipWaiting = false := by
    decide +kernel
  obtain ⟨-, woken, -⟩ := wakes_once (ChainStore.among reorganised)
    (recorded_parked [.change .replaced])
  obtain ⟨-, -, silent, -⟩ := wakes_once (ChainStore.among reorganised)
    (recorded_parked [.change .replaced, .ask .notifyNewBlock])
  have readable : Readable (ChainStore.among reorganised)
      (parked [.change .replaced]).2.1.agent.flavor (parked [.change .replaced]).2.2 := by
    rw [flavor]
    exact readable_reorganised _
  exact ⟨⟨waits, woken _ (fun e _ => unfailing_reorganised e.world) (unfailing_reorganised _)
    readable waits⟩, replies, silent content⟩

end ChainRelay.ChainSync.Server
