import ChainRelay.Proofs.Protocol.Conducts
import ChainRelay.Proofs.Protocol.Record

/-! All that can come of a step of a chain-sync server, over a chain that may answer
anything. Every search for an update ends in one of a few ways, and every step of the server
is one of a few turns. -/
namespace ChainRelay.ChainSync

/-- The message neither says nor changes where the client is. -/
def Message.idles : Message → Bool
  | .awaitReply | .intersectNotFound _ => true
  | _ => false

theorem Message.goal_of_idles {m : Message} (idle : m.idles = true) : m.goal = none := by
  cases m with
  | awaitReply | intersectNotFound _ => rfl
  | _ => cases idle

theorem foldl_append_idles {β : Type} {f : β → Message → β}
    (still : ∀ b m, m.idles = true → f b m = b) {said quiet : List Message}
    (idle : ∀ m ∈ quiet, m.idles = true) (b : β) : (said ++ quiet).foldl f b = said.foldl f b := by
  rw [List.foldl_append]
  generalize said.foldl f b = b
  induction quiet with
  | nil => rfl
  | cons m quiet ih =>
    rw [List.foldl_cons, still b m (idle m (by simp))]
    exact ih fun n later => idle n (by simp [later])

namespace Server

variable {σ : Type} (chain : ChainSource σ)

/-- How the search for an update ends: what is answered, what the server is then, and the
world. -/
inductive Outcome (s : Server) (w : σ) : Except ChainError (Option Message) × Server × σ → Prop
  | unplaced (unset : s.lastSent = none) : Outcome s w (.ok none, s, w)
  | unsure {last : Point} {e : ChainError} {v : σ} (reached : s.lastSent = some last)
      (failed : (onChain chain last).run w = (.error e, v)) : Outcome s w (.error e, s, v)
  /-- the search for a point to go back to breaks off on its way -/
  | interrupted {last : Point} {e : ChainError} {kept : List Point} {u v : σ}
      (reached : s.lastSent = some last) (off : (onChain chain last).run w = (.ok false, u))
      (failed : dropOffChain chain s.sent.reverse u = (.error e, kept, v)) :
      Outcome s w (.error e, { s with sent := kept.reverse, owesRollback := false }, v)
  | forked {last p : Point} {older : List Point} {t : Tip} {u v x : σ}
      (reached : s.lastSent = some last) (off : (onChain chain last).run w = (.ok false, u))
      (dropped : dropOffChain chain s.sent.reverse u = (.ok (), p :: older, v))
      (told : tip chain v = (t, x)) :
      Outcome s w (.ok (some (.rollBackward p t)),
        { s with sent := (p :: older).reverse, owesRollback := false }, x)
  | adrift {last : Point} {t : Tip} {u v x : σ}
      (reached : s.lastSent = some last) (off : (onChain chain last).run w = (.ok false, u))
      (dropped : dropOffChain chain s.sent.reverse u = (.ok (), [], v))
      (told : tip chain v = (t, x)) :
      Outcome s w (.ok (some (.rollBackward .origin t)),
        { s with sent := [.origin], owesRollback := false }, x)
  | confirmed {last : Point} {t : Tip} {u v : σ} (reached : s.lastSent = some last)
      (on : (onChain chain last).run w = (.ok true, u)) (owes : s.owesRollback = true)
      (told : tip chain u = (t, v)) :
      Outcome s w (.ok (some (.rollBackward last t)), { s with owesRollback := false }, v)
  | unread {last : Point} {e : ChainError} {u v : σ} (reached : s.lastSent = some last)
      (on : (onChain chain last).run w = (.ok true, u)) (settled : s.owesRollback = false)
      (failed : (following chain s.flavor last).run u = (.error e, v)) :
      Outcome s w (.error e, s, v)
  | atTip {last : Point} {u v : σ} (reached : s.lastSent = some last)
      (on : (onChain chain last).run w = (.ok true, u)) (settled : s.owesRollback = false)
      (top : (following chain s.flavor last).run u = (.ok none, v)) : Outcome s w (.ok none, s, v)
  | forward {last next : Point} {content : HeaderContent} {t : Tip} {u v x : σ}
      (reached : s.lastSent = some last) (on : (onChain chain last).run w = (.ok true, u))
      (settled : s.owesRollback = false)
      (found : (following chain s.flavor last).run u = (.ok (some (next, content)), v))
      (told : tip chain v = (t, x)) :
      Outcome s w (.ok (some (.rollForward content t)), s.record next, x)

theorem nextUpdate_outcome (s : Server) (w : σ) : Outcome chain s w (nextUpdate chain s w) := by
  unfold nextUpdate
  split
  · rename_i unset
    exact .unplaced unset
  · rename_i last reached
    split
    · rename_i failed
      exact .unsure reached failed
    · rename_i u off
      simp only [commonAncestor]
      split
      · rename_i searched
        split at searched
        · rename_i failed
          cases searched
          exact .interrupted reached off failed
        · cases searched
        · cases searched
      · rename_i searched
        split at searched
        · cases searched
        · rename_i dropped
          cases searched
          exact .forked reached off dropped rfl
        · rename_i dropped
          cases searched
          exact .adrift reached off dropped rfl
    · rename_i u on
      split
      · rename_i owes
        exact .confirmed reached on owes rfl
      · rename_i settled
        have settled := Bool.eq_false_iff.mpr settled
        split
        · rename_i failed
          exact .unread reached on settled failed
        · rename_i top
          exact .atTip reached on settled top
        · rename_i found
          exact .forward reached on settled found rfl

/-! ### Turns -/

/-- What a step makes of the server and the world, and what is noted of it. -/
inductive Turn (s : Server) (w : σ) : List (Note Message Empty) → Server × σ → Prop
  | rest (w' : σ) : Turn s w [] (s, w')
  | called : Turn s w [.called []] (s, w)
  | ignored {r : Request} (other : r ≠ .notifyNewBlock) : Turn s w [.asked r] (s, w)
  | content (none : (s.tipWaiting && s.hasAgency) = false) :
      Turn s w [.asked .notifyNewBlock] (s, w)
  | missed {r : Except ChainError (Option Message)} {s' : Server} {v : σ}
      (waits : s.tipWaiting = true) (turn : s.hasAgency = true)
      (sought : nextUpdate chain s w = (r, s', v)) (none : ∀ m, r ≠ .ok (some m)) :
      Turn s w [.asked .notifyNewBlock] (s', v)
  | pushed {m : Message} {s' : Server} {v : σ}
      (waits : s.tipWaiting = true) (turn : s.hasAgency = true)
      (sought : nextUpdate chain s w = (.ok (some m), s', v)) :
      Turn s w [.asked .notifyNewBlock, .queued m] ({ s' with tipWaiting := false }.enqueue m, v)
  | finished (idle : s.state = .idle) : Turn s w [.taken .done] ({ s with state := .done }, w)
  | found {points : List Point} {p : Point} {t : Tip} {u v : σ} (idle : s.state = .idle)
      (first : firstContained chain points w = (some p, u)) (told : tip chain u = (t, v)) :
      Turn s w [.taken (.findIntersect points), .queued (.intersectFound p t)]
        ({ s with
          state := .intersect, sent := [p], owesRollback := true, tipWaiting := false }.enqueue
            (.intersectFound p t), v)
  | lost {points : List Point} {t : Tip} {u v : σ} (idle : s.state = .idle)
      (none : firstContained chain points w = (none, u)) (told : tip chain u = (t, v)) :
      Turn s w [.taken (.findIntersect points), .queued (.intersectNotFound t)]
        ({ s with state := .intersect }.enqueue (.intersectNotFound t), v)
  | early (idle : s.state = .idle) (unset : s.lastSent = none) :
      Turn s w [.taken .requestNext, .queued .awaitReply]
        ({ s with state := .canAwait }.enqueue .awaitReply, w)
  | parked {r : Except ChainError (Option Message)} {s' : Server} {v : σ} (idle : s.state = .idle)
      (set : s.lastSent ≠ none)
      (sought : nextUpdate chain { s with state := .canAwait } w = (r, s', v))
      (none : ∀ m, r ≠ .ok (some m)) :
      Turn s w [.taken .requestNext, .queued .awaitReply]
        ({ s' with tipWaiting := true }.enqueue .awaitReply, v)
  | answered {m : Message} {s' : Server} {v : σ} (idle : s.state = .idle) (set : s.lastSent ≠ none)
      (sought : nextUpdate chain { s with state := .canAwait } w = (.ok (some m), s', v)) :
      Turn s w [.taken .requestNext, .queued m] (s'.enqueue m, v)
  | given {m : Message} {next : State} {rest : List Message} (packet : Option Packet)
      (waiting : s.replies = m :: rest) (moved : s.state.move m = some next) :
      Turn s w [.given m packet] ({ s with state := next, replies := rest }, w)
  | reset : Turn s w [.reset] ((kind chain).reset s, w)

variable {chain}

theorem frame_of_nextUpdate {s s' : Server} {w v : σ} {r : Except ChainError (Option Message)}
    (sought : nextUpdate chain s w = (r, s', v)) :
    s'.window = s.window ∧ s'.tipWaiting = s.tipWaiting ∧ s'.replies = s.replies := by
  obtain ⟨sent, owesRollback, frame⟩ := nextUpdate_frame chain s w
  rw [sought] at frame
  have same : s' = { s with sent, owesRollback } := frame
  rw [same]
  exact ⟨rfl, rfl, rfl⟩

variable (chain) in
def Turns (s : Server) (w : σ) (cause : Note Message Empty) (r : Server × σ) : Prop :=
  ∃ said, r.1.replies = s.replies ++ said ∧ Turn chain s w (cause :: said.map .queued) r

theorem Turns.turn {s : Server} {w : σ} {cause : Note Message Empty} {r : Server × σ}
    (turns : Turns chain s w cause r) :
    Turn chain s w (cause :: (conduct chain).grown s r.1) r := by
  obtain ⟨said, added, turn⟩ := turns
  have grown : (conduct chain).grown s r.1 = said.map .queued := by
    simp [Conduct.grown, conduct, added]
  rw [grown]
  exact turn

theorem turns_notified (s : Server) (w : σ) :
    Turns chain s w (.asked .notifyNewBlock) (notifyNewBlock chain s w) := by
  unfold notifyNewBlock
  split
  · rename_i both
    obtain ⟨waits, turn⟩ := Bool.and_eq_true_iff.mp both
    split
    · rename_i m s' v sought
      obtain ⟨-, -, kept⟩ := frame_of_nextUpdate sought
      exact ⟨[m], by rw [← kept]; rfl, .pushed waits turn sought⟩
    · rename_i r s' v none sought
      obtain ⟨-, -, kept⟩ := frame_of_nextUpdate sought
      exact ⟨[], by rw [List.append_nil, ← kept], .missed waits turn sought none⟩
  · rename_i none
    exact ⟨[], (List.append_nil _).symm, .content (Bool.eq_false_iff.mpr none)⟩

theorem turns_asked {s : Server} (w : σ) (idle : s.state = .idle) :
    Turns chain s w (.taken .requestNext)
      (received chain .requestNext { s with state := .canAwait } w) := by
  simp only [received, requestNext]
  split
  · rename_i unset
    exact ⟨[.awaitReply], rfl, .early idle (Option.isNone_iff_eq_none.mp unset)⟩
  · rename_i set
    have set : s.lastSent ≠ none := fun unset => set (Option.isNone_iff_eq_none.mpr unset)
    split
    · rename_i m s' v sought
      obtain ⟨-, -, kept⟩ := frame_of_nextUpdate sought
      change s'.replies = s.replies at kept
      exact ⟨[m], by rw [← kept]; rfl, .answered idle set sought⟩
    · rename_i r s' v none sought
      obtain ⟨-, -, kept⟩ := frame_of_nextUpdate sought
      change s'.replies = s.replies at kept
      exact ⟨[.awaitReply], by rw [← kept]; rfl, .parked idle set sought none⟩

theorem turns_searched {s : Server} (points : List Point) (w : σ) (idle : s.state = .idle) :
    Turns chain s w (.taken (.findIntersect points))
      (received chain (.findIntersect points) { s with state := .intersect } w) := by
  simp only [received, findIntersect]
  split
  · rename_i p u first
    exact ⟨[.intersectFound p _], rfl, .found idle first rfl⟩
  · rename_i u none
    exact ⟨[.intersectNotFound _], rfl, .lost idle none rfl⟩

theorem turn_of_act {s : Server} {w : σ} {notes : List (Note Message Empty)} {r : Server × σ}
    (act : (conduct chain).Act s w notes r) : Turn chain s w notes r := by
  cases act with
  | rest w' => exact .rest w'
  | ask r =>
    cases r with
    | notifyNewBlock => exact (turns_notified s w).turn
    | _ => exact Turns.turn ⟨[], (List.append_nil _).symm, .ignored nofun⟩
  | @take m next live lacks moved =>
    change Role.server.holds s.state.agency = false at lacks
    change s.state.move m = some next at moved
    cases at_ : s.state with
    | idle =>
      rw [at_] at moved
      cases m with
      | requestNext =>
        cases moved
        exact (turns_asked w at_).turn
      | findIntersect points =>
        cases moved
        exact (turns_searched points w at_).turn
      | done =>
        cases moved
        exact Turns.turn ⟨[], (List.append_nil _).symm, .finished at_⟩
      | _ => cases moved
    | done =>
      rw [at_] at moved
      cases m <;> cases moved
    | intersect | canAwait | mustReply => simp [at_, State.agency, Role.holds] at lacks
  | @give m next packet turn made moved =>
    obtain ⟨rest, waiting⟩ := List.head?_eq_some_iff.mp (head?_of_produce made)
    have tail : s.replies.tail = rest := by rw [waiting, List.tail_cons]
    have given : Turn chain s w [.given m packet]
        ({ s with state := next, replies := s.replies.tail }, w) := by
      rw [tail]
      exact .given packet waiting moved
    exact given
  | call => exact .called
  | reset => exact .reset

theorem Turn.rolledBack {s : Server} {w : σ} {notes : List (Note Message Empty)} {r : Server × σ}
    (turn : Turn chain s w notes r) {p : Point} {t : Tip}
    (answer : .queued (.rollBackward p t) ∈ notes) :
    ∃ state s' v,
      nextUpdate chain { s with state } w = (.ok (some (.rollBackward p t)), s', v) := by
  cases turn with
  | @pushed m _ _ _ _ sought | @answered m _ _ _ _ sought =>
    obtain rfl : Message.rollBackward p t = m := by simpa using answer
    exact ⟨_, _, _, sought⟩
  | _ => simp at answer

/-! ### The position of the client -/

def seeks (s : Server) : Note Message Empty → Bool
  | .taken .requestNext => true
  | .asked .notifyNewBlock => s.tipWaiting && s.hasAgency
  | _ => false

variable (chain) in
/-- What a step makes of all that concerns the position of the client. -/
inductive Shift (s : Server) (w : σ) (notes : List (Note Message Empty)) : Server → Prop
  | stays (on : ∀ n ∈ notes, n.isReset = false)
      (quiet : ∀ m ∈ notes.filterMap Note.queued?, m.idles = true) : Shift s w notes s
  | begins {points : List Point} {p : Point} {t : Tip} {v : σ}
      (on : ∀ n ∈ notes, n.isReset = false)
      (said : notes.filterMap Note.queued? = [.intersectFound p t])
      (first : firstContained chain points w = (some p, v)) :
      Shift s w notes { s with sent := [p], owesRollback := true }
  | fails {state : State} {s' : Server} {v : σ} {r : Except ChainError (Option Message)}
      (on : ∀ n ∈ notes, n.isReset = false)
      (quiet : ∀ m ∈ notes.filterMap Note.queued?, m.idles = true)
      (asks : ∃ n ∈ notes, s.seeks n = true)
      (sought : nextUpdate chain { s with state } w = (r, s', v)) (none : ∀ m, r ≠ .ok (some m)) :
      Shift s w notes s'
  | moves {m : Message} {state : State} {s' : Server} {v : σ}
      (on : ∀ n ∈ notes, n.isReset = false) (said : notes.filterMap Note.queued? = [m])
      (asks : ∃ n ∈ notes, s.seeks n = true)
      (sought : nextUpdate chain { s with state } w = (.ok (some m), s', v)) : Shift s w notes s'
  | resets (cut : notes = [.reset]) : Shift s w notes { s with sent := [], owesRollback := false }

theorem Turn.shift {s : Server} {w : σ} {notes : List (Note Message Empty)} {r : Server × σ}
    (turn : Turn chain s w notes r) :
    ∃ s' state tipWaiting replies, Shift chain s w notes s' ∧
      r.1 = { s' with state, tipWaiting, replies } := by
  cases turn with
  | rest _ | called | ignored _ | content _ | finished _ | given _ _ _ | lost _ _ _ | early _ _ =>
    exact ⟨s, _, _, _, .stays (by simp [Note.isReset]) (by simp [Message.idles]), rfl⟩
  | missed waits turn sought none =>
    exact ⟨_, _, _, _, .fails (by simp [Note.isReset]) (List.forall_mem_nil _)
      ⟨_, List.mem_cons_self, by simp [seeks, waits, turn]⟩ sought none, rfl⟩
  | pushed waits turn sought =>
    exact ⟨_, _, _, _, .moves (by simp [Note.isReset]) rfl
      ⟨_, List.mem_cons_self, by simp [seeks, waits, turn]⟩ sought, rfl⟩
  | found idle first told => exact ⟨_, _, _, _, .begins (by simp [Note.isReset]) rfl first, rfl⟩
  | parked idle set sought none =>
    exact ⟨_, _, _, _, .fails (by simp [Note.isReset]) (by simp [Message.idles])
      ⟨_, List.mem_cons_self, rfl⟩ sought none, rfl⟩
  | answered idle set sought =>
    exact ⟨_, _, _, _, .moves (by simp [Note.isReset]) rfl ⟨_, List.mem_cons_self, rfl⟩ sought, rfl⟩
  | reset => exact ⟨_, _, _, _, .resets rfl, rfl⟩

/-- Induction on a run, for what depends on the position of the client alone. -/
theorem upheld {I : List (Entry σ Server Message Empty) → Server → Prop}
    {Fair : Entry σ Server Message Empty → Prop} {log : List (Entry σ Server Message Empty)}
    {s t : Handle Server × σ} (recorded : (conduct chain).Recorded s log t)
    (fair : ∀ e ∈ log, Fair e) (start : I [] s.1.agent)
    (place : ∀ {log s} state tipWaiting replies, I log s →
      I log { s with state, tipWaiting, replies })
    (shift : ∀ {log s w notes s'}, I log s → Shift chain s w notes s' → notes ≠ [] →
      (∀ e ∈ Conduct.entries s w notes, Fair e) → I (log ++ Conduct.entries s w notes) s') :
    I log t.1.agent := by
  refine recorded.keeps fair start fun {log s w notes r} before act fair => ?_
  cases notes with
  | nil =>
    cases act
    rw [Conduct.entries_nil, List.append_nil]
    exact before
  | cons n notes =>
    obtain ⟨s', state, tipWaiting, replies, shifted, same⟩ := (turn_of_act act).shift
    rw [same]
    exact place state tipWaiting replies (shift before shifted (List.cons_ne_nil n notes) fair)

end Server
end ChainRelay.ChainSync
