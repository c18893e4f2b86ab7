import ChainRelay.Proofs.ChainSync.Lookups

/-! What failing lookups do to the position that a server has of its client. An update that
cannot be found leaves the server as it was, unless it is the search for a point to go back to
that breaks off on its way: that one has dropped points, and has forgotten that a roll back
was owed. -/
namespace ChainRelay

variable {σ : Type}

/-! ### Lookups that may fail -/

/-- The question fails if the schedule says so; each call takes one word of it. -/
def Lookup.flaky {α : Type} (question : Lookup σ α) : Lookup (σ × List Bool) α
  | (w, true :: later) => (.error (.unavailable "down"), w, later)
  | (w, schedule) => ((question.run w).1, (question.run w).2, schedule.tail)

def ChainSource.flaky (chain : ChainSource σ) : ChainSource (σ × List Bool) where
  hasPoint p := (chain.hasPoint p).flaky
  nextAfter p := (chain.nextAfter p).flaky
  header hash := (chain.header hash).flaky
  body hash := (chain.body hash).flaky
  tip := chain.tip.flaky

theorem Lookup.flaky_run_eq_ok {α : Type} {question : Lookup σ α} {x y : σ × List Bool} {a : α}
    (answered : question.flaky.run x = (.ok a, y)) : question.run x.1 = (.ok a, y.1) := by
  obtain ⟨w, schedule⟩ := x
  match schedule with
  | true :: later => cases answered
  | false :: later | [] =>
    have result : (question.run w).1 = .ok a := congrArg Prod.fst answered
    have world : (question.run w).2 = y.1 := congrArg (·.2.1) answered
    exact Prod.ext result world

namespace ChainSync

def confirming (due : Bool) : Message → Bool
  | .intersectFound _ _ => true
  | .rollBackward _ _ => false
  | _ => due

def unconfirmed (said : List Message) : Bool := said.foldl confirming false

theorem heading_append_idles {said quiet : List Message} (idle : ∀ m ∈ quiet, m.idles = true) :
    heading none (said ++ quiet) = heading none said := by
  refine foldl_append_idles (fun cursor m still => ?_) idle none
  rw [Message.goal_of_idles still, Option.none_or]

theorem unconfirmed_append_idles {said quiet : List Message} (idle : ∀ m ∈ quiet, m.idles = true) :
    unconfirmed (said ++ quiet) = unconfirmed said := by
  refine foldl_append_idles (fun due m still => ?_) idle false
  cases m with
  | awaitReply | intersectNotFound _ => rfl
  | _ => cases still

theorem heading_concat (said : List Message) (m : Message) :
    heading none (said ++ [m]) = m.goal.or (heading none said) := by
  simp [heading]

theorem unconfirmed_concat (said : List Message) (m : Message) :
    unconfirmed (said ++ [m]) = confirming (unconfirmed said) m := by
  simp [unconfirmed]

namespace Server

variable (chain : ChainSource σ)

/-- The point given last is off the chain, and the search for one to go back to breaks off. -/
def interrupted (s : Server) (w : σ) : Bool :=
  match s.lastSent with
  | none => false
  | some last =>
    match (onChain chain last).run w with
    | (.ok false, u) =>
      match dropOffChain chain s.sent.reverse u with
      | (.error _, _) => true
      | _ => false
    | _ => false

/-- From `w` on, these points can be looked up. -/
def Answered (points : List Point) (w : σ) : Prop :=
  ∃ Up : σ → Prop, Up w ∧
    ∀ v, Up v → ∀ p ∈ points, ∃ here u, (onChain chain p).run v = (.ok here, u) ∧ Up u

variable {chain} {s : Server} {w : σ}

/-! ### One search -/

/-- A search that fails changes nothing, unless it is interrupted. Then it leaves some of the
points, oldest first, and no roll back owed. -/
theorem nextUpdate_error {e : ChainError} {s' : Server} {v : σ}
    (failed : nextUpdate chain s w = (.error e, s', v)) :
    s' = s ∨ interrupted chain s w = true ∧ s'.owesRollback = false ∧ s'.sent ≠ [] ∧
      s'.sent <+: s.sent := by
  have outcome := nextUpdate_outcome chain s w
  rw [failed] at outcome
  cases outcome with
  | unsure _ _ | unread _ _ _ _ => exact .inl rfl
  | interrupted reached off broken =>
    refine .inr ⟨by simp [interrupted, reached, off, broken], rfl, ?_, prefix_of_dropped broken⟩
    simpa using ne_nil_of_broken broken

theorem eq_of_nextUpdate {r : Except ChainError (Option Message)} {s' : Server} {v : σ}
    (sought : nextUpdate chain s w = (r, s', v)) (none : ∀ m, r ≠ .ok (some m))
    (whole : interrupted chain s w = false) : s' = s := by
  cases r with
  | error e =>
    rcases nextUpdate_error sought with same | ⟨broken, -⟩
    · exact same
    · rw [whole] at broken
      cases broken
  | ok update =>
    have outcome := nextUpdate_outcome chain s w
    rw [sought] at outcome
    cases outcome with
    | unplaced _ | atTip _ _ _ _ => rfl
    | forked _ _ _ _ | adrift _ _ _ _ | confirmed _ _ _ _ | forward _ _ _ _ _ =>
      exact absurd rfl (none _)

def RollsBack (chain : ChainSource σ) (s : Server) (w : σ) : Prop :=
  ∃ p, RollsBackTo chain s w p

theorem rollsBack_of_due {last : Point} (reached : s.lastSent = some last)
    (answered : Answered chain s.sent w)
    (due : (∃ u, (onChain chain last).run w = (.ok false, u)) ∨ s.owesRollback = true) :
    RollsBack chain s w := by
  obtain ⟨Up, up, answers⟩ := answered
  have placed : s.lastSent ≠ none := by
    rw [reached]
    nofun
  obtain ⟨here, u, ran, still⟩ := answers w up last (List.mem_of_getLast? reached)
  -- what settles the debt elsewhere would be that the point is on the chain
  have owed : ∀ {x : σ}, (onChain chain last).run w = (.ok true, x) → s.owesRollback = true := by
    intro x on
    rcases due with ⟨y, off⟩ | owes
    · cases on.symm.trans off
    · exact owes
  generalize sought : nextUpdate chain s w = found
  have outcome := nextUpdate_outcome chain s w
  rw [sought] at outcome
  cases outcome with
  | unplaced unset => exact absurd unset placed
  | unsure reached' failed =>
    cases reached.symm.trans reached'
    cases ran.symm.trans failed
  | interrupted reached' off broken =>
    cases reached.symm.trans reached'
    cases ran.symm.trans off
    refine absurd broken (dropOffChain_answered (fun v up p member => ?_) still)
    exact answers v up p (List.mem_reverse.mp member)
  | forked _ _ _ _ => exact ⟨_, rollsBackTo_of_nextUpdate placed (by simp [lastSent]) sought⟩
  | adrift _ _ _ _ => exact ⟨_, rollsBackTo_of_nextUpdate placed rfl sought⟩
  | @confirmed last' _ _ _ reached' _ _ _ =>
    have led : lastSent { s with owesRollback := false } = some last' := reached'
    exact ⟨_, rollsBackTo_of_nextUpdate placed led sought⟩
  | unread reached' on settled _ | atTip reached' on settled _ | forward reached' on settled _ _ =>
    cases reached.symm.trans reached'
    rw [owed on] at settled
    cases settled

/-! ### Calls that fail -/

theorem onChain_flaky {p : Point} {x y : σ × List Bool} {here : Bool}
    (answered : (onChain chain.flaky p).run x = (.ok here, y)) :
    (onChain chain p).run x.1 = (.ok here, y.1) := by
  unfold onChain at answered ⊢
  cases start : p.isOrigin with
  | true =>
    rw [start] at answered
    cases answered
    rfl
  | false =>
    rw [start] at answered
    exact Lookup.flaky_run_eq_ok answered

theorem contentAt_flaky {flavor : Flavor} {p : Point} {x y : σ × List Bool}
    {content : HeaderContent} (answered : (contentAt chain.flaky flavor p).run x = (.ok content, y)) :
    (contentAt chain flavor p).run x.1 = (.ok content, y.1) := by
  obtain ⟨slot, hash⟩ := p
  cases hash with
  | none => cases answered
  | some hash =>
    cases flavor with
    | headers =>
      obtain ⟨stored, u, asked, rest⟩ := Lookup.run_bind_eq_ok.mp answered
      refine Lookup.run_bind_eq_ok.mpr ⟨stored, u.1, Lookup.flaky_run_eq_ok asked, ?_⟩
      cases stored with
      | none => cases rest
      | some b =>
        simp only at rest ⊢
        split at rest
        · cases rest
          rfl
        · cases rest
    | blocks =>
      obtain ⟨stored, u, asked, rest⟩ := Lookup.run_bind_eq_ok.mp answered
      refine Lookup.run_bind_eq_ok.mpr ⟨stored, u.1, Lookup.flaky_run_eq_ok asked, ?_⟩
      cases stored with
      | none => cases rest
      | some b =>
        cases rest
        rfl

theorem Truthful.flaky {flavor : Flavor} {x : σ × List Bool}
    (truthful : Truthful chain flavor x.1) : Truthful chain.flaky flavor x := by
  intro last u next content v on found
  obtain ⟨after, y, asked, rest⟩ := Lookup.run_bind_eq_ok.mp found
  cases after with
  | none => cases rest
  | some q =>
    obtain ⟨read, z, told, same⟩ := Lookup.run_bind_eq_ok.mp rest
    cases same
    have calm : (following chain flavor last).run u.1 = (.ok (some (next, content)), v.1) :=
      Lookup.run_bind_eq_ok.mpr ⟨some next, y.1, Lookup.flaky_run_eq_ok asked,
        Lookup.run_bind_eq_ok.mpr ⟨content, v.1, contentAt_flaky told, rfl⟩⟩
    exact truthful last u.1 next content v.1 (onChain_flaky on) calm

theorem onChain_flaky_calm {p : Point} {r : Except ChainError Bool} {v : σ}
    (ran : (onChain chain p).run w = (r, v)) :
    (onChain chain.flaky p).run (w, []) = (r, v, []) := by
  unfold onChain at ran ⊢
  cases start : p.isOrigin with
  | true =>
    rw [start] at ran
    cases ran
    rfl
  | false =>
    rw [start] at ran
    exact congrArg (fun answer => (answer.1, answer.2, [])) ran

theorem answered_flaky {known : Point → Prop} {l : List StoredBlock} {points : List Point}
    (right : chain.Answers known w l) (given : ∀ p ∈ points, p = .origin ∨ known p) :
    Answered chain.flaky points (w, []) := by
  refine ⟨(· = (w, [])), rfl, ?_⟩
  rintro v rfl p member
  rcases onChain_run right (given p member) with ⟨-, ran⟩ | ⟨-, ran⟩
  · exact ⟨true, (w, []), onChain_flaky_calm ran, rfl⟩
  · exact ⟨false, (w, []), onChain_flaky_calm ran, rfl⟩

/-! ### A run -/

structure Tracks (said : List Message) (s : Server) : Prop where
  wide : 1 ≤ s.window
  position : s.lastSent = heading none said
  owes : unconfirmed said = true → s.owesRollback = true ∧ s.lastSent ≠ none

def Undisturbed (chain : ChainSource σ) (e : Entry σ Server Message Empty) : Prop :=
  e.agent.seeks e.note = true →
    interrupted chain e.agent e.world = false ∧ Truthful chain e.agent.flavor e.world

theorem Tracks.place {said : List Message} (tracks : Tracks said s) (state : State)
    (tipWaiting : Bool) (replies : List Message) :
    Tracks said { s with state, tipWaiting, replies } :=
  ⟨tracks.wide, tracks.position, tracks.owes⟩

theorem Tracks.idles {said quiet : List Message} (tracks : Tracks said s)
    (idle : ∀ m ∈ quiet, m.idles = true) : Tracks (said ++ quiet) s := by
  refine ⟨tracks.wide, ?_, ?_⟩
  · rw [heading_append_idles idle]
    exact tracks.position
  · rw [unconfirmed_append_idles idle]
    exact tracks.owes

theorem Tracks.moves {said : List Message} {m : Message} {s' : Server} {v : σ}
    (tracks : Tracks said s) (truthful : Truthful chain s.flavor w)
    (sought : nextUpdate chain s w = (.ok (some m), s', v)) : Tracks (said ++ [m]) s' := by
  have outcome := nextUpdate_outcome chain s w
  rw [sought] at outcome
  cases outcome with
  | forked _ _ _ _ =>
    refine ⟨tracks.wide, ?_, by simp [unconfirmed_concat, confirming]⟩
    simp [heading_concat, Message.goal, lastSent]
  | adrift _ _ _ _ =>
    refine ⟨tracks.wide, ?_, by simp [unconfirmed_concat, confirming]⟩
    rw [heading_concat]
    rfl
  | confirmed reached _ _ _ =>
    refine ⟨tracks.wide, ?_, by simp [unconfirmed_concat, confirming]⟩
    rw [heading_concat]
    exact reached
  | forward reached on settled found _ =>
    have point := truthful _ _ _ _ _ on found
    refine ⟨tracks.wide, ?_, fun due => ?_⟩
    · rw [heading_concat, Message.goal, point]
      exact record_getLast? tracks.wide _
    · rw [unconfirmed_concat] at due
      rw [(tracks.owes due).1] at settled
      cases settled

theorem tracks_shift {log : List (Entry σ Server Message Empty)} {notes : List (Note Message Empty)}
    {s' : Server} (tracks : Tracks (Conduct.spoken log) s) (shift : Shift chain s w notes s')
    (fair : ∀ e ∈ Conduct.entries s w notes, Undisturbed chain e) :
    Tracks (Conduct.spoken (log ++ Conduct.entries s w notes)) s' := by
  have calm : (∃ n ∈ notes, s.seeks n = true) →
      interrupted chain s w = false ∧ Truthful chain s.flavor w := by
    rintro ⟨n, member, asks⟩
    exact fair ⟨s, w, n⟩ (List.mem_map_of_mem member) asks
  cases shift with
  | stays on quiet =>
    rw [Conduct.spoken_append on]
    exact tracks.idles quiet
  | begins on said first =>
    rw [Conduct.spoken_append on, said]
    refine ⟨tracks.wide, ?_, fun _ => ⟨rfl, by simp [lastSent]⟩⟩
    simp [heading_concat, Message.goal, lastSent]
  | fails on quiet asks sought none =>
    rw [Conduct.spoken_append on, eq_of_nextUpdate sought none (calm asks).1]
    exact (tracks.idles quiet).place _ s.tipWaiting s.replies
  | @moves _ state _ _ on said asks sought =>
    rw [Conduct.spoken_append on, said]
    exact (tracks.place state s.tipWaiting s.replies).moves (calm asks).2 sought
  | resets cut =>
    rw [cut, Conduct.spoken_reset]
    refine ⟨tracks.wide, rfl, fun due => ?_⟩
    cases due

/-- As long as no search for a point to go back to is interrupted, the server's position is the
one that its replies put the client at, and a client that is off the chain, or that has not
been rolled back since the last intersection, is rolled back next, once lookups succeed. A
search that fails for another reason changes nothing; one that is interrupted leaves some
of the points, oldest first, and no roll back owed. -/
theorem position_through_failures {chain : ChainSource σ} {flavor : Flavor} {window : Nat} {w₀ : σ}
    {log : List (Entry σ Server Message Empty)} {t : Handle Server × σ}
    (recorded : (conduct chain).Recorded (.new (.new flavor window), w₀) log t)
    (calm : ∀ e ∈ log, Undisturbed chain e) :
    t.1.agent.lastSent = heading none (Conduct.spoken log) ∧
    (∀ v, Answered chain t.1.agent.sent v →
      (unconfirmed (Conduct.spoken log) = true ∨
        ∃ last u, t.1.agent.lastSent = some last ∧ (onChain chain last).run v = (.ok false, u)) →
      RollsBack chain t.1.agent v) ∧
    (∀ v e s u, nextUpdate chain t.1.agent v = (.error e, s, u) →
      s = t.1.agent ∨ interrupted chain t.1.agent v = true ∧ s.owesRollback = false ∧
        s.sent ≠ [] ∧ s.sent <+: t.1.agent.sent) := by
  have tracks : Tracks (Conduct.spoken log) t.1.agent :=
    upheld (I := fun log s => Tracks (Conduct.spoken log) s) recorded calm
      ⟨Nat.le_max_right window 1, rfl, nofun⟩
      (fun state tipWaiting replies tracks => tracks.place state tipWaiting replies)
      fun tracks shift _ fair => tracks_shift tracks shift fair
  refine ⟨tracks.position, fun v answered due => ?_, fun v e s u => nextUpdate_error⟩
  rcases due with unconfirmed | ⟨last, u, reached, off⟩
  · obtain ⟨owes, placed⟩ := tracks.owes unconfirmed
    obtain ⟨last, reached⟩ := Option.ne_none_iff_exists'.mp placed
    exact rollsBack_of_due reached answered (.inr owes)
  · exact rollsBack_of_due reached answered (.inl ⟨u, off⟩)

open Moment (lower upper rival)

def failingScript (schedule : List Bool) : List (Conduct.Deed (Moment × List Bool) Message) :=
  opening lower.point ++ [.change (.replaced, schedule), .take .requestNext, .draw]

def failedRequest (schedule : List Bool) :
    List (Entry (Moment × List Bool) Server Message Empty) × Handle Server × Moment × List Bool :=
  (conduct (ChainStore.among reorganised).flaky).follow (.new (.new .headers 4), .grown, [])
    (failingScript schedule)

theorem recorded_failedRequest (schedule : List Bool) :
    (conduct (ChainStore.among reorganised).flaky).Recorded (.new (.new .headers 4), .grown, [])
      (failedRequest schedule).1 (failedRequest schedule).2 :=
  Conduct.recorded_follow _ _

/-- The point given last is off the chain, but the first call for the next update fails. The
client stays where it is, and is rolled back when the calls succeed. -/
theorem position_through_failures_parked :
    (∀ e ∈ (failedRequest [true]).1, Undisturbed (ChainStore.among reorganised).flaky e) ∧
      Conduct.spoken (failedRequest [true]).1 = [.intersectFound lower.point upper.tip,
        .rollBackward lower.point upper.tip,
        .rollForward (.shelley 1 [0x81, 0x82, 0x02, 0x18, 0x1E]) upper.tip, .awaitReply] ∧
      (failedRequest [true]).2.1.agent.lastSent = some upper.point ∧
      RollsBack (ChainStore.among reorganised).flaky (failedRequest [true]).2.1.agent
        (.replaced, []) := by
  obtain ⟨whole, headers, said, reached, known⟩ :
      (∀ e ∈ (failedRequest [true]).1, e.agent.seeks e.note = true →
        interrupted (ChainStore.among reorganised).flaky e.agent e.world = false) ∧
      (∀ e ∈ (failedRequest [true]).1, e.agent.flavor = .headers) ∧
      Conduct.spoken (failedRequest [true]).1 = [.intersectFound lower.point upper.tip,
        .rollBackward lower.point upper.tip,
        .rollForward (.shelley 1 [0x81, 0x82, 0x02, 0x18, 0x1E]) upper.tip, .awaitReply] ∧
      (failedRequest [true]).2.1.agent.lastSent = some upper.point ∧
      ∀ p ∈ (failedRequest [true]).2.1.agent.sent, p.hash.isSome →
        TableChain.fits p.slot = true := by
    decide +kernel
  have calm : ∀ e ∈ (failedRequest [true]).1,
      Undisturbed (ChainStore.among reorganised).flaky e := by
    intro e member seeks
    refine ⟨whole e member seeks, Truthful.flaky ?_⟩
    rw [headers e member]
    exact truthful_of_answers (sound_reorganised e.world.1).answers.among
      (serves_reorganised e.world.1)
  have right := (sound_reorganised .replaced).answers.among
  obtain ⟨-, due, -⟩ := position_through_failures (recorded_failedRequest [true]) calm
  exact ⟨calm, said, reached, due _ (answered_flaky right fun p member => .inr (known p member))
    (.inr ⟨_, _, reached, onChain_flaky_calm gone_replaced⟩)⟩

/-- When it is the third call that fails, the second block has been dropped. The client is
still there, but the block that replaces it is pushed without a roll back. -/
theorem position_lost :
    heading none (Conduct.spoken (failedRequest [false, false, true]).1) =
        some upper.point ∧
      (failedRequest [false, false, true]).2.1.agent.lastSent = some lower.point ∧
      (notifyNewBlock (ChainStore.among reorganised).flaky
        (failedRequest [false, false, true]).2.1.agent (.replaced, [])).1.replies =
          [.rollForward (.shelley 1 [0x81, 0x82, 0x02, 0x18, 0x1F]) rival.tip] := by
  decide +kernel

end Server
end ChainSync
end ChainRelay
