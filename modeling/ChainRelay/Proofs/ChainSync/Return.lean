import ChainRelay.Proofs.ChainSync.Lookups
import ChainRelay.Proofs.Protocol.Servers

/-! Where a client has been rolled back to, it can intersect again. The server rolls back to
points that are on the chain or to the origin, and intersects at any point that is on the
chain; at the origin only while there is a block. -/
namespace ChainRelay.ChainSync

variable {σ : Type} {chain : ChainSource σ} {known : Point → Prop} {w : σ}

theorem Client.produce_rolledBack {c : Client} {p : Point} (t : Tip)
    (going : c.doneRequested = false) (apart : c.cursor ≠ some p) :
    (c.received (.rollBackward p t)).produce = some (.findIntersect [p]) := by
  have moved : (c.received (.rollBackward p t)).doneRequested = c.doneRequested :=
    doneRequested_received _ c
  unfold produce
  rw [moved, going]
  simp only [received, backward, report, if_neg apart]
  rfl

namespace Server

theorem contains_of_stands {p : Point} {top : Option Tip} (stands : Stands chain w p)
    (told : chain.tip.run w = (.ok top, w)) (kept : p = .origin → top ≠ none) :
    (contains chain p).run w = (.ok true, w) := by
  unfold contains
  split
  · rename_i start
    obtain ⟨t, rfl⟩ := Option.ne_none_iff_exists'.mp (kept (Point.isOrigin_iff.mp start))
    rw [Lookup.run_bind, told]
    rfl
  · rename_i block
    exact stands.hasPoint fun same => block (Point.isOrigin_iff.mpr same)

theorem contains_origin_empty (told : chain.tip.run w = (.ok none, w)) :
    (contains chain .origin).run w = (.ok false, w) := by
  have start : Point.origin.isOrigin = true := rfl
  rw [contains, if_pos start, Lookup.run_bind, told]
  rfl

theorem received_findIntersect_stands (unfailing : chain.Unfailing known w) {s : Server} {p : Point}
    (stands : Stands chain w p) (spent : s.replies = []) :
    ∃ s', received chain (.findIntersect [p]) s w = (s', w) ∧
      ((p = .origin → chain.tip.run w ≠ (.ok none, w)) →
        s'.replies = [.intersectFound p (tip chain w).1] ∧ s'.lastSent = some p) ∧
      (p = .origin → chain.tip.run w = (.ok none, w) →
        s'.replies = [.intersectNotFound (tip chain w).1]) := by
  obtain ⟨top, told⟩ := unfailing.tip
  obtain ⟨t, same⟩ := tip_unfailing unfailing
  by_cases empty : p = .origin ∧ top = none
  · obtain ⟨rfl, rfl⟩ := empty
    have missed : firstContained chain [.origin] w = (none, w) := by
      rw [firstContained, contains_origin_empty told]
      rfl
    refine ⟨{ s with replies := s.replies ++ [.intersectNotFound t] }, ?_, fun kept => ?_,
      fun _ _ => ?_⟩
    · simp only [received, findIntersect, missed, same, enqueue]
    · exact absurd told (kept rfl)
    · rw [same, spent]
      rfl
  · have found : firstContained chain [p] w = (some p, w) := by
      rw [firstContained, contains_of_stands stands told fun start none => empty ⟨start, none⟩]
    refine ⟨_, by simp only [received, findIntersect, found, same, enqueue]; rfl, fun _ => ?_,
      fun start none => ?_⟩
    · rw [same, spent]
      exact ⟨rfl, rfl⟩
    · rw [told] at none
      exact absurd ⟨start, by cases none; rfl⟩ empty

/-- Whatever has happened before, once a server has answered that the client is to roll back to
a point, and as long as the chain is as it was then, a search for that point finds it, unless
the point is the origin and the chain has no block. It is the search that a client makes next
that is at another point. -/
theorem intersects_where_rolledBack (chain : ChainSource σ) {flavor : Flavor} {window : Nat}
    {w₀ : σ} {log notes more : List (Note Message Empty)} {s s' u : Handle Server × σ} {p : Point} {t : Tip}
    (unfailing : chain.Unfailing known s.2)
    (run : (conduct chain).Run (.new (.new flavor window), w₀) log s)
    (step : (conduct chain).Step s notes s') (answer : .queued (.rollBackward p t) ∈ notes)
    (later : (conduct chain).Run s' more u) (unchanged : u.2 = s.2)
    (idle : u.1.agent.state = .idle) :
    (∀ c : Client, c.doneRequested = false → c.cursor ≠ some p →
      (c.received (.rollBackward p t)).produce = some (.findIntersect [p])) ∧
    ∃ a, (kind chain).consume (.findIntersect [p]) u.1.agent u.2 = .ok (a, u.2) ∧
      ((p = .origin → chain.tip.run u.2 ≠ (.ok none, u.2)) →
        a.replies = [.intersectFound p (tip chain u.2).1] ∧ a.lastSent = some p) ∧
      (p = .origin → chain.tip.run u.2 = (.ok none, u.2) →
        a.replies = [.intersectNotFound (tip chain u.2).1]) := by
  refine ⟨fun c going apart => Client.produce_rolledBack t going apart, ?_⟩
  obtain ⟨_, _, _, sought⟩ := (turn_of_act step.act).rolledBack answer
  have stands : Stands chain s.2 p := (stands_of_rollBackward unfailing sought).2
  rw [← unchanged] at unfailing stands
  have legal := (replier.replies (by exact nofun) rfl rfl ((run.snoc step).append later)).legal
  have quiet : Role.server.holds (State.agency u.1.agent.state) = false := by
    rw [idle]
    rfl
  have spent : u.1.agent.replies = [] := legal.silent quiet
  have moved : State.move u.1.agent.state (.findIntersect [p]) = some .intersect := by
    rw [idle]
    rfl
  have holds : Role.server.peer.holds (State.agency u.1.agent.state) = true := by
    rw [idle]
    rfl
  have taken := AgentKind.consume_of_moves (k := kind chain) rfl holds moved u.2
  obtain ⟨a, ran, found, lost⟩ := received_findIntersect_stands unfailing
    (s := { u.1.agent with state := .intersect }) stands spent
  exact ⟨a, taken.trans (congrArg Except.ok ran), found, lost⟩

open Moment (lower upper rival)

def followed (p : Point) (m : Moment) :
    List (Entry Moment Server Message Empty) × Handle Server × Moment :=
  (conduct (ChainStore.among reorganised)).follow (.new (.new .headers 4), .grown)
    (opening p ++ [.change m])

def answered (p : Point) (m : Moment) : List (Note Message Empty) × Handle Server × Moment :=
  (conduct (ChainStore.among reorganised)).befall (followed p m).2 (.take .requestNext)

def parted (p : Point) (m : Moment) : List (Note Message Empty) × Handle Server × Moment :=
  (conduct (ChainStore.among reorganised)).befall (answered p m).2 .draw

theorem runs_parted (p : Point) (m : Moment) :
    (∃ log, (conduct (ChainStore.among reorganised)).Run (.new (.new .headers 4), .grown) log
      (followed p m).2) ∧
    (conduct (ChainStore.among reorganised)).Step (followed p m).2 (answered p m).1
      (answered p m).2 ∧
    (conduct (ChainStore.among reorganised)).Run (answered p m).2 (parted p m).1 (parted p m).2 :=
  ⟨⟨_, (Conduct.recorded_follow _ _).run⟩, Conduct.step_befall _ _, (Conduct.step_befall _ _).run⟩

/-- The second of two blocks is replaced, and the client goes back to the first. -/
theorem intersects_where_rolledBack_replaced :
    .queued (.rollBackward lower.point rival.tip) ∈ (answered lower.point .replaced).1 ∧
      (parted lower.point .replaced).2.1.agent.state = .idle ∧
      ∃ a, (kind (ChainStore.among reorganised)).consume (.findIntersect [lower.point])
          (parted lower.point .replaced).2.1.agent .replaced = .ok (a, .replaced) ∧
        a.replies = [.intersectFound lower.point rival.tip] := by
  obtain ⟨said, idle, before, after, top⟩ :
      (answered lower.point .replaced).1.filterMap Note.queued? =
        [.rollBackward lower.point rival.tip] ∧
      (parted lower.point .replaced).2.1.agent.state = .idle ∧
      (followed lower.point .replaced).2.2 = .replaced ∧
      (parted lower.point .replaced).2.2 = .replaced ∧
      (tip (ChainStore.among reorganised) .replaced).1 = rival.tip := by
    decide +kernel
  have answer := Note.queued_mem (said ▸ List.mem_singleton_self _)
  obtain ⟨⟨log, run⟩, step, later⟩ := runs_parted lower.point .replaced
  obtain ⟨-, a, taken, found, -⟩ := intersects_where_rolledBack (ChainStore.among reorganised)
    (unfailing_reorganised _) run step answer later (after.trans before.symm) idle
  rw [after] at taken found
  rw [top] at found
  exact ⟨answer, idle, a, taken, (found nofun).1⟩

/-- When both blocks are dropped, the client is rolled back to the origin, where it is then
told that there is no intersection. -/
theorem origin_not_found_again :
    ¬ ∀ (σ : Type) (chain : ChainSource σ) (known : Point → Prop) (flavor : Flavor) (window : Nat)
        (w₀ : σ) (log notes more : List (Note Message Empty)) (s s' u : Handle Server × σ)
        (p : Point) (t : Tip),
      (∀ w, chain.Unfailing known w) → (conduct chain).Run (.new (.new flavor window), w₀) log s →
      (conduct chain).Step s notes s' → .queued (.rollBackward p t) ∈ notes →
      (conduct chain).Run s' more u → u.2 = s.2 → u.1.agent.state = .idle →
      ∃ a t', (kind chain).consume (.findIntersect [p]) u.1.agent u.2 = .ok (a, u.2) ∧
        a.replies = [.intersectFound p t'] := by
  intro always
  obtain ⟨said, idle, world, told⟩ :
      (answered .origin .emptied).1.filterMap Note.queued? = [.rollBackward .origin .origin] ∧
      (parted .origin .emptied).2.1.agent.state = .idle ∧
      (parted .origin .emptied).2.2 = (followed .origin .emptied).2.2 ∧
      ((kind (ChainStore.among reorganised)).consume (.findIntersect [.origin])
        (parted .origin .emptied).2.1.agent (parted .origin .emptied).2.2).toOption.map (·.1.replies) =
          some [.intersectNotFound .origin] := by
    decide +kernel
  have answer := Note.queued_mem (said ▸ List.mem_singleton_self _)
  obtain ⟨⟨log, run⟩, step, later⟩ := runs_parted .origin .emptied
  obtain ⟨a, t', taken, found⟩ := always Moment (ChainStore.among reorganised)
    _ _ _ _ _ _ _ _ _ _ _ _ unfailing_reorganised run step answer later world idle
  rw [taken] at told
  cases found.symm.trans (Option.some.inj told)

end Server
end ChainRelay.ChainSync
