import ChainRelay.Proofs.Session.Script

/-! A session whose proposal is answered as a query takes the answer for one more failure: it is
reported and, while retries are left, the proposal is made again. The start never comes back with
the versions that the peer told of. -/
namespace ChainRelay.Session

variable {config : SessionConfig} {peer : String}

namespace Course

theorem follow_append (first later : List Turn) (c : Course) :
    c.follow config peer (first ++ later) =
      (((c.follow config peer first).1.follow config peer later).1,
        (c.follow config peer first).2.followedBy
          ((c.follow config peer first).1.follow config peer later).2) := by
  induction first generalizing c with
  | nil => rw [follow, Report.nothing_followedBy]; rfl
  | cons t rest ih =>
    rw [List.cons_append, follow_cons, follow_cons, ih, Report.followedBy_assoc]

variable {e : SessionError} {number : Nat}

theorem follow_failure {t : Trial} (fails : t.result config = .error e)
    (retried : ∀ reason, e ≠ .handshake reason) (left : isExhausted config number = false) :
    Course.follow config peer (t.turns config) ⟨.attempting number, false⟩ =
      (⟨.attempting (number + 1), false⟩, ⟨[.connectFailed number e.message], none⟩) := by
  rw [Trial.turns, fails, turnsOf, follow_cons, step, attempted_failed rfl retried, left]
  rfl

theorem follow_last {t : Trial} (fails : t.result config = .error e)
    (retried : ∀ reason, e ≠ .handshake reason) (used : isExhausted config number = true) :
    Course.follow config peer (t.turns config) ⟨.attempting number, false⟩ =
      (⟨.over, false⟩,
        ⟨[.connectFailed number e.message], some (.failed (.connectFailed number e.message))⟩) := by
  rw [Trial.turns, fails, turnsOf, follow_cons, step, attempted_failed rfl retried, used]
  rfl

theorem follow_failures {failed : List Trial} {errors : List SessionError}
    (fail : failed.map (Trial.result config) = errors.map .error)
    (retried : ∀ e ∈ errors, ∀ reason, e ≠ .handshake reason)
    (left : ∀ i < errors.length, isExhausted config (number + i) = false) :
    Course.follow config peer (script config failed) ⟨.attempting number, false⟩ =
      (⟨.attempting (number + errors.length), false⟩,
        ⟨errors.mapIdx fun i e => .connectFailed (number + i) e.message, none⟩) := by
  induction failed generalizing errors number with
  | nil =>
    cases errors with
    | nil => rfl
    | cons e rest => cases fail
  | cons t failed ih =>
    cases errors with
    | nil => cases fail
    | cons e errors =>
      obtain ⟨here, there⟩ := List.cons.inj fail
      have first : isExhausted config number = false := left 0 (by simp)
      have others := @ih (number + 1) _ there
        (fun e' member => retried e' (List.mem_cons_of_mem _ member)) (by
          intro i below
          have := left (i + 1) (Nat.succ_lt_succ below)
          rwa [Nat.add_assoc, Nat.add_comm 1 i])
      rw [script, List.flatMap_cons, ← script, follow_append,
        follow_failure here (retried e List.mem_cons_self) first, others]
      simp [Report.followedBy, Nat.add_comm, Nat.add_left_comm]

theorem start_giveUp {events : List SessionEvent} {c : Course} {result : StartResult}
    (back : (c.giveUp events e).2.start = some result) : result = .failed e := by
  rw [giveUp] at back
  split at back
  · cases back
  · exact (Option.some.inj back).symm

theorem start_step (t : Turn) (c : Course) (versions : List UInt64) :
    (c.step config peer t).2.start ≠ some (.failed (.queried versions)) := by
  intro back
  obtain ⟨phase, isStarted⟩ := c
  cases t with
  | attempted result =>
    cases phase with
    | attempting number =>
      cases result with
      | ok agreed =>
        rw [step, attempted_ok rfl] at back
        cases isStarted <;> cases back
      | error e =>
        by_cases refusal : ∃ reason, e = .handshake reason
        · obtain ⟨reason, rfl⟩ := refusal
          cases start_giveUp back
        · rw [step, attempted_failed rfl fun reason same => refusal ⟨reason, same⟩] at back
          cases used : isExhausted config number with
          | true =>
            rw [used] at back
            cases start_giveUp back
          | false =>
            rw [used] at back
            cases back
    | _ => cases back
  | dropped => cases phase <;> cases back
  | rested => cases phase <;> cases back

theorem start_follow (turns : List Turn) (c : Course) (versions : List UInt64) :
    (c.follow config peer turns).2.start ≠ some (.failed (.queried versions)) := by
  induction turns generalizing c with
  | nil => exact nofun
  | cons t rest ih =>
    rw [follow_cons, Report.followedBy]
    intro back
    cases first : (c.step config peer t).2.start with
    | none =>
      rw [first] at back
      exact ih _ back
    | some result =>
      rw [first] at back
      exact start_step t c versions (first.trans back)

/-- After failures that were all retried, an answer to a query is the next failure. With the last
retry used up, the start fails of the number of attempts; otherwise the next attempt is made and
the start is still out. In no run does the start fail of the answer. -/
theorem repeats_query (config : SessionConfig) (peer : String) (failed : List Trial)
    (errors : List SessionError) (arrivals : List Bytes) (table : VersionTable)
    (fail : failed.map (Trial.result config) = errors.map .error)
    (retried : ∀ e ∈ errors, ∀ reason, e ≠ .handshake reason)
    (within : ∀ m, config.maxRetries = some m → errors.length ≤ m.toNat) :
    let queried := SessionError.queried table.versions
    let number := errors.length + 1
    let told := errors.mapIdx (fun i e => SessionEvent.connectFailed (i + 1) e.message) ++
      [.connectFailed number queried.message]
    Course.follow config peer
        (script config (failed ++ [.reached arrivals (.outcome (.queried table))])) .begin =
      (if isExhausted config number then
        (⟨.over, false⟩, ⟨told, some (.failed (.connectFailed number queried.message))⟩)
      else (⟨.attempting (number + 1), false⟩, ⟨told, none⟩)) ∧
    table.versions.Pairwise (· < ·) ∧
    ∀ trials versions, (Course.follow config peer (script config trials) .begin).2.start ≠
      some (.failed (.queried versions)) := by
  intro queried number told
  refine ⟨?_, List.pairwise_map.mpr table.ascending, ?_⟩
  · have left : ∀ i < errors.length, isExhausted config (1 + i) = false := by
      intro i below
      rw [Bool.eq_false_iff]
      intro used
      obtain ⟨m, limit, beyond⟩ := isExhausted_iff.mp used
      have := within m limit
      omega
    have answered : (Trial.reached arrivals (.outcome (.queried table))).result config =
        .error queried := rfl
    have unrefused : ∀ reason, queried ≠ .handshake reason := nofun
    have told_eq : (errors.mapIdx fun i e => SessionEvent.connectFailed (1 + i) e.message) ++
        [.connectFailed number queried.message] = told := by
      simp only [told, Nat.add_comm 1]
    rw [script, List.flatMap_append, ← script, follow_append, begin,
      follow_failures fail retried left, List.flatMap_singleton, Nat.add_comm 1 errors.length]
    cases used : isExhausted config number with
    | true =>
      rw [follow_last answered unrefused used, ← told_eq]
      rfl
    | false =>
      rw [follow_failure answered unrefused used, ← told_eq]
      rfl
  · intro trials versions
    exact start_follow _ _ versions

/-- One attempt to which nobody answers, and a second that is taken for a query. -/
theorem repeats_query_twice :
    let config := { SessionConfig.standard with connectTimeout := 1000 }
    let table := VersionMap.empty.insert 14 ⟨42, false, 0, true⟩ |>.insert 13 ⟨42, false, 0, true⟩
    let run := Course.follow config "relay" (script config ([.unanswered] ++
      [.reached [] (.outcome (.queried table))])) .begin
    run.1 = ⟨.attempting 3, false⟩ ∧
      run.2 = ⟨[.connectFailed 1 "connect timed out after 1s",
        .connectFailed 2 "peer answered a version query with [13, 14]"], none⟩ := by
  intro config table run
  have repeated := repeats_query config "relay" [.unanswered] [.connectTimeout 1000] [] table rfl
    (by simp) (by simp [config, SessionConfig.standard])
  have told : run = _ := repeated.1
  rw [told]
  refine ⟨rfl, ?_⟩
  decide

end Course
end ChainRelay.Session
