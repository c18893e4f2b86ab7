import ChainRelay.ChainSync.Client

/-! Where messages take a client. Each either names the point at which the client is to be
or leaves it where it is. -/
namespace ChainRelay.ChainSync

/-- The point at which the client is after the message. -/
def Message.goal : Message → Option Point
  | .rollForward header _ => header.point.toOption
  | .rollBackward p _ => some p
  | .intersectFound p _ => some p
  | _ => none

def heading (cursor : Option Point) (ms : List Message) : Option Point :=
  ms.foldl (fun cursor m => m.goal.or cursor) cursor

theorem heading_eq_or (cursor : Option Point) (ms : List Message) :
    heading cursor ms = (heading none ms).or cursor := by
  induction ms generalizing cursor with
  | nil => rfl
  | cons m ms ih =>
    change heading (m.goal.or cursor) ms = (heading (m.goal.or none) ms).or cursor
    rw [ih, ih (m.goal.or none), Option.or_none, Option.or_assoc]

/-- Once these messages have arrived, a client at `cursor` is at `last` or has no cursor. -/
def OnCourse (cursor last : Option Point) (ms : List Message) : Prop :=
  heading cursor ms = none ∨ heading cursor ms = last

namespace OnCourse

variable {cursor last : Option Point} {ms : List Message}

theorem lost (course : OnCourse cursor last ms) : OnCourse none last ms := by
  have whole := heading_eq_or cursor ms
  cases away : heading none ms with
  | none => exact .inl away
  | some p =>
    rw [OnCourse, whole, away] at course
    rw [OnCourse, away]
    exact course

theorem arrive {m : Message} (course : OnCourse cursor last (m :: ms)) {cursor' : Option Point}
    (moves : cursor' = m.goal.or cursor ∨ cursor' = none) : OnCourse cursor' last ms := by
  have beyond : OnCourse (m.goal.or cursor) last ms := course
  rcases moves with rfl | rfl
  · exact beyond
  · exact beyond.lost

theorem append (course : OnCourse cursor last ms) (reply : Option Message) :
    OnCourse cursor ((reply.bind Message.goal).or last) (ms ++ reply.toList) := by
  cases reply with
  | none => simpa using course
  | some m =>
    have ahead : heading cursor (ms ++ [m]) = m.goal.or (heading cursor ms) := by simp [heading]
    rw [OnCourse, Option.toList_some, ahead]
    cases goal : m.goal with
    | none =>
      rw [Option.none_or, Option.bind_some, goal, Option.none_or]
      exact course
    | some p => exact .inr (by simp [goal])

end OnCourse

namespace Client

theorem received_frame (m : Message) (c : Client) :
    (c.received m).state = c.state ∧
      ((c.received m).candidates = c.candidates ∨ (c.received m).candidates.length ≤ 1) := by
  cases m with
  | rollForward header tip =>
    simp only [received, forward, report]
    split <;> exact ⟨rfl, .inl rfl⟩
  | rollBackward p tip =>
    simp only [received, backward, report]
    split
    · exact ⟨rfl, .inl rfl⟩
    · exact ⟨rfl, .inr (Nat.le_refl 1)⟩
  | intersectFound p tip =>
    simp only [received, found, report]
    cases c.followTip with
    | true => exact ⟨rfl, .inr (Nat.le_refl 1)⟩
    | false => exact ⟨rfl, .inl rfl⟩
  | intersectNotFound tip => exact ⟨rfl, .inr (Nat.zero_le 1)⟩
  | awaitReply | requestNext | findIntersect _ | done => exact ⟨rfl, .inl rfl⟩

/-- While only the peer's tip is looked for, there is no cursor and no update is asked
for. -/
def Steady (c : Client) : Prop :=
  c.followTip = true →
    c.cursor = none ∧ c.intersected = false ∧ c.state ≠ .canAwait ∧ c.state ≠ .mustReply

variable {c : Client} {m : Message} {next : State}

theorem Steady.sent (steady : c.Steady) (made : c.produce = some m)
    (moved : c.state.move m = some next) : ({ c with state := next } : Client).Steady := by
  intro follow
  obtain ⟨cursor, unmet, -, -⟩ := steady follow
  have reached : next ≠ .canAwait ∧ next ≠ .mustReply := by
    rw [produce, unmet] at made
    split at made
    · cases made
      cases state : c.state <;> rw [state] at moved <;> cases moved
      exact ⟨nofun, nofun⟩
    · split at made
      · contradiction
      · split at made
        · cases made
        · cases made
          cases state : c.state <;> rw [state] at moved <;> cases moved
          exact ⟨nofun, nofun⟩
  exact ⟨cursor, unmet, reached⟩

theorem followTip_of_received (follow : (c.received m).followTip = true) : c.followTip = true := by
  cases m with
  | rollForward header tip =>
    simp only [received, forward, report] at follow
    split at follow
    · exact follow
    · exact follow
  | rollBackward p tip =>
    simp only [received, backward, report] at follow
    split at follow
    · exact follow
    · exact follow
  | intersectFound p tip =>
    cases before : c.followTip with
    | true => rfl
    | false =>
      simp only [received, found, report, before, Bool.false_eq_true, if_false] at follow
  | _ => exact follow

theorem Steady.received (steady : c.Steady) (turn : Role.server.holds c.state.agency = true)
    (moved : c.state.move m = some next) :
    (({ c with state := next } : Client).received m).Steady := by
  intro follow
  have before : c.followTip = true :=
    followTip_of_received (c := { c with state := next }) follow
  obtain ⟨cursor, unmet, asked, parked⟩ := steady before
  -- only an answer to the search can arrive
  have searching : c.state = .intersect := by
    cases state : c.state with
    | idle | done =>
      rw [state] at turn
      cases turn
    | intersect => rfl
    | canAwait => exact absurd state asked
    | mustReply => exact absurd state parked
  rw [searching] at moved
  cases m with
  | intersectFound p tip =>
    simp only [Client.received, found, report, before, if_true] at follow
    cases follow
  | intersectNotFound tip =>
    cases moved
    exact ⟨cursor, unmet, nofun, nofun⟩
  | _ => cases moved

theorem received_cursor (blank : c.followTip = true → c.cursor = none) (m : Message) :
    (c.received m).cursor = m.goal.or c.cursor ∨ (c.received m).cursor = none := by
  cases m with
  | rollForward header tip =>
    left
    simp only [received, forward, report, Message.goal]
    cases header.point <;> rfl
  | rollBackward p tip =>
    left
    simp only [received, backward, report, Message.goal]
    split
    · assumption
    · rfl
  | intersectFound p tip =>
    simp only [received, found, report, Message.goal]
    cases follow : c.followTip with
    | true => exact .inr (blank follow)
    | false => exact .inl rfl
  | _ => exact .inl rfl

end Client
end ChainRelay.ChainSync
