import ChainRelay.Proofs.Session.Rounds

/-! Whole runs of a session that nobody stops. A script gives how the attempts end, one after the
other, and when connections drop; what the session does with it, and tells of it, are rounds. -/
namespace ChainRelay.Session

/-! ### Scripts -/

def turnsOf : Except SessionError Agreed → List Turn
  | .ok agreed => [.attempted (.ok agreed), .dropped, .rested]
  | .error e => [.attempted (.error e), .rested]

def Trial.turns (config : SessionConfig) (t : Trial) : List Turn := turnsOf (t.result config)

/-- The attempts come one after the other, as many as the script gives. -/
def script (config : SessionConfig) (trials : List Trial) : List Turn :=
  trials.flatMap (Trial.turns config)

def Turn.isPause : Turn → Bool
  | .rested => true
  | .attempted _ | .dropped => false

inductive Due where
  | attempt
  | drop
  | pause

def Turn.due : Turn → Due
  | .attempted _ => .attempt
  | .dropped => .drop
  | .rested => .pause

def Turn.next : Turn → Due
  | .attempted (.ok _) => .drop
  | .attempted (.error _) | .dropped => .pause
  | .rested => .attempt

/-- Each turn is of the kind that the one before it makes due. -/
def Paced : Due → List Turn → Prop
  | _, [] => True
  | due, t :: rest => t.due = due ∧ Paced t.next rest

theorem Paced.take {due : Due} {turns : List Turn} (paced : Paced due turns) (n : Nat) :
    Paced due (turns.take n) := by
  induction turns generalizing due n with
  | nil => simp [Paced]
  | cons t rest ih =>
    cases n with
    | zero => trivial
    | succ n => exact ⟨paced.1, ih paced.2 n⟩

theorem paced_script (config : SessionConfig) (trials : List Trial) :
    Paced .attempt (script config trials) := by
  induction trials with
  | nil => trivial
  | cons t rest ih =>
    rw [script, List.flatMap_cons, Trial.turns]
    cases t.result config with
    | ok agreed => exact ⟨rfl, rfl, rfl, ih⟩
    | error e => exact ⟨rfl, rfl, ih⟩

def Phase.Awaits : Phase → Due → Prop
  | .attempting _, due => due = .attempt
  | .resting _, due => due = .pause
  | .up, due => due = .drop
  | .over, _ => True

/-! ### Whole runs -/

variable {config : SessionConfig} {peer : String} {earlier : List Round} {last : Round} {c : Course}
  {taken : List Turn} {told : Report} {turn : Turn}

theorem Course.awaits_step {c : Course} {t : Turn} (awaits : c.phase.Awaits t.due) :
    (c.step config peer t).1.phase.Awaits t.next := by
  obtain ⟨phase, isStarted⟩ := c
  cases phase with
  | attempting number =>
    cases t with
    | dropped | rested => cases awaits
    | attempted result =>
      cases result with
      | ok agreed => rfl
      | error e =>
        by_cases refusal : ∃ reason, e = .handshake reason
        · obtain ⟨reason, rfl⟩ := refusal
          trivial
        · rw [step, attempted_failed rfl fun reason same => refusal ⟨reason, same⟩]
          cases isExhausted config number with
          | true => trivial
          | false => rfl
  | resting failures =>
    cases t with
    | attempted _ | dropped => cases awaits
    | rested => rfl
  | up =>
    cases t with
    | attempted _ | rested => cases awaits
    | dropped =>
      rw [step, dropped_of_up rfl]
      cases config.autoReconnect with
      | true => rfl
      | false => trivial
  | _ =>
    rw [step_over rfl]
    trivial

theorem Stands.step (stands : Stands config peer earlier last c taken told)
    (ongoing : c.phase ≠ .over) (awaits : c.phase.Awaits turn.due) :
    ∃ earlier' last', Stands config peer earlier' last' (c.step config peer turn).1
      (taken ++ [turn].filter (!·.isPause)) (told.followedBy (c.step config peer turn).2) := by
  cases h : c.phase with
  | attempting number =>
    rw [h] at awaits
    cases turn with
    | dropped | rested => cases awaits
    | attempted result => exact ⟨earlier, stands.attempted h result⟩
  | resting failures =>
    rw [h] at awaits
    cases turn with
    | attempted _ | dropped => cases awaits
    | rested =>
      rw [Course.step, show [Turn.rested].filter (!·.isPause) = [] from rfl, List.append_nil]
      exact stands.rested h
  | up =>
    rw [h] at awaits
    cases turn with
    | attempted _ | rested => cases awaits
    | dropped => exact ⟨earlier, stands.dropped h⟩
  | _ => exact absurd h ongoing

theorem Course.follow_over (ended : c.phase = .over) (turns : List Turn) :
    Course.follow config peer turns c = (c, ⟨[], none⟩) := by
  induction turns with
  | nil => rfl
  | cons t rest ih =>
    rw [follow_cons, step_over ended, ih, Report.nothing_followedBy]

/-- Up to the end of the course every turn is taken. -/
theorem Stands.follow {turns : List Turn} {due : Due} (paced : Paced due turns)
    (stands : Stands config peer earlier last c taken told) (awaits : c.phase.Awaits due) :
    ∃ earlier' last' taken', Stands config peer earlier' last' (c.follow config peer turns).1 taken'
        (told.followedBy (c.follow config peer turns).2) ∧
      taken' <+: taken ++ turns.filter (!·.isPause) ∧
      ((c.follow config peer turns).1.phase ≠ .over →
        taken' = taken ++ turns.filter (!·.isPause)) := by
  induction turns generalizing due earlier last c taken told with
  | nil =>
    refine ⟨earlier, last, taken, ?_, ?_⟩
    · rw [Course.follow, Report.followedBy_nothing]
      exact stands
    · simp
  | cons t rest ih =>
    -- the script goes on after the course has ended, and nothing of that is taken
    by_cases ended : c.phase = .over
    · rw [Course.follow_over ended]
      refine ⟨earlier, last, taken, ?_, List.prefix_append _ _, absurd ended⟩
      rw [Report.followedBy_nothing]
      exact stands
    · obtain ⟨rfl, paced⟩ := paced
      obtain ⟨earlier₁, last₁, stands⟩ := stands.step ended awaits
      have later := ih paced stands (Course.awaits_step awaits)
      rw [Report.followedBy_assoc] at later
      rwa [List.append_assoc, ← List.filter_append] at later

theorem exists_rounds (config : SessionConfig) (peer : String) (trials : List Trial) (n : Nat) :
    let told := (script config trials).take n
    let run := Course.follow config peer told .begin
    ∃ earlier last taken, Stands config peer earlier last run.1 taken run.2 ∧
      taken <+: told.filter (!·.isPause) ∧
      (run.1.phase ≠ .over → taken = told.filter (!·.isPause)) := by
  intro told run
  have paced : Paced .attempt told := (paced_script config trials).take n
  have rounds := (Stands.begin config peer).follow paced rfl
  rwa [Report.nothing_followedBy] at rounds

/-! ### Connections come and go in turn -/

/-- Connections come and go in turn, and attempts fail only where there is none. -/
def Alternate : Bool → List SessionEvent → Prop
  | _, [] => True
  | up, .connected _ _ _ :: later => up = false ∧ Alternate true later
  | up, .disconnected _ :: later => up = true ∧ Alternate false later
  | up, .connectFailed _ _ :: later => up = false ∧ Alternate up later

theorem alternate_failures {tried : List SessionEvent} {later : List SessionEvent}
    (failed : ∀ event ∈ tried, ∃ number message, event = .connectFailed number message)
    (alternate : Alternate false later) : Alternate false (tried ++ later) := by
  induction tried with
  | nil => exact alternate
  | cons event rest ih =>
    obtain ⟨number, message, rfl⟩ := failed event List.mem_cons_self
    exact ⟨rfl, ih fun e member => failed e (List.mem_cons_of_mem _ member)⟩

theorem Round.alternate (r : Round) {later : List SessionEvent} (alternate : Alternate false later)
    (comes : r.IsDropped ∨ later = []) : Alternate false (r.events peer ++ later) := by
  obtain ⟨failures, standing⟩ := r
  rw [events, List.append_assoc]
  apply alternate_failures
  · intro event member
    obtain ⟨i, h, rfl⟩ := List.mem_mapIdx.mp member
    exact ⟨_, _, rfl⟩
  · cases standing with
    | ongoing | refused _ | exhausted => exact alternate
    | dropped agreed => exact ⟨rfl, rfl, alternate⟩
    | connected agreed =>
      rcases comes with ⟨_, same⟩ | none
      · cases same
      · rw [none]
        exact ⟨rfl, trivial⟩

example :
    let config := { SessionConfig.standard with maxRetries := some 1 }
    let data : VersionData := ⟨1, false, 0, false⟩
    (Course.follow config "relay" (script config [.unreachable "refused",
        .reached [] (.outcome (.accepted 13 data)), .unreachable "reset", .unreachable "gone",
        .reached [] (.outcome (.accepted 13 data))]) .begin).2 =
      ⟨[.connectFailed 1 "io error: refused", .connected "relay" 13 data, .disconnected "relay",
        .connectFailed 1 "io error: reset", .connectFailed 2 "io error: gone"], some .started⟩ := by
  decide

end ChainRelay.Session
