import ChainRelay.Proofs.Session.Trial

/-! A session tells of its attempts round by round. A round numbers its failures from 1; it
ends with a success, with a refusal, or when no retry is left. Another follows only when the
connection of the one before has dropped and the session is to reconnect. -/
namespace ChainRelay.Session

inductive Standing where
  | ongoing
  | refused (reason : RefuseReason)
  | exhausted
  | connected (agreed : Agreed)
  /-- it had succeeded, and the connection is gone again -/
  | dropped (agreed : Agreed)

def Standing.turns : Standing → List Turn
  | ongoing | exhausted => []
  | refused reason => [.attempted (.error (.handshake reason))]
  | connected agreed => [.attempted (.ok agreed)]
  | dropped agreed => [.attempted (.ok agreed), .dropped]

def Standing.events (peer : String) : Standing → List SessionEvent
  | ongoing | exhausted | refused _ => []
  | connected (version, data) => [.connected peer version data]
  | dropped (version, data) => [.connected peer version data, .disconnected peer]

structure Round where
  /-- the attempts that were followed by another or used up the retries -/
  failures : List SessionError
  standing : Standing

namespace Round

def turns (r : Round) : List Turn :=
  r.failures.map (fun e => .attempted (.error e)) ++ r.standing.turns

def events (peer : String) (r : Round) : List SessionEvent :=
  r.failures.mapIdx (fun i e => .connectFailed (i + 1) e.message) ++ r.standing.events peer

def start : Round → Option StartResult
  | ⟨_, .ongoing⟩ => none
  | ⟨_, .refused reason⟩ => some (.failed (.handshake reason))
  | ⟨failures, .exhausted⟩ =>
    failures.getLast?.map fun e => .failed (.connectFailed failures.length e.message)
  | ⟨_, .connected _⟩ | ⟨_, .dropped _⟩ => some .started

def IsDropped (r : Round) : Prop := ∃ agreed, r.standing = .dropped agreed

def IsFinal (config : SessionConfig) (r : Round) : Prop :=
  match r.standing with
  | .ongoing | .connected _ => False
  | .refused _ | .exhausted => True
  | .dropped _ => config.autoReconnect = false

/-- A refusal is not among the failures that are retried, and the retries are used up with the
first failure beyond their number. -/
structure Permitted (config : SessionConfig) (r : Round) : Prop where
  retried : ∀ e ∈ r.failures, ∀ reason, e ≠ .handshake reason
  bounded : ∀ m, config.maxRetries = some m → r.failures.length ≤ m.toNat + 1
  exhausted : r.standing = .exhausted ↔
    ∃ m, config.maxRetries = some m ∧ r.failures.length = m.toNat + 1

inductive Places (config : SessionConfig) : Round → Phase → Prop
  | attempting (failures : List SessionError) :
    Places config ⟨failures, .ongoing⟩ (.attempting (failures.length + 1))
  | resting (failures : List SessionError) :
    Places config ⟨failures, .ongoing⟩ (.resting failures.length)
  | refused (failures : List SessionError) (reason : RefuseReason) :
    Places config ⟨failures, .refused reason⟩ .over
  | exhausted (failures : List SessionError) : Places config ⟨failures, .exhausted⟩ .over
  | connected (failures : List SessionError) (agreed : Agreed) :
    Places config ⟨failures, .connected agreed⟩ .up
  | again (failures : List SessionError) (agreed : Agreed)
    (reconnect : config.autoReconnect = true) :
    Places config ⟨failures, .dropped agreed⟩ (.resting 0)
  | ended (failures : List SessionError) (agreed : Agreed) (stay : config.autoReconnect = false) :
    Places config ⟨failures, .dropped agreed⟩ .over

variable {config : SessionConfig} {r : Round}

theorem Places.over_iff {p : Phase} (places : Places config r p) :
    p = .over ↔ r.IsFinal config := by
  cases places <;> simp_all [IsFinal]

theorem Permitted.stand {failures : List SessionError} {standing other : Standing}
    (permitted : Permitted config ⟨failures, standing⟩) (before : standing ≠ .exhausted)
    (after : other ≠ .exhausted) : Permitted config ⟨failures, other⟩ where
  retried := permitted.retried
  bounded := permitted.bounded
  exhausted := by
    constructor
    · intro same
      exact absurd same after
    · intro beyond
      exact absurd (permitted.exhausted.mpr beyond) before

theorem permitted_fresh (config : SessionConfig) : Permitted config ⟨[], .ongoing⟩ where
  retried := by simp
  bounded := by simp
  exhausted := by simp

end Round

variable {config : SessionConfig} {peer : String}

/-! ### One turn -/

namespace Course

variable {c : Course} {number : Nat} {e : SessionError}

theorem isExhausted_iff {failures : Nat} :
    isExhausted config failures = true ↔ ∃ m, config.maxRetries = some m ∧ m.toNat < failures := by
  unfold isExhausted
  cases config.maxRetries with
  | none => simp
  | some m => simp

theorem attempted_ok (attempting : c.phase = .attempting number) (agreed : Agreed) :
    c.attempted config peer (.ok agreed) =
      (⟨.up, true⟩, ⟨[.connected peer agreed.1 agreed.2],
        if c.isStarted then none else some .started⟩) := by
  rw [attempted, attempting]

theorem attempted_refused (attempting : c.phase = .attempting number) (reason : RefuseReason) :
    c.attempted config peer (.error (.handshake reason)) = c.giveUp [] (.handshake reason) := by
  rw [attempted, attempting]

theorem attempted_failed (attempting : c.phase = .attempting number)
    (retried : ∀ reason, e ≠ .handshake reason) :
    c.attempted config peer (.error e) =
      if isExhausted config number then
        c.giveUp [.connectFailed number e.message] (.connectFailed number e.message)
      else ({ c with phase := .resting number }, ⟨[.connectFailed number e.message], none⟩) := by
  rw [attempted, attempting]
  cases e with
  | handshake reason => exact absurd rfl (retried reason)
  | _ => rfl

theorem dropped_of_up (up : c.phase = .up) :
    c.dropped config peer false =
      ({ c with phase := if config.autoReconnect then .resting 0 else .over },
        ⟨[.disconnected peer], none⟩) := by
  rw [dropped, up]
  cases config.autoReconnect <;> rfl

theorem rested_of_resting {failures : Nat} (resting : c.phase = .resting failures) :
    c.rested false = ({ c with phase := .attempting (failures + 1) }, ⟨[], none⟩) := by
  rw [rested, resting]
  rfl

theorem step_over (ended : c.phase = .over) (t : Turn) :
    c.step config peer t = (c, ⟨[], none⟩) := by
  cases t with
  | attempted r => rw [step, attempted, ended]
  | dropped => rw [step, dropped, ended]
  | rested => rw [step, rested, ended]

end Course

theorem Round.Permitted.fail {failures : List SessionError} {e : SessionError}
    (permitted : Permitted config ⟨failures, .ongoing⟩)
    (retried : ∀ reason, e ≠ .handshake reason) :
    (Course.isExhausted config (failures.length + 1) = true →
        Permitted config ⟨failures ++ [e], .exhausted⟩) ∧
      (Course.isExhausted config (failures.length + 1) = false →
        Permitted config ⟨failures ++ [e], .ongoing⟩) := by
  have room : ∀ m, config.maxRetries = some m → failures.length ≤ m.toNat := by
    intro m limit
    have bounded : failures.length ≤ m.toNat + 1 := permitted.bounded m limit
    have within : failures.length ≠ m.toNat + 1 := by
      intro full
      cases permitted.exhausted.mpr ⟨m, limit, full⟩
    omega
  have all : ∀ e' ∈ failures ++ [e], ∀ reason, e' ≠ .handshake reason := by
    intro e' member
    rcases List.mem_append.mp member with old | new
    · exact permitted.retried e' old
    · rw [List.mem_singleton.mp new]
      exact retried
  have bounded : ∀ m, config.maxRetries = some m → (failures ++ [e]).length ≤ m.toNat + 1 := by
    intro m limit
    have := room m limit
    rw [List.length_append, List.length_singleton]
    omega
  have full_iff : Course.isExhausted config (failures.length + 1) = true ↔
      ∃ m, config.maxRetries = some m ∧ (failures ++ [e]).length = m.toNat + 1 := by
    rw [Course.isExhausted_iff, List.length_append, List.length_singleton]
    constructor
    · rintro ⟨m, limit, beyond⟩
      have := room m limit
      exact ⟨m, limit, by omega⟩
    · rintro ⟨m, limit, full⟩
      exact ⟨m, limit, by omega⟩
  constructor
  · intro used
    exact ⟨all, bounded, fun _ => full_iff.mp used, fun _ => rfl⟩
  · intro left
    refine ⟨all, bounded, nofun, fun full => ?_⟩
    rw [full_iff.mpr full] at left
    cases left

def Report.followedBy (first later : Report) : Report :=
  ⟨first.events ++ later.events, first.start <|> later.start⟩

theorem Report.followedBy_assoc (a b c : Report) :
    (a.followedBy b).followedBy c = a.followedBy (b.followedBy c) := by
  obtain ⟨events, start⟩ := a
  cases start <;> simp [followedBy]

@[simp] theorem Report.nothing_followedBy (r : Report) : Report.followedBy ⟨[], none⟩ r = r := by
  simp [followedBy]

@[simp] theorem Report.followedBy_nothing (r : Report) : r.followedBy ⟨[], none⟩ = r := by
  simp [followedBy]

theorem Course.follow_cons (t : Turn) (rest : List Turn) (c : Course) :
    c.follow config peer (t :: rest) =
      (((c.step config peer t).1.follow config peer rest).1,
        (c.step config peer t).2.followedBy
          ((c.step config peer t).1.follow config peer rest).2) :=
  rfl

/-! ### The rounds so far -/

/-- A course has taken these turns, has told of these rounds, and is where they have led. -/
structure Stands (config : SessionConfig) (peer : String) (earlier : List Round) (last : Round)
    (c : Course) (taken : List Turn) (told : Report) : Prop where
  repeated : ∀ r ∈ earlier, config.autoReconnect = true ∧ r.IsDropped
  permitted : ∀ r ∈ earlier ++ [last], r.Permitted config
  places : last.Places config c.phase
  isStarted : c.isStarted = true ↔ earlier ≠ [] ∨ last.start = some .started
  turns_eq : (earlier ++ [last]).flatMap Round.turns = taken
  events_eq : told.events = (earlier ++ [last]).flatMap (Round.events peer)
  start_eq : told.start = (earlier ++ [last]).head?.bind Round.start

variable {earlier : List Round} {last last' : Round} {c c' : Course} {taken : List Turn}
  {told new : Report} {turn : Turn}

theorem Round.IsDropped.started {r : Round} (dropped : r.IsDropped) : r.start = some .started := by
  obtain ⟨failures, standing⟩ := r
  obtain ⟨agreed, rfl⟩ := dropped
  rfl

namespace Stands

theorem begin (config : SessionConfig) (peer : String) :
    Stands config peer [] ⟨[], .ongoing⟩ .begin [] ⟨[], none⟩ where
  repeated := by simp
  permitted := by simpa using Round.permitted_fresh config
  places := .attempting []
  isStarted := by simp [Course.begin, Round.start]
  turns_eq := rfl
  events_eq := rfl
  start_eq := rfl

theorem permitted_last (stands : Stands config peer earlier last c taken told) :
    last.Permitted config :=
  stands.permitted last (by simp)

theorem waiting (stands : Stands config peer earlier last c taken told)
    (fresh : last.start = none) (none : earlier = []) : c.isStarted = false := by
  cases started : c.isStarted with
  | false => rfl
  | true =>
    rcases stands.isStarted.mp started with some | own
    · exact absurd none some
    · rw [fresh] at own
      cases own

/-- The last round goes on, and what is new is its own. The start comes back of it unless it has
come back before. -/
theorem goOn (stands : Stands config peer earlier last c taken told)
    (permitted : last'.Permitted config) (places : last'.Places config c'.phase)
    (turns : last'.turns = last.turns ++ [turn])
    (events : last'.events peer = last.events peer ++ new.events)
    (start : new.start = if c.isStarted then none else last'.start)
    (isStarted : c'.isStarted = true ↔ c.isStarted = true ∨ last'.start = some .started)
    (before : last.start = none ∨ last.start = some .started ∧ last'.start = some .started) :
    Stands config peer earlier last' c' (taken ++ [turn]) (told.followedBy new) where
  repeated := stands.repeated
  permitted r member := by
    rcases List.mem_append.mp member with old | this
    · exact stands.permitted r (List.mem_append_left _ old)
    · rw [List.mem_singleton.mp this]
      exact permitted
  places := places
  isStarted := by
    rw [isStarted, stands.isStarted]
    rcases before with none | ⟨same, still⟩
    · simp [none]
    · simp [same, still]
  turns_eq := by
    rw [← stands.turns_eq]
    simp [turns]
  events_eq := by
    rw [Report.followedBy, stands.events_eq]
    simp [events]
  start_eq := by
    rw [Report.followedBy, stands.start_eq, start]
    cases earlier with
    | nil =>
      rcases before with none | ⟨same, still⟩
      · simp [none, stands.waiting none rfl]
      · simp [same, still]
    | cons r rest =>
      have started := (stands.repeated r List.mem_cons_self).2.started
      simp [started]

variable {failures : List SessionError} {number : Nat}

theorem accepted (stands : Stands config peer earlier last c taken told)
    (attempting : c.phase = .attempting number) (agreed : Agreed) :
    ∃ last', Stands config peer earlier last' (c.attempted config peer (.ok agreed)).1
      (taken ++ [.attempted (.ok agreed)])
      (told.followedBy (c.attempted config peer (.ok agreed)).2) := by
  rw [Course.attempted_ok attempting]
  have places := stands.places
  rw [attempting] at places
  cases places with
  | attempting failures =>
    refine ⟨⟨failures, .connected agreed⟩, stands.goOn (stands.permitted_last.stand nofun nofun)
      (.connected failures agreed) ?_ ?_ rfl ?_ (.inl rfl)⟩
    · simp [Round.turns, Standing.turns]
    · simp [Round.events, Standing.events]
    · simp [Round.start]

theorem refused (stands : Stands config peer earlier last c taken told)
    (attempting : c.phase = .attempting number) (reason : RefuseReason) :
    ∃ last', Stands config peer earlier last'
      (c.attempted config peer (.error (.handshake reason))).1
      (taken ++ [.attempted (.error (.handshake reason))])
      (told.followedBy (c.attempted config peer (.error (.handshake reason))).2) := by
  rw [Course.attempted_refused attempting]
  have places := stands.places
  rw [attempting] at places
  cases places with
  | attempting failures =>
    refine ⟨⟨failures, .refused reason⟩, stands.goOn (stands.permitted_last.stand nofun nofun)
      (.refused failures reason) ?_ ?_ rfl ?_ (.inl rfl)⟩
    · simp [Round.turns, Standing.turns]
    · simp [Round.events, Standing.events, Course.giveUp]
    · simp [Round.start, Course.giveUp]

theorem failed (stands : Stands config peer earlier last c taken told)
    (attempting : c.phase = .attempting number) {e : SessionError}
    (retried : ∀ reason, e ≠ .handshake reason) :
    ∃ last', Stands config peer earlier last' (c.attempted config peer (.error e)).1
      (taken ++ [.attempted (.error e)])
      (told.followedBy (c.attempted config peer (.error e)).2) := by
  rw [Course.attempted_failed attempting retried]
  have places := stands.places
  rw [attempting] at places
  cases places with
  | attempting failures =>
    have fail := stands.permitted_last.fail retried
    cases used : Course.isExhausted config (failures.length + 1) with
    | true =>
      rw [if_pos rfl]
      refine ⟨⟨failures ++ [e], .exhausted⟩, stands.goOn (fail.1 used) (.exhausted _) ?_ ?_ ?_ ?_
        (.inl rfl)⟩
      · simp [Round.turns, Standing.turns]
      · simp [Round.events, Standing.events, Course.giveUp]
      · simp [Round.start, Course.giveUp]
      · simp [Round.start, Course.giveUp]
    | false =>
      rw [if_neg nofun]
      refine ⟨⟨failures ++ [e], .ongoing⟩, stands.goOn (fail.2 used) ?_ ?_ ?_ ?_ ?_ (.inl rfl)⟩
      · have resting : Round.Places config ⟨failures ++ [e], .ongoing⟩
            (.resting (failures ++ [e]).length) := .resting _
        rwa [List.length_append] at resting
      · simp [Round.turns, Standing.turns]
      · simp [Round.events, Standing.events]
      · simp [Round.start]
      · simp [Round.start]

theorem attempted (stands : Stands config peer earlier last c taken told)
    (attempting : c.phase = .attempting number) (result : Except SessionError Agreed) :
    ∃ last', Stands config peer earlier last' (c.attempted config peer result).1
      (taken ++ [.attempted result]) (told.followedBy (c.attempted config peer result).2) := by
  cases result with
  | ok agreed => exact stands.accepted attempting agreed
  | error e =>
    by_cases refusal : ∃ reason, e = .handshake reason
    · obtain ⟨reason, rfl⟩ := refusal
      exact stands.refused attempting reason
    · exact stands.failed attempting fun reason same => refusal ⟨reason, same⟩

theorem dropped (stands : Stands config peer earlier last c taken told) (up : c.phase = .up) :
    ∃ last', Stands config peer earlier last' (c.dropped config peer false).1 (taken ++ [.dropped])
      (told.followedBy (c.dropped config peer false).2) := by
  rw [Course.dropped_of_up up]
  have places := stands.places
  rw [up] at places
  cases places with
  | connected failures agreed =>
    have started : c.isStarted = true := stands.isStarted.mpr (.inr rfl)
    refine ⟨⟨failures, .dropped agreed⟩, stands.goOn (stands.permitted_last.stand nofun nofun)
      ?_ ?_ ?_ ?_ ?_ (.inr ⟨rfl, rfl⟩)⟩
    · cases reconnect : config.autoReconnect with
      | true => exact .again failures agreed reconnect
      | false => exact .ended failures agreed reconnect
    · simp [Round.turns, Standing.turns]
    · simp [Round.events, Standing.events]
    · simp [started]
    · simp [started]

theorem rested (stands : Stands config peer earlier last c taken told)
    {n : Nat} (resting : c.phase = .resting n) :
    ∃ earlier' last', Stands config peer earlier' last' (c.rested false).1 taken
      (told.followedBy (c.rested false).2) := by
  rw [Course.rested_of_resting resting]
  have places := stands.places
  rw [resting] at places
  rw [Report.followedBy_nothing]
  cases places with
  | resting failures =>
    exact ⟨earlier, ⟨failures, .ongoing⟩, { stands with places := .attempting failures }⟩
  | again failures agreed reconnect =>
    have started : c.isStarted = true := stands.isStarted.mpr (.inr rfl)
    refine ⟨earlier ++ [⟨failures, .dropped agreed⟩], ⟨[], .ongoing⟩, ?_⟩
    constructor
    · intro r member
      rcases List.mem_append.mp member with old | this
      · exact stands.repeated r old
      · rw [List.mem_singleton.mp this]
        exact ⟨reconnect, agreed, rfl⟩
    · intro r member
      rcases List.mem_append.mp member with old | this
      · exact stands.permitted r old
      · rw [List.mem_singleton.mp this]
        exact Round.permitted_fresh config
    · exact .attempting []
    · simp [started]
    · rw [← stands.turns_eq]
      simp [Round.turns, Standing.turns]
    · rw [stands.events_eq]
      simp [Round.events, Standing.events]
    · rw [stands.start_eq]
      cases earlier <;> rfl

end Stands

end ChainRelay.Session
