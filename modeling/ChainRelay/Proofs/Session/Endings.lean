import Mathlib.Data.List.Forall2
import ChainRelay.Proofs.Session.Release
import ChainRelay.Proofs.Session.Script

/-! How the rounds of a session stand, read off what became of its attempts. As long as an attempt
finds the handles of its session free, it goes by the dial and by how the wait for the handshake
ends: a peer that accepts ends the round with a connection, one that refuses ends the session, and
whatever else happens is a failure of the round. -/
namespace ChainRelay.Session

variable {σ : Type} {config : SessionConfig} {peer : String}

/-! ### Single attempts -/

/-- What a failure that may be repeated is reported as. -/
inductive Trial.FailsOf (config : SessionConfig) : Trial → SessionError → Prop
  | unreachable (detail : String) : FailsOf config (.unreachable detail) (.io detail)
  | unanswered : FailsOf config .unanswered (.connectTimeout config.connectTimeout)
  | closed (arrivals : List Bytes) :
    FailsOf config (.reached arrivals .closed) .closedDuringHandshake
  | timedOut (arrivals : List Bytes) :
    FailsOf config (.reached arrivals .timedOut) (.handshakeTimeout config.handshakeTimeout)
  | queried (arrivals : List Bytes) (table : VersionTable) :
    FailsOf config (.reached arrivals (.outcome (.queried table))) (.queried table.versions)

namespace Trial

variable {t : Trial}

theorem result_eq_ok_iff {version : UInt64} {data : VersionData} :
    t.result config = .ok (version, data) ↔
      ∃ arrivals, t = .reached arrivals (.outcome (.accepted version data)) := by
  constructor
  · intro accepted
    rcases t with detail | _ | ⟨arrivals, (version' | reason | table) | _ | _⟩ <;> cases accepted
    exact ⟨arrivals, rfl⟩
  · rintro ⟨arrivals, rfl⟩
    rfl

theorem result_eq_refused_iff {reason : RefuseReason} :
    t.result config = .error (.handshake reason) ↔
      ∃ arrivals, t = .reached arrivals (.outcome (.refused reason)) := by
  constructor
  · intro refused
    rcases t with detail | _ | ⟨arrivals, (version | reason' | table) | _ | _⟩ <;> cases refused
    exact ⟨arrivals, rfl⟩
  · rintro ⟨arrivals, rfl⟩
    rfl

theorem failsOf_iff {e : SessionError} :
    t.FailsOf config e ↔ t.result config = .error e ∧ ∀ reason, e ≠ .handshake reason := by
  constructor
  · rintro (_ | _ | _ | _ | _) <;> exact ⟨rfl, nofun⟩
  · rintro ⟨failed, retried⟩
    rcases t with detail | _ | ⟨arrivals, (version | reason | table) | _ | _⟩ <;> cases failed
    · exact .unreachable detail
    · exact .unanswered
    · exact absurd rfl (retried reason)
    · exact .queried arrivals table
    · exact .closed arrivals
    · exact .timedOut arrivals

end Trial

/-! ### Rounds -/

/-- The attempt that gave a round its standing, if that was not a failure. -/
inductive Standing.EndedBy : Standing → List Trial → Prop
  | ongoing : EndedBy .ongoing []
  | exhausted : EndedBy .exhausted []
  | refused (arrivals : List Bytes) (reason : RefuseReason) :
    EndedBy (.refused reason) [.reached arrivals (.outcome (.refused reason))]
  | connected (arrivals : List Bytes) (version : UInt64) (data : VersionData) :
    EndedBy (.connected (version, data)) [.reached arrivals (.outcome (.accepted version data))]
  | dropped (arrivals : List Bytes) (version : UInt64) (data : VersionData) :
    EndedBy (.dropped (version, data)) [.reached arrivals (.outcome (.accepted version data))]

/-- These are the attempts of the round: its failures, one by one, and what ended it. -/
def Round.IsMadeOf (config : SessionConfig) (r : Round) (trials : List Trial) : Prop :=
  ∃ failed ended, trials = failed ++ ended ∧
    List.Forall₂ (Trial.FailsOf config) failed r.failures ∧ r.standing.EndedBy ended

def Turn.result? : Turn → Option (Except SessionError Agreed)
  | .attempted result => some result
  | .dropped | .rested => none

def Round.results (r : Round) : List (Except SessionError Agreed) := r.turns.filterMap Turn.result?

theorem Standing.endedBy_of_results {standing : Standing} {trials : List Trial}
    (same : trials.map (Trial.result config) = standing.turns.filterMap Turn.result?) :
    standing.EndedBy trials := by
  cases standing with
  | ongoing =>
    rw [List.map_eq_nil_iff.mp same]
    exact .ongoing
  | exhausted =>
    rw [List.map_eq_nil_iff.mp same]
    exact .exhausted
  | refused reason =>
    obtain ⟨t, rfl, refused⟩ := List.map_eq_singleton_iff.mp same
    obtain ⟨arrivals, rfl⟩ := Trial.result_eq_refused_iff.mp refused
    exact .refused arrivals reason
  | connected agreed =>
    obtain ⟨t, rfl, accepted⟩ := List.map_eq_singleton_iff.mp same
    obtain ⟨arrivals, rfl⟩ := Trial.result_eq_ok_iff.mp accepted
    exact .connected arrivals _ _
  | dropped agreed =>
    obtain ⟨t, rfl, accepted⟩ := List.map_eq_singleton_iff.mp same
    obtain ⟨arrivals, rfl⟩ := Trial.result_eq_ok_iff.mp accepted
    exact .dropped arrivals _ _

theorem forall₂_failsOf {failed : List Trial} {errors : List SessionError}
    (same : failed.map (Trial.result config) = errors.map .error)
    (retried : ∀ e ∈ errors, ∀ reason, e ≠ .handshake reason) :
    List.Forall₂ (Trial.FailsOf config) failed errors := by
  induction errors generalizing failed with
  | nil =>
    rw [List.map_eq_nil_iff.mp same]
    exact .nil
  | cons e errors ih =>
    obtain ⟨t, rest, rfl, fails, others⟩ := List.map_eq_cons_iff.mp same
    exact .cons (Trial.failsOf_iff.mpr ⟨fails, retried e List.mem_cons_self⟩)
      (ih others fun e' member => retried e' (List.mem_cons_of_mem _ member))

theorem Round.Permitted.isMadeOf {r : Round} {trials : List Trial} (permitted : r.Permitted config)
    (same : trials.map (Trial.result config) = r.results) : r.IsMadeOf config trials := by
  obtain ⟨failures, standing⟩ := r
  have split : trials.map (Trial.result config) =
      failures.map .error ++ standing.turns.filterMap Turn.result? := by
    rw [same, results, turns, List.filterMap_append, List.filterMap_map]
    exact congrArg (· ++ _) (List.filterMap_eq_map ▸ rfl)
  obtain ⟨failed, ended, rfl, fails, ends⟩ := List.map_eq_append_iff.mp split
  exact ⟨failed, ended, rfl, forall₂_failsOf fails permitted.retried,
    Standing.endedBy_of_results ends⟩

theorem exists_parts {rounds : List Round} {trials : List Trial}
    (within : rounds.flatMap Round.results <+: trials.map (Trial.result config)) :
    ∃ parts, List.Forall₂ (fun r part => part.map (Trial.result config) = r.results) rounds parts ∧
      parts.flatten.map (Trial.result config) = rounds.flatMap Round.results ∧
      parts.flatten <+: trials := by
  induction rounds generalizing trials with
  | nil => exact ⟨[], .nil, rfl, List.nil_prefix⟩
  | cons r rounds ih =>
    obtain ⟨more, whole⟩ := within
    rw [List.flatMap_cons, List.append_assoc] at whole
    obtain ⟨part, others, rfl, here, there⟩ := List.map_eq_append_iff.mp whole.symm
    obtain ⟨parts, dealt, all, inside⟩ := ih ⟨more, there.symm⟩
    refine ⟨part :: parts, .cons here dealt, ?_, (List.prefix_append_right_inj part).mpr inside⟩
    rw [List.flatten_cons, List.map_append, here, all, List.flatMap_cons]

theorem results_take_script (config : SessionConfig) (trials : List Trial) (n : Nat) :
    ((script config trials).take n).filterMap Turn.result? <+:
      trials.map (Trial.result config) := by
  have all : (script config trials).filterMap Turn.result? = trials.map (Trial.result config) := by
    induction trials with
    | nil => rfl
    | cons t rest ih =>
      rw [script, List.flatMap_cons, List.filterMap_append, ← script, ih, Trial.turns,
        List.map_cons]
      cases t.result config <;> rfl
  rw [← all]
  exact (List.take_prefix n _).filterMap _

theorem results_filter (turns : List Turn) :
    (turns.filter (!·.isPause)).filterMap Turn.result? = turns.filterMap Turn.result? := by
  rw [List.filterMap_filter]
  congr 1
  funext t
  cases t <;> rfl

/-! ### Attempts that find their handles free -/

structure Effort (σ : Type) where
  trial : Trial
  link : Link
  board : Board σ

variable (chain : ChainSource σ) {crew : Crew}

structure Effort.Free (crew : Crew) (a : Effort σ) : Prop where
  onBoard : ∀ place ∈ crew.places, place < a.board.handles.length
  loose : ∀ place ∈ crew.places, a.board.connectionAt place = none

/-- After an attempt that has failed, the next one finds the handles free again. -/
theorem Effort.Free.of_failed {a : Effort σ} (free : a.Free crew) (apart : crew.places.Nodup)
    {e : SessionError} {l' : Link} {b' : Board σ}
    (failed : a.trial.play chain config crew a.link a.board = (.error e, l', b')) (t : Trial)
    (l : Link) : Effort.Free crew ⟨t, l, b'⟩ := by
  rcases a.trial.play_cases chain config free.onBoard a.link with ⟨agreed, l₂, b₂, -, done, -⟩ |
    ⟨e₂, l₂, b₂, freed, done, -, moved, -⟩ | ⟨agreed, name, l₂, b₂, before, taken, -, -, -, stranded⟩
  · cases done.symm.trans failed
  · cases done.symm.trans failed
    refine ⟨fun place member => moved.length_eq ▸ free.onBoard place member, ?_⟩
    intro place member
    by_cases among : place ∈ freed
    · exact moved.at_of_mem among
    · rw [moved.at_of_not_mem among]
      exact free.loose place member
  · exact (stranded.not_free apart free.loose).elim

def Effort.result (config : SessionConfig) (crew : Crew) (a : Effort σ) :
    Except SessionError Agreed :=
  (a.trial.play chain config crew a.link a.board).1

def efforts (config : SessionConfig) (crew : Crew) (made : List (Effort σ)) : List Turn :=
  made.flatMap fun a => turnsOf (a.result chain config crew)

theorem efforts_eq_script (apart : crew.places.Nodup) {made : List (Effort σ)}
    (free : ∀ a ∈ made, a.Free crew) :
    efforts chain config crew made = script config (made.map Effort.trial) := by
  rw [efforts, script, List.flatMap_map]
  refine List.flatMap_congr fun a member => ?_
  have own := free a member
  rw [Effort.result, Trial.play_result chain config own.onBoard own.loose apart, Trial.turns]

/-- As long as attempts find the handles of their session free, each round consists of attempts
that failed, of the dial or without an answer or of a peer that hung up, took too long or told of
its versions, and then of the one whose handshake was accepted or refused, if there was one; the
rounds take the attempts in their order, and all that were made as long as the last round is not
final. Events and start tell of these rounds and of nothing else. -/
theorem Course.follow_efforts (config : SessionConfig) (peer : String) (apart : crew.places.Nodup)
    {made : List (Effort σ)} (free : ∀ a ∈ made, a.Free crew) (n : Nat) :
    let told := (efforts chain config crew made).take n
    let run := Course.follow config peer told .begin
    ∃ earlier last parts,
      (∀ r ∈ earlier, config.autoReconnect = true ∧ r.IsDropped) ∧
      (∀ r ∈ earlier ++ [last], r.Permitted config) ∧
      run.2.events = (earlier ++ [last]).flatMap (Round.events peer) ∧
      run.2.start = (earlier ++ [last]).head?.bind Round.start ∧
      (run.1.phase = .over ↔ last.IsFinal config) ∧
      List.Forall₂ (Round.IsMadeOf config) (earlier ++ [last]) parts ∧
      parts.flatten <+: made.map Effort.trial ∧
      (¬ last.IsFinal config →
        parts.flatten.length = (told.filterMap Turn.result?).length) := by
  rw [efforts_eq_script chain apart free]
  intro told run
  obtain ⟨earlier, last, taken, stands, within, whole⟩ :=
    exists_rounds config peer (made.map Effort.trial) n
  have results : (earlier ++ [last]).flatMap Round.results = taken.filterMap Turn.result? := by
    rw [← stands.turns_eq, List.filterMap_flatMap]
    rfl
  have front : taken.filterMap Turn.result? <+: told.filterMap Turn.result? := by
    rw [← results_filter told]
    exact within.filterMap _
  obtain ⟨parts, dealt, all, inside⟩ :=
    exists_parts (results ▸ front.trans (results_take_script config _ n))
  refine ⟨earlier, last, parts, stands.repeated, stands.permitted, stands.events_eq,
    stands.start_eq, stands.places.over_iff, ?_, inside, ?_⟩
  · have both := (List.forall₂_and_left _ parts).mpr ⟨stands.permitted, dealt⟩
    exact both.imp fun r part ⟨permitted, same⟩ => permitted.isMadeOf same
  · intro goesOn
    have every := whole fun ended => goesOn (stands.places.over_iff.mp ended)
    rw [← List.length_map (Trial.result config), all, results, every, results_filter]

example :
    let board : Board ChainStore :=
      ⟨[.handshake (.new (.new .client (.nodeToNode 42)))], .inMemory, [], []⟩
    let effort (id : Nat) (ending : Ending) : Effort ChainStore :=
      ⟨.reached [] ending, .new id 1000, board⟩
    let reason := RefuseReason.versionMismatch [13]
    (Course.follow .standard "relay" (efforts ChainStore.source .standard ⟨0, []⟩
        [effort 1 .closed, effort 2 (.outcome (.refused reason))]) .begin).2 =
      ⟨[.connectFailed 1 "connection closed during handshake"],
        some (.failed (.handshake reason))⟩ := by
  decide +kernel

end ChainRelay.Session
