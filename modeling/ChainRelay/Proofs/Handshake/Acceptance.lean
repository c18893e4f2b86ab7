import ChainRelay.Proofs.Handshake.Choice
import ChainRelay.Proofs.Protocol.Conducts
import Mathlib.Data.List.Induction

/-! What a client makes of what its peer tells it. The outcome follows from the last message
and the versions of the table. The network that an acceptance names is not looked at, so it is
the right one only where the peer saw to it. -/
namespace ChainRelay.Handshake
namespace Party

variable {σ : Type}

abbrev Log := List (Note Message Event)

def verdict (table : VersionTable) : Message → Option Outcome
  | .acceptVersion version data =>
    if table.contains version then some (.accepted version data)
    else
      some (.refused (.refused version "peer accepted a version that was not proposed"))
  | .refuse reason => some (.refused reason)
  | .queryReply offered => some (.queried offered)
  | .proposeVersions _ => none

def hear (last : Option Message) : Note Message Event → Option Message
  | .taken m => some m
  | .reset => none
  | _ => last

def heard (log : Log) : Option Message := log.foldl hear none

theorem heard_concat (log : Log) (note : Note Message Event) :
    heard (log ++ [note]) = hear (heard log) note := by
  unfold heard
  rw [List.foldl_append, List.foldl_cons, List.foldl_nil]

theorem heard_append_grown (c : Conduct σ Party State Message Event) (log : Log)
    (note : Note Message Event) (p q : Party) :
    heard (log ++ note :: c.grown p q) = hear (heard log) note := by
  have quiet : ∀ ms : List Message, (ms.map Note.queued).foldl hear (hear (heard log) note) =
      hear (heard log) note := by
    intro ms
    induction ms with
    | nil => rfl
    | cons m ms ih => exact ih
  rw [heard, List.foldl_append, List.foldl_cons]
  exact quiet _

theorem taken_mem_of_heard {log : Log} {m : Message} (last : heard log = some m) :
    .taken m ∈ log := by
  induction log using List.reverseRecOn with
  | nil => cases last
  | append_singleton log note ih =>
    rw [heard_concat] at last
    cases note with
    | taken m' =>
      cases last
      simp
    | reset => cases last
    | _ => exact List.mem_append_left _ (ih last)

/-- A client's table stays as it is, and its outcome is the verdict on what it heard last. -/
structure Judged (table : VersionTable) (log : Log) (p : Party) : Prop where
  role_eq : p.role = .client
  versions_eq : p.versions = table
  outcome_eq : p.outcome = (heard log).bind (verdict table)

variable {table : VersionTable} {log : Log} {p : Party}

theorem ne_proposeVersions_of_moved {m : Message} {next : State} (role : p.role = .client)
    (lacks : (kind σ).hasAgency p = false) (moved : p.state.move m = some next)
    (proposed : ProposedVersions) : m ≠ .proposeVersions proposed := by
  rintro rfl
  cases at_state : p.state with
  | propose =>
    change p.role.holds (State.agency p.state) = false at lacks
    rw [role, at_state] at lacks
    cases lacks
  | confirm | done =>
    rw [at_state] at moved
    cases moved

theorem Judged.of_take {m : Message} {next : State} (judged : Judged table log p)
    (other : ∀ proposed, m ≠ .proposeVersions proposed) :
    Judged table (log ++ .taken m :: (conduct σ).grown p (({ p with state := next }).received m))
      (({ p with state := next }).received m) := by
  have last :=
    heard_append_grown (conduct σ) log (.taken m) p (({ p with state := next }).received m)
  obtain ⟨role, versions, -⟩ := judged
  cases m with
  | proposeVersions proposed => exact (other proposed rfl).elim
  | acceptVersion version data =>
    subst versions
    by_cases known : p.versions.contains version = true
    · have taken : ({ p with state := next } : Party).received (.acceptVersion version data) =
          ({ p with state := next } : Party).finish (.accepted version data) := if_pos known
      rw [taken] at last ⊢
      refine ⟨role, rfl, ?_⟩
      rw [last, hear, Option.bind_some, verdict, if_pos known]
      rfl
    · have taken : ({ p with state := next } : Party).received (.acceptVersion version data) =
          ({ p with state := next } : Party).finish (.refused (.refused version
            "peer accepted a version that was not proposed")) := if_neg known
      rw [taken] at last ⊢
      refine ⟨role, rfl, ?_⟩
      rw [last, hear, Option.bind_some, verdict, if_neg known]
      rfl
  | refuse reason => exact ⟨role, versions, by rw [last]; rfl⟩
  | queryReply offered => exact ⟨role, versions, by rw [last]; rfl⟩

theorem keeps_judged (table : VersionTable) :
    (conduct σ).Keeps (Judged table) where
  ask {log p} r w judged := by
    refine ⟨judged.role_eq, judged.versions_eq, ?_⟩
    rw [heard_append_grown]
    exact judged.outcome_eq
  take {log m p next} w judged _ lacks moved :=
    judged.of_take (ne_proposeVersions_of_moved judged.role_eq lacks moved)
  give {log m p next} packet judged _ _ _ := by
    -- only a server settles its outcome by what it says
    have same : (kind σ).commit m next p = { p with state := next } := by
      change ({ p with state := next } : Party).sent m = _
      rw [sent]
      simp only [judged.role_eq]
    refine ⟨?_, ?_, ?_⟩
    · exact (congrArg Party.role same).trans judged.role_eq
    · exact (congrArg Party.versions same).trans judged.versions_eq
    · rw [heard_concat]
      exact (congrArg Party.outcome same).trans judged.outcome_eq
  call {log p} judged := by
    refine ⟨judged.role_eq, judged.versions_eq, ?_⟩
    rw [heard_concat]
    exact judged.outcome_eq
  reset {log p} judged := by
    refine ⟨judged.role_eq, judged.versions_eq, ?_⟩
    rw [heard_concat]
    rfl

def opening (table : VersionTable) (listeners : Listeners Event) : Handle Party :=
  .new { new .client table with listeners }

theorem judged_of_run {l : Listeners Event} {w : σ} {s : Handle Party × σ}
    (run : (conduct σ).Run (opening table l, w) log s) : Judged table log s.1.agent :=
  (keeps_judged table).run run ⟨rfl, rfl, rfl⟩

theorem verdict_eq_accepted {m : Message} {version : UInt64} {data : VersionData} :
    verdict table m = some (.accepted version data) ↔
      m = .acceptVersion version data ∧ table.contains version = true := by
  cases m with
  | acceptVersion v d =>
    by_cases known : table.contains v = true
    · rw [verdict, if_pos known]
      constructor
      · intro same
        cases same
        exact ⟨rfl, known⟩
      · rintro ⟨same, -⟩
        cases same
        rfl
    · rw [verdict, if_neg known]
      constructor
      · intro same
        cases same
      · rintro ⟨same, known'⟩
        cases same
        exact (known known').elim
  | _ =>
    constructor
    · intro same
      cases same
    · rintro ⟨same, -⟩
      cases same

theorem exists_accepted {version : UInt64} (known : table.contains version = true)
    (magic : UInt64) (l : Listeners Event) (w : σ) :
    ∃ payload log s, protocol.decode payload =
        .ok (.acceptVersion version (VersionData.new magic)) ∧
      (conduct σ).Run (opening table l, w) log s ∧
      s.1.agent.outcome = some (.accepted version (VersionData.new magic)) := by
  let reply : Message := .acceptVersion version (VersionData.new magic)
  have whole : reply.carried = reply := by
    have plain : (VersionData.new magic).carried version = VersionData.new magic := by
      unfold VersionData.carried
      repeat' split
      · simp [VersionData.new]
      · rfl
      · rfl
    exact congrArg (Message.acceptVersion version) plain
  obtain ⟨payload, -, read⟩ := conveys.delivered (m := reply) trivial
  rw [whole] at read
  let start : Party := { new .client table with listeners := l }
  have asked : (conduct σ).Step (opening table l, w) [.given _ none]
      (.new { start with state := .confirm }, w) :=
    .draw (AgentKind.takeNext_of_moves (k := kind σ) (a := start) rfl rfl rfl)
  have side : (kind σ).role { start with state := .confirm } = .client := rfl
  have told := Conduct.Step.take (c := conduct σ) (h := .new { start with state := .confirm })
    (AgentKind.consume_of_moves (m := reply) side rfl rfl w)
  refine ⟨payload, _, _, read, (Conduct.Run.nil.snoc asked).snoc told, ?_⟩
  change (if table.contains version then _ else _ : Party).outcome = _
  rw [if_pos known]
  rfl

/-- At all times the outcome of a client is the verdict on the last message that it took in. It
accepts exactly what it was last told to accept, if the version is one of its own, and it refuses
an acceptance of any other. The network is its own as long as the peer names no other; but the
peer may name whichever it likes. -/
theorem outcome_of_heard {l : Listeners Event} {w : σ} {s : Handle Party × σ}
    (run : (conduct σ).Run (opening table l, w) log s) :
    s.1.agent.outcome = (heard log).bind (verdict table) ∧
    (∀ version data, s.1.agent.outcome = some (.accepted version data) ↔
      heard log = some (.acceptVersion version data) ∧ table.contains version = true) ∧
    (∀ version data, heard log = some (.acceptVersion version data) →
      ¬ table.contains version = true → ∃ reason, s.1.agent.outcome = some (.refused reason)) ∧
    ((∀ version data own, .taken (.acceptVersion version data) ∈ log →
        table.get? version = some own → data.networkMagic = own.networkMagic) →
      ∀ version data, s.1.agent.outcome = some (.accepted version data) →
        ∃ own, table.get? version = some own ∧ data.networkMagic = own.networkMagic) ∧
    ∀ version magic, table.contains version = true → ∃ payload log' t,
      protocol.decode payload = .ok (.acceptVersion version (.new magic)) ∧
      (conduct σ).Run (opening table l, w) log' t ∧
      t.1.agent.outcome = some (.accepted version (.new magic)) := by
  have judged := (judged_of_run run).outcome_eq
  have accepts : ∀ version data, s.1.agent.outcome = some (.accepted version data) ↔
      heard log = some (.acceptVersion version data) ∧ table.contains version = true := by
    intro version data
    rw [judged, Option.bind_eq_some_iff]
    constructor
    · rintro ⟨m, last, brings⟩
      obtain ⟨rfl, known⟩ := verdict_eq_accepted.mp brings
      exact ⟨last, known⟩
    · rintro ⟨last, known⟩
      exact ⟨_, last, verdict_eq_accepted.mpr ⟨rfl, known⟩⟩
  refine ⟨judged, accepts, ?_, ?_, fun version magic known => exists_accepted known magic l w⟩
  · intro version data last unknown
    rw [judged, last, Option.bind_some, verdict, if_neg unknown]
    exact ⟨_, rfl⟩
  · intro honest version data outcome
    obtain ⟨last, known⟩ := (accepts version data).mp outcome
    obtain ⟨own, found⟩ := Option.isSome_iff_exists.mp known
    exact ⟨own, found, honest version data own (taken_mem_of_heard last) found⟩

/-- A client of the first network that is taken to the second. -/
theorem outcome_of_heard_foreign :
    let table : VersionTable := .nodeToNode 1
    let log : Log := [.given (.proposeVersions (.ofTable table)) none,
      .taken (.acceptVersion 10 (.new 2))]
    let s : Handle Party × Unit :=
      (.new { new .client table with
        state := .done, outcome := some (.accepted 10 (.new 2)) }, ())
    (conduct Unit).Run (opening table .empty, ()) log s ∧
      (∃ own, table.get? 10 = some own ∧ own.networkMagic = 1) ∧
      heard log = some (.acceptVersion 10 (.new 2)) ∧ table.contains 10 = true := by
  intro table log s
  let asking : Handle Party := .new { new .client table with state := .confirm }
  have asked : (conduct Unit).Step (opening table .empty, ())
      [.given (.proposeVersions (.ofTable table)) none] (asking, ()) :=
    Conduct.Step.draw (c := conduct Unit) (h := opening table .empty) (a := asking.agent) rfl
  have told : (conduct Unit).Step (asking, ()) [.taken (.acceptVersion 10 (.new 2))] s :=
    Conduct.Step.take (c := conduct Unit) (h := asking) (a := s.1.agent) rfl
  have run : (conduct Unit).Run (opening table .empty, ()) log s :=
    (Conduct.Run.nil.snoc asked).snoc told
  exact ⟨run, ⟨.new 1, rfl, rfl⟩, ((outcome_of_heard run).2.1 10 (.new 2)).mp rfl⟩

end Party
end ChainRelay.Handshake
