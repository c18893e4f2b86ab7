import ChainRelay.Proofs.Handshake.Acceptance
import ChainRelay.Proofs.Handshake.Agreement
import ChainRelay.Proofs.Handshake.Reply

/-! A handshake in which the client only asks for the server's versions. The question is a flag
among the parameters of each version, and the older versions have no place for it on the wire.
What is agreed on is the highest common version, so it hangs on that one version whether the
server hears the question at all. -/
namespace ChainRelay

namespace VersionData

/-- There is a place for the query in the wire form of the version. -/
def CarriesQuery (version : UInt64) : Prop :=
  (if isClientVersion version then extendedClient else extendedNode) ≤ version

instance (version : UInt64) : Decidable (CarriesQuery version) := by
  unfold CarriesQuery
  infer_instance

theorem networkMagic_carried (version : UInt64) (d : VersionData) :
    (d.carried version).networkMagic = d.networkMagic := by
  unfold carried
  repeat' split
  · rfl
  · rfl
  · rfl

theorem query_carried (version : UInt64) (d : VersionData) :
    (d.carried version).query = (decide (CarriesQuery version) && d.query) := by
  cases client : isClientVersion version with
  | true => simp [carried, CarriesQuery, client]
  | false =>
    by_cases late : extendedNode ≤ version
    · simp [carried, CarriesQuery, client, late]
    · simp [carried, CarriesQuery, client, late, new]

end VersionData

namespace VersionTable

def Shared (t s : VersionTable) (v : UInt64) : Prop := t.contains v = true ∧ s.contains v = true

def SameNetwork (t s : VersionTable) (v : UInt64) : Prop :=
  (t.get? v).map (·.networkMagic) = (s.get? v).map (·.networkMagic)

variable {t s : VersionTable} {v : UInt64}

theorem common_ofTable : Common s (.ofTable t) v ↔ Shared t s v := by
  unfold Common Shared
  rw [ProposedVersions.ofTable, VersionMap.contains_map]
  exact and_comm

theorem common_intoQuery : Common s (.ofTable t.intoQuery) v ↔ Shared t s v := by
  refine common_ofTable.trans ?_
  unfold Shared
  rw [intoQuery, VersionMap.contains_map]

theorem highest_common_intoQuery (highest : Highest (Shared t s) v) :
    Highest (Common s (.ofTable t.intoQuery)) v :=
  ⟨common_intoQuery.mpr highest.1, fun w common => highest.2 w (common_intoQuery.mp common)⟩

theorem get?_intoQuery {theirs : VersionData} (found : t.get? v = some theirs) :
    (ProposedVersions.ofTable t.intoQuery).get? v =
      some ({ theirs with query := true }.toCbor v) := by
  rw [ProposedVersions.ofTable, intoQuery, VersionMap.get?_map, VersionMap.get?_map, found]
  rfl

theorem negotiate_intoQuery (highest : Highest (Shared t s) v) (network : SameNetwork t s v) :
    ∃ data, s.negotiate (.ofTable t.intoQuery) = .ok (v, data) ∧
      data.query = decide (VersionData.CarriesQuery v) := by
  obtain ⟨theirs, found⟩ := Option.isSome_iff_exists.mp highest.1.1
  obtain ⟨own, known⟩ := Option.isSome_iff_exists.mp highest.1.2
  let asking : VersionData := { theirs with query := true }
  have read : VersionData.ofCbor v (asking.toCbor v) = .ok (asking.carried v) :=
    VersionData.ofCbor_toCbor v asking
  have magic : (asking.carried v).networkMagic = own.networkMagic := by
    rw [VersionData.networkMagic_carried]
    rw [SameNetwork, found, known] at network
    exact Option.some.inj network
  have agreed := (Answers.agreed (highest_common_intoQuery highest) known (get?_intoQuery found)
    read magic).eq
  refine ⟨_, agreed, ?_⟩
  rw [VersionData.query_carried, Bool.and_true]

theorem negotiate_intoQuery_foreign (highest : Highest (Shared t s) v)
    (network : ¬ SameNetwork t s v) :
    ∃ reason, s.negotiate (.ofTable t.intoQuery) = .error reason := by
  obtain ⟨theirs, found⟩ := Option.isSome_iff_exists.mp highest.1.1
  obtain ⟨own, known⟩ := Option.isSome_iff_exists.mp highest.1.2
  let asking : VersionData := { theirs with query := true }
  have read : VersionData.ofCbor v (asking.toCbor v) = .ok (asking.carried v) :=
    VersionData.ofCbor_toCbor v asking
  have differs : (asking.carried v).networkMagic ≠ own.networkMagic := by
    rw [VersionData.networkMagic_carried]
    intro same
    refine network ?_
    rw [SameNetwork, found, known]
    exact congrArg some same
  exact ⟨_, (Answers.foreign (highest_common_intoQuery highest) known (get?_intoQuery found)
    read differs).eq⟩

theorem negotiate_intoQuery_apart (apart : ∀ v, ¬ Shared t s v) :
    ∃ reason, s.negotiate (.ofTable t.intoQuery) = .error reason := by
  obtain ⟨r, answers⟩ := exists_answers s (.ofTable t.intoQuery)
  have answer := answers.eq
  cases answers with
  | agreed highest | undecodable highest | foreign highest =>
    exact (apart _ (common_intoQuery.mp highest.1)).elim
  | unreadable | mismatch => exact ⟨_, answer⟩

theorem exists_highest (some : ¬ ∀ v, ¬ Shared t s v) : ∃ v, Highest (Shared t s) v := by
  cases found : s.highestCommon (.ofTable t) with
  | none =>
    have apart := highestCommon_eq_none_iff.mp found
    exact (some fun v both => apart v (common_ofTable.mpr both)).elim
  | some e =>
    have highest := (highest_of_highestCommon found).1
    exact ⟨e.1, common_ofTable.mp highest.1, fun w both => highest.2 w (common_ofTable.mpr both)⟩

end VersionTable

namespace Handshake.Party

theorem converse_answer {client server : VersionTable} (few : client.size < UInt64.size)
    (few' : server.size < UInt64.size) {reply : Message}
    (answered : answer server (.ofTable client) = reply) :
    ∃ c s, converse client server = some (c, s) ∧ c.state = .done ∧ s.state = .done ∧
      c.outcome = verdict client reply.carried ∧ s.outcome = outcomeOf? reply := by
  have fits : reply.Fits := answered ▸ fits_answer few'
  cases reply with
  | proposeVersions proposed =>
    have told : (Message.proposeVersions proposed).IsReply := answered ▸ isReply_answer _ _
    cases told
  | acceptVersion version data =>
    refine ⟨_, _, converse_eq few answered fits rfl, ?_, rfl, ?_, rfl⟩
    · rw [Message.carried, received]
      split <;> rfl
    · rw [Message.carried, received, verdict]
      exact apply_ite Party.outcome _ _ _
  | refuse reason => exact ⟨_, _, converse_eq few answered fits rfl, rfl, rfl, rfl, rfl⟩
  | queryReply offered => exact ⟨_, _, converse_eq few answered fits rfl, rfl, rfl, rfl, rfl⟩

open VersionTable (Shared SameNetwork)

/-- What becomes of a question hangs on the highest common version. If the networks agree there
and the version carries the query, the server answers with its table, which reaches the client as
the wire carries it. If the version carries no query, the two sides are connected instead. In all
other cases both refuse, for the same reason. -/
theorem converse_intoQuery {t s : VersionTable} (few : t.size < UInt64.size)
    (few' : s.size < UInt64.size) :
    ∃ c p, converse t.intoQuery s = some (c, p) ∧ c.state = .done ∧ p.state = .done ∧
      (∀ v, Highest (Shared t s) v → SameNetwork t s v →
        (VersionData.CarriesQuery v →
          c.outcome = some (.queried s.carried) ∧ p.outcome = some (.queried s)) ∧
        (¬ VersionData.CarriesQuery v → ∃ data, data.query = false ∧
          c.outcome = some (.accepted v (data.carried v)) ∧ p.outcome = some (.accepted v data))) ∧
      ((∀ v, Highest (Shared t s) v → ¬ SameNetwork t s v) → ∃ reason,
        c.outcome = some (.refused reason) ∧ p.outcome = some (.refused reason)) := by
  have few₁ : t.intoQuery.size < UInt64.size := by
    simpa [VersionTable.intoQuery, VersionMap.size, VersionMap.map] using few
  obtain ⟨c, p, ran, closed, closed', told, told'⟩ :=
    converse_answer few₁ few' rfl
  refine ⟨c, p, ran, closed, closed', fun v highest network => ?_, fun apart => ?_⟩
  · obtain ⟨data, agreed, asks⟩ := VersionTable.negotiate_intoQuery highest network
    constructor
    · intro carries
      have answered : answer s (.ofTable t.intoQuery) = .queryReply s := by
        simp only [answer, agreed, asks, decide_eq_true carries, if_true]
      rw [answered] at told told'
      exact ⟨told, told'⟩
    · intro silent
      have quiet : data.query = false := asks.trans (decide_eq_false silent)
      have answered : answer s (.ofTable t.intoQuery) = .acceptVersion v data := by
        simp only [answer, agreed, quiet, Bool.false_eq_true, if_false]
      have known : t.intoQuery.contains v = true := by
        rw [VersionTable.intoQuery, VersionMap.contains_map]
        exact highest.1.1
      rw [answered] at told told'
      exact ⟨data, quiet, told.trans (if_pos known), told'⟩
  · have refused : ∃ reason, s.negotiate (.ofTable t.intoQuery) = .error reason := by
      by_cases none : ∀ v, ¬ Shared t s v
      · exact VersionTable.negotiate_intoQuery_apart none
      · obtain ⟨v, highest⟩ := VersionTable.exists_highest none
        exact VersionTable.negotiate_intoQuery_foreign highest (apart v highest)
    obtain ⟨reason, failed⟩ := refused
    have answered : answer s (.ofTable t.intoQuery) = .refuse reason := by
      simp only [answer, failed]
    rw [answered] at told told'
    exact ⟨reason, told, told'⟩

/-- The two sides share a version without the query and one with it. -/
theorem converse_intoQuery_told :
    let t : VersionTable := .nodeToNode 1
    let s : VersionTable := .ofList [(10, .new 1), (12, ⟨1, true, 0, false⟩)]
    t.size < UInt64.size ∧ s.size < UInt64.size ∧ Highest (Shared t s) 12 ∧
      SameNetwork t s 12 ∧ VersionData.CarriesQuery 12 ∧
      ∃ c p, converse t.intoQuery s = some (c, p) ∧ c.outcome = some (.queried s.carried) ∧
        p.outcome = some (.queried s) := by
  intro t s
  have highest : Highest (Shared t s) 12 := by
    have found : s.highestCommon (.ofTable t) = some (12, ⟨1, true, 0, false⟩) := rfl
    have common := (VersionTable.highest_of_highestCommon found).1
    exact ⟨VersionTable.common_ofTable.mp common.1,
      fun w both => common.2 w (VersionTable.common_ofTable.mpr both)⟩
  have carries : VersionData.CarriesQuery 12 := by decide
  obtain ⟨c, p, ran, -, -, ends, -⟩ := converse_intoQuery (t := t) (s := s) (by decide) (by decide)
  obtain ⟨client, server⟩ := (ends 12 highest rfl).1 carries
  exact ⟨by decide, by decide, highest, rfl, carries, c, p, ran, client, server⟩

/-- A server that has only an old version does not hear the question. -/
theorem converse_intoQuery_unheard :
    let t : VersionTable := .nodeToNode 1
    let s : VersionTable := .ofList [(10, .new 1)]
    Shared t s 10 ∧ SameNetwork t s 10 ∧ ∃ c p, converse t.intoQuery s = some (c, p) ∧
      c.outcome = some (.accepted 10 (.new 1)) ∧ p.outcome = some (.accepted 10 (.new 1)) := by
  intro t s
  have answered : answer s (.ofTable t.intoQuery) = .acceptVersion 10 (.new 1) := rfl
  exact ⟨⟨rfl, rfl⟩, rfl, _, _, converse_eq (by decide) answered trivial rfl, rfl, rfl⟩

end Handshake.Party
end ChainRelay
