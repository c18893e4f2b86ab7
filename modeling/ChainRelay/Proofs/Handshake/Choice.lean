import ChainRelay.Proofs.Handshake.Agreement

/-! The choice of a version. The highest common version decides, with the parameters that were
offered for it and no others. Only where there is none does it matter whether anything that was
offered can be read. -/
namespace ChainRelay

namespace VersionMap

variable {α : Type} {m : VersionMap α} {v : UInt64}

theorem get?_eq_some_iff {a : α} : m.get? v = some a ↔ (v, a) ∈ m.entries := by
  constructor
  · intro found
    obtain ⟨before, after, cut, -⟩ := List.lookup_eq_some_iff.mp found
    simp [cut]
  · intro member
    obtain ⟨before, after, cut⟩ := List.append_of_mem member
    refine List.lookup_eq_some_iff.mpr ⟨before, after, cut, ?_⟩
    intro e earlier
    have apart := m.pairwise_ne
    rw [cut] at apart
    exact bne_iff_ne.mpr ((List.pairwise_append.mp apart).2.2 e earlier (v, a) (by simp)).symm

theorem contains_iff : m.contains v = true ↔ ∃ a, (v, a) ∈ m.entries := by
  rw [contains, Option.isSome_iff_exists]
  exact exists_congr fun a => get?_eq_some_iff

theorem mem_versions_iff : v ∈ m.versions ↔ m.contains v = true := by
  rw [contains_iff, versions, List.mem_map]
  constructor
  · rintro ⟨⟨w, a⟩, member, rfl⟩
    exact ⟨a, member⟩
  · rintro ⟨a, member⟩
    exact ⟨(v, a), member, rfl⟩

theorem find?_reverse_eq_some {test : UInt64 × α → Bool} {e : UInt64 × α}
    (found : m.entries.reverse.find? test = some e) :
    e ∈ m.entries ∧ test e = true ∧ ∀ x ∈ m.entries, test x = true → x.1 ≤ e.1 := by
  obtain ⟨passes, above, below, cut, none⟩ := List.find?_eq_some_iff_append.mp found
  have member : ∀ x, x ∈ m.entries ↔ x ∈ above ++ e :: below := by
    intro x
    rw [← cut, List.mem_reverse]
  have descending : (above ++ e :: below).Pairwise fun x y => y.1 < x.1 := by
    rw [← cut, List.pairwise_reverse]
    exact m.ascending
  refine ⟨(member e).mpr (by simp), passes, ?_⟩
  intro x inside passed
  rcases List.mem_append.mp ((member x).mp inside) with higher | rest
  · have failed := none x higher
    rw [passed] at failed
    contradiction
  · rcases List.mem_cons.mp rest with rfl | lower
    · exact UInt64.le_refl _
    · have tail := (List.pairwise_append.mp descending).2.1
      exact UInt64.le_of_lt ((List.pairwise_cons.mp tail).1 x lower)

end VersionMap

/-- `v` is one of these versions, and none of them is above it. -/
def Highest (among : UInt64 → Prop) (v : UInt64) : Prop := among v ∧ ∀ w, among w → w ≤ v

theorem Highest.unique {among : UInt64 → Prop} {v w : UInt64} (one : Highest among v)
    (other : Highest among w) : v = w :=
  UInt64.le_antisymm (other.2 v one.1) (one.2 w other.1)

namespace ProposedVersions

/-- A version is offered with parameters that can be decoded. -/
def Readable (p : ProposedVersions) : Prop :=
  ∃ v raw d, p.get? v = some raw ∧ VersionData.ofCbor v raw = .ok d

theorem any_isReadable_iff {p : ProposedVersions} :
    p.entries.any isReadable = true ↔ p.Readable := by
  rw [List.any_eq_true]
  constructor
  · rintro ⟨⟨v, raw⟩, member, reads⟩
    cases read : VersionData.ofCbor v raw with
    | error e => simp [isReadable, read, Except.toBool] at reads
    | ok d => exact ⟨v, raw, d, VersionMap.get?_eq_some_iff.mpr member, read⟩
  · rintro ⟨v, raw, d, offered, read⟩
    refine ⟨(v, raw), VersionMap.get?_eq_some_iff.mp offered, ?_⟩
    simp [isReadable, read, Except.toBool]

theorem highest_of_getLast? {p : ProposedVersions} {v : UInt64}
    (last : p.versions.getLast? = some v) : Highest (· ∈ p.versions) v := by
  obtain ⟨below, cut⟩ := List.getLast?_eq_some_iff.mp last
  have sorted : p.versions.Pairwise (· < ·) := List.pairwise_map.mpr p.ascending
  rw [cut] at sorted ⊢
  constructor
  · exact List.mem_append_right below (List.mem_singleton.mpr rfl)
  · intro w offered
    rcases List.mem_append.mp offered with lower | same
    · exact UInt64.le_of_lt ((List.pairwise_append.mp sorted).2.2 w lower v (by simp))
    · rw [List.mem_singleton.mp same]
      exact UInt64.le_refl v

theorem unreadable_of_readable {p : ProposedVersions} (readable : p.Readable) :
    p.unreadable = none := by
  rw [unreadable, if_pos (any_isReadable_iff.mpr readable)]

theorem unreadable_of_not_readable {p : ProposedVersions} (broken : ¬ p.Readable) :
    p.unreadable = p.versions.getLast? := by
  rw [unreadable, if_neg (fun any => broken (any_isReadable_iff.mp any))]

end ProposedVersions

namespace VersionTable

variable {t : VersionTable} {p : ProposedVersions}

def Common (t : VersionTable) (p : ProposedVersions) (v : UInt64) : Prop :=
  t.contains v = true ∧ p.contains v = true

theorem highest_of_highestCommon {v : UInt64} {own : VersionData}
    (found : t.highestCommon p = some (v, own)) :
    Highest (Common t p) v ∧ t.get? v = some own := by
  obtain ⟨member, offered, highest⟩ := VersionMap.find?_reverse_eq_some found
  refine ⟨⟨⟨VersionMap.contains_of_mem member, offered⟩, ?_⟩,
    VersionMap.get?_eq_some_iff.mpr member⟩
  rintro w ⟨known, asked⟩
  obtain ⟨d, inside⟩ := VersionMap.contains_iff.mp known
  exact highest (w, d) inside asked

theorem highestCommon_of_highest {v : UInt64} {own : VersionData}
    (highest : Highest (Common t p) v) (known : t.get? v = some own) :
    t.highestCommon p = some (v, own) := by
  cases found : t.highestCommon p with
  | none =>
    have missing := List.find?_eq_none.mp found (v, own)
      (List.mem_reverse.mpr (VersionMap.get?_eq_some_iff.mp known))
    exact absurd highest.1.2 missing
  | some e =>
    obtain ⟨highest', known'⟩ := highest_of_highestCommon found
    have same := highest.unique highest'
    rw [same, known'] at known
    rw [same, ← Option.some.inj known]

theorem highestCommon_eq_none_iff : t.highestCommon p = none ↔ ∀ v, ¬ Common t p v := by
  constructor
  · rintro none v ⟨known, asked⟩
    obtain ⟨d, inside⟩ := VersionMap.contains_iff.mp known
    exact List.find?_eq_none.mp none (v, d) (List.mem_reverse.mpr inside) asked
  · intro apart
    cases found : t.highestCommon p with
    | none => rfl
    | some e => exact absurd (highest_of_highestCommon found).1.1 (apart e.1)

/-- What there is to say to a proposal, read off the two maps. -/
inductive Answers (t : VersionTable) (p : ProposedVersions) :
    Except RefuseReason (UInt64 × VersionData) → Prop
  | agreed {v : UInt64} {own theirs : VersionData} {raw : Cbor.Value}
      (highest : Highest (Common t p) v) (known : t.get? v = some own)
      (offered : p.get? v = some raw) (read : VersionData.ofCbor v raw = .ok theirs)
      (same : theirs.networkMagic = own.networkMagic) :
      Answers t p (.ok (v, ⟨own.networkMagic, own.initiatorOnly || theirs.initiatorOnly,
        min own.peerSharing theirs.peerSharing, theirs.query⟩))
  | undecodable {v : UInt64} {raw : Cbor.Value} {e : Cbor.Error}
      (highest : Highest (Common t p) v) (offered : p.get? v = some raw)
      (broken : VersionData.ofCbor v raw = .error e) :
      Answers t p (.error (.decodeError v e.message))
  | foreign {v : UInt64} {own theirs : VersionData} {raw : Cbor.Value}
      (highest : Highest (Common t p) v) (known : t.get? v = some own)
      (offered : p.get? v = some raw) (read : VersionData.ofCbor v raw = .ok theirs)
      (differs : theirs.networkMagic ≠ own.networkMagic) :
      Answers t p (.error (.refused v
        s!"network magic mismatch: local {own.networkMagic} remote {theirs.networkMagic}"))
  | unreadable {v : UInt64} (apart : ∀ w, ¬ Common t p w) (broken : ¬ p.Readable)
      (last : Highest (· ∈ p.versions) v) :
      Answers t p (.error (.decodeError v "no proposed version has readable parameters"))
  | mismatch (apart : ∀ w, ¬ Common t p w)
      (other : p.Readable ∨ p.versions = []) :
      Answers t p (.error (.versionMismatch t.versions))

theorem Answers.eq {r : Except RefuseReason (UInt64 × VersionData)} (answers : Answers t p r) :
    t.negotiate p = r := by
  cases answers with
  | agreed highest known offered read same =>
    simp only [negotiate, highestCommon_of_highest highest known, ProposedVersions.params,
      offered, Option.map_some, read, if_pos same.symm]
    rfl
  | undecodable highest offered broken =>
    obtain ⟨own, known⟩ := Option.isSome_iff_exists.mp highest.1.1
    simp only [negotiate, highestCommon_of_highest highest known, ProposedVersions.params,
      offered, Option.map_some, broken]
  | foreign highest known offered read differs =>
    simp only [negotiate, highestCommon_of_highest highest known, ProposedVersions.params,
      offered, Option.map_some, read, if_neg (Ne.symm differs)]
  | @unreadable v apart broken last =>
    have shown : p.unreadable = some v := by
      rw [ProposedVersions.unreadable_of_not_readable broken]
      cases found : p.versions.getLast? with
      | none =>
        have offered := last.1
        rw [List.getLast?_eq_none_iff.mp found] at offered
        cases offered
      | some w => rw [(ProposedVersions.highest_of_getLast? found).unique last]
    simp only [negotiate, highestCommon_eq_none_iff.mpr apart, shown]
  | mismatch apart other =>
    have quiet : p.unreadable = none := by
      by_cases readable : p.Readable
      · exact ProposedVersions.unreadable_of_readable readable
      · rw [ProposedVersions.unreadable_of_not_readable readable, other.resolve_left readable]
        rfl
    simp only [negotiate, highestCommon_eq_none_iff.mpr apart, quiet]

theorem exists_answers (t : VersionTable) (p : ProposedVersions) : ∃ r, Answers t p r := by
  cases common : t.highestCommon p with
  | none =>
    have apart := highestCommon_eq_none_iff.mp common
    by_cases readable : p.Readable
    · exact ⟨_, .mismatch apart (.inl readable)⟩
    · cases last : p.versions.getLast? with
      | none => exact ⟨_, .mismatch apart (.inr (List.getLast?_eq_none_iff.mp last))⟩
      | some v => exact ⟨_, .unreadable apart readable (ProposedVersions.highest_of_getLast? last)⟩
  | some e =>
    obtain ⟨v, own⟩ := e
    obtain ⟨highest, known⟩ := highest_of_highestCommon common
    obtain ⟨raw, offered⟩ := Option.isSome_iff_exists.mp highest.1.2
    cases read : VersionData.ofCbor v raw with
    | error e => exact ⟨_, .undecodable highest offered read⟩
    | ok theirs =>
      by_cases same : theirs.networkMagic = own.networkMagic
      · exact ⟨_, .agreed highest known offered read same⟩
      · exact ⟨_, .foreign highest known offered read same⟩

/-- The answer is the one that the two maps tell, and where they have a version in common, it
hangs on nothing that is offered for other versions. -/
theorem negotiate_answers (t : VersionTable) (p : ProposedVersions) :
    (∀ r, t.negotiate p = r ↔ Answers t p r) ∧
    (t.versions.Pairwise (· < ·) ∧ ∀ v, v ∈ t.versions ↔ t.contains v = true) ∧
    ∀ v, Highest (Common t p) v → ∀ other : ProposedVersions, other.get? v = p.get? v →
      (∀ w, Common t other w → w ≤ v) → t.negotiate other = t.negotiate p := by
  refine ⟨fun r => ⟨?_, Answers.eq⟩, ?_, ?_⟩
  · intro negotiated
    obtain ⟨r', answers⟩ := exists_answers t p
    rwa [← negotiated, answers.eq]
  · exact ⟨List.pairwise_map.mpr t.ascending, fun v => VersionMap.mem_versions_iff⟩
  · intro v highest other same below
    have asked : other.contains v = true := by
      rw [VersionMap.contains, same]
      exact highest.1.2
    have highest' : Highest (Common t other) v := ⟨⟨highest.1.1, asked⟩, below⟩
    obtain ⟨own, known⟩ := Option.isSome_iff_exists.mp highest.1.1
    simp only [negotiate, highestCommon_of_highest highest known,
      highestCommon_of_highest highest' known, ProposedVersions.params, same]

/-- A version is agreed between one that is not known and one that cannot be read. Neither
counts, and so they may be left out for another that cannot be read. -/
theorem negotiate_answers_between :
    let t : VersionTable := .ofList [(9, .new 7), (11, ⟨7, true, 1, false⟩), (13, .new 7)]
    let raw : Cbor.Value := .array [.unsigned 7, .bool false, .unsigned 0, .bool true]
    let p : ProposedVersions := .ofList [(14, raw), (9, .null), (11, raw)]
    let other : ProposedVersions := .ofList [(11, raw), (10, .text "?")]
    Highest (Common t p) 11 ∧ other.get? 11 = p.get? 11 ∧ (∀ w, Common t other w → w ≤ 11) ∧
      t.negotiate p = .ok (11, ⟨7, true, 0, true⟩) ∧ t.negotiate other = t.negotiate p := by
  intro t raw p other
  have found : t.highestCommon p = some (11, ⟨7, true, 1, false⟩) := rfl
  have found' : t.highestCommon other = some (11, ⟨7, true, 1, false⟩) := rfl
  obtain ⟨highest, known⟩ := highest_of_highestCommon found
  have below := (highest_of_highestCommon found').1.2
  have read : VersionData.ofCbor 11 raw = .ok ⟨7, false, 0, true⟩ := rfl
  obtain ⟨told, -, apart⟩ := negotiate_answers t p
  exact ⟨highest, rfl, below, (told _).mpr (.agreed highest known rfl read rfl),
    apart 11 highest other rfl below⟩

end VersionTable
end ChainRelay
