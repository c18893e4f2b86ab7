import ChainRelay.Handshake.Message
import ChainRelay.Proofs.Protocol.Codec

/-! Handshake messages on the wire. A table is written in the order of its written
version numbers and read back as the same table, with the parameters that the version
carries. -/
namespace ChainRelay
open Cbor (Value)

namespace VersionMap

variable {α β : Type}

theorem insertSorted_perm {version : UInt64} (a : α) {es : List (UInt64 × α)}
    (fresh : ∀ e ∈ es, e.1 ≠ version) : (insertSorted version a es).Perm ((version, a) :: es) := by
  induction es with
  | nil => exact .rfl
  | cons first rest ih =>
    have later := ih fun e member => fresh e (by simp [member])
    have other := fresh first (by simp)
    simp only [insertSorted]
    split
    · exact .rfl
    · split
      · exact (later.cons first).trans (.swap ..)
      · rename_i notBefore notAfter
        rw [UInt64.not_lt] at notBefore notAfter
        exact absurd (UInt64.le_antisymm notBefore notAfter) other

theorem foldl_insert_perm {es : List (UInt64 × α)} (m : VersionMap α)
    (distinct : (m.entries ++ es).Pairwise fun x y => x.1 ≠ y.1) :
    (es.foldl (fun m e => m.insert e.1 e.2) m).entries.Perm (m.entries ++ es) := by
  induction es generalizing m with
  | nil => simp
  | cons e es ih =>
    have split := List.pairwise_append.mp distinct
    have fresh : ∀ x ∈ m.entries, x.1 ≠ e.1 := fun x member => split.2.2 x member e (by simp)
    have moved : (m.insert e.1 e.2).entries.Perm (e :: m.entries) := insertSorted_perm e.2 fresh
    have whole : ((m.insert e.1 e.2).entries ++ es).Perm (m.entries ++ e :: es) :=
      (moved.append_right es).trans List.perm_middle.symm
    have again := whole.symm.pairwise distinct fun apart => apart.symm
    exact (ih (m.insert e.1 e.2) again).trans whole

theorem pairwise_ne (m : VersionMap α) : m.entries.Pairwise fun x y => x.1 ≠ y.1 :=
  m.ascending.imp fun below => UInt64.ne_of_lt below

theorem ext_entries {a b : VersionMap α} (same : a.entries = b.entries) : a = b := by
  cases a
  cases b
  cases same
  rfl

theorem ofList_of_perm {m : VersionMap α} {es : List (UInt64 × α)} (perm : es.Perm m.entries) :
    ofList es = m := by
  have distinct := perm.symm.pairwise m.pairwise_ne fun apart => apart.symm
  have same : (ofList es).entries.Perm m.entries :=
    (foldl_insert_perm empty distinct).trans perm
  refine ext_entries (same.eq_of_pairwise (fun x y _ _ before after => ?_)
    (ofList es).ascending m.ascending)
  exact absurd (UInt64.lt_trans before after) (UInt64.lt_irrefl _)

theorem get?_map (f : UInt64 → α → β) (m : VersionMap α) (version : UInt64) :
    (m.map f).get? version = (m.get? version).map (f version) := by
  simp only [get?, map]
  induction m.entries with
  | nil => rfl
  | cons e es ih =>
    rw [List.map_cons, List.lookup_cons, List.lookup_cons, ih]
    cases here : version == e.1 with
    | true => rw [eq_of_beq here]; rfl
    | false => rfl

def written (f : UInt64 → α → Value) (m : VersionMap α) : Value :=
  .map (m.entries.map fun e => (.unsigned e.1, f e.1 e.2))

theorem exists_sorted_written {f : UInt64 → α → Value} (m : VersionMap α)
    (flat : ∀ v a, (f v a).sorted = f v a) :
    ∃ es : List (UInt64 × α), es.Perm m.entries ∧
      (m.written f).sorted = .map (es.map fun e => (.unsigned e.1, f e.1 e.2)) := by
  refine ⟨m.entries.mergeSort fun x y =>
    Cbor.bytesLe (Value.unsigned x.1).write (Value.unsigned y.1).write,
    List.mergeSort_perm .., ?_⟩
  have same := List.map_mergeSort (l := m.entries)
    (r := fun x y => Cbor.bytesLe (Value.unsigned x.1).write (Value.unsigned y.1).write)
    (s := fun x y => Cbor.bytesLe x.1.write y.1.write)
    (f := fun e => (Value.unsigned e.1, f e.1 e.2)) fun _ _ _ _ => rfl
  rw [written, Value.sorted_map, Value.inOrder, ← same, List.map_map]
  congr 1
  refine List.map_congr_left fun e _ => ?_
  simp only [Function.comp, flat, Value.sorted]

theorem plain_written {f : UInt64 → α → Value} {m : VersionMap α} {d : Nat}
    (few : m.size < UInt64.size) (each : ∀ v a, (f v a).Plain d) :
    (m.written f).Plain (d + 1) := by
  refine ⟨by rwa [List.length_map], fun e member => ?_⟩
  obtain ⟨x, -, rfl⟩ := List.mem_map.mp member
  refine ⟨?_, each x.1 x.2⟩
  cases d <;> trivial

end VersionMap

namespace VersionData

/-- The parameters as far as the version carries them. -/
def carried (version : UInt64) (d : VersionData) : VersionData :=
  if isClientVersion version then
    { new d.networkMagic with query := extendedClient ≤ version && d.query }
  else if extendedNode ≤ version then d
  else { new d.networkMagic with initiatorOnly := d.initiatorOnly }

theorem plain_toCbor (n : Nat) (version : UInt64) (d : VersionData) :
    (d.toCbor version).Plain (n + 1) := by
  simp only [toCbor]
  repeat' split
  all_goals simp [Value.Plain, UInt64.size]

theorem sorted_toCbor (version : UInt64) (d : VersionData) :
    (d.toCbor version).sorted = d.toCbor version := by
  simp only [toCbor]
  repeat' split
  all_goals rfl

theorem peerSharingOfCbor_toUInt64 (n : UInt8) :
    peerSharingOfCbor (.unsigned n.toUInt64) = .ok n := by
  have small : n.toUInt64 < 256 := by
    rw [UInt64.lt_iff_toNat_lt, UInt8.toNat_toUInt64]
    exact n.toNat_lt
  change (if n.toUInt64 < 256 then Except.ok n.toUInt64.toUInt8 else _) = _
  rw [if_pos small, UInt8.toUInt8_toUInt64]

theorem ofCbor_toCbor (version : UInt64) (d : VersionData) :
    ofCbor version (d.toCbor version) = .ok (d.carried version) := by
  cases client : isClientVersion version with
  | true =>
    by_cases late : extendedClient ≤ version
    · simp only [toCbor, carried, client, if_true, if_pos late, decide_eq_true late,
        Bool.true_and]
      change extend version (new d.networkMagic) [.bool d.query] = _
      simp only [extend, client]
      rfl
    · simp only [toCbor, carried, client, if_true, if_neg late, decide_eq_false late,
        Bool.false_and]
      rfl
  | false =>
    by_cases late : extendedNode ≤ version
    · simp only [toCbor, carried, client, if_pos late, Bool.false_eq_true, if_false]
      change extend version (new d.networkMagic) [.bool d.initiatorOnly,
        .unsigned d.peerSharing.toUInt64, .bool d.query] = _
      simp only [extend, client, peerSharingOfCbor_toUInt64]
      rfl
    · simp only [toCbor, carried, client, if_neg late, Bool.false_eq_true, if_false]
      change extend version (new d.networkMagic) [.bool d.initiatorOnly] = _
      simp only [extend, client]
      rfl

end VersionData

namespace ProposedVersions

theorem toCbor_ofTable (t : VersionTable) : toCbor (ofTable t) = t.written VersionData.toCbor := by
  simp only [toCbor, ofTable, VersionMap.map, VersionMap.written, List.map_map]
  rfl

theorem ofCbor_sorted_toCbor (t : VersionTable) :
    ofCbor (toCbor (ofTable t)).sorted = .ok (ofTable t) := by
  obtain ⟨es, perm, same⟩ := t.exists_sorted_written VersionData.sorted_toCbor
  have read : (es.map fun e => (Value.unsigned e.1, e.2.toCbor e.1)).mapM
      (fun e => do return (← e.1.asUnsigned "version number", e.2) : Value × Value →
        Except Cbor.Error (UInt64 × Value)) =
      .ok (es.map fun e => (e.1, e.2.toCbor e.1)) := by
    rw [List.mapM_map]
    exact Cbor.mapM_eq_ok fun e _ => rfl
  rw [toCbor_ofTable, same]
  simp only [ofCbor]
  rw [read]
  exact congrArg Except.ok (VersionMap.ofList_of_perm (perm.map _))

end ProposedVersions

namespace VersionTable

def carried (t : VersionTable) : VersionTable := t.map VersionData.carried

theorem ofCbor_sorted_toCbor (t : VersionTable) : ofCbor (toCbor t).sorted = .ok t.carried := by
  obtain ⟨es, perm, same⟩ := t.exists_sorted_written VersionData.sorted_toCbor
  have shape : toCbor t = t.written VersionData.toCbor := rfl
  have read : (es.map fun e => (Value.unsigned e.1, e.2.toCbor e.1)).mapM entryOfCbor =
      .ok (es.map fun e => (e.1, e.2.carried e.1)) := by
    rw [List.mapM_map]
    refine Cbor.mapM_eq_ok fun e _ => ?_
    change (do return (e.1, ← VersionData.ofCbor e.1 (e.2.toCbor e.1)) :
      Except Cbor.Error (UInt64 × VersionData)) = _
    rw [VersionData.ofCbor_toCbor]
    rfl
  rw [shape, same]
  simp only [ofCbor]
  rw [read]
  exact congrArg Except.ok (VersionMap.ofList_of_perm (perm.map _))

end VersionTable

namespace RefuseReason

def Fits : RefuseReason → Prop
  | versionMismatch versions => versions.length < UInt64.size
  | decodeError _ message | refused _ message => (Bytes.ofText message).length < UInt64.size

theorem plain_toCbor {r : RefuseReason} (d : Nat) (fits : r.Fits) : r.toCbor.Plain (d + 2) := by
  have two : 2 < UInt64.size := by decide
  have three : 3 < UInt64.size := by decide
  cases r with
  | versionMismatch versions =>
    have few : versions.length < UInt64.size := fits
    simp [toCbor, Value.Plain, few, two]
  | decodeError version message | refused version message =>
    have short : (Bytes.ofText message).length < UInt64.size := fits
    simp [toCbor, Value.Plain, short, three]

theorem sorted_toCbor (r : RefuseReason) : r.toCbor.sorted = r.toCbor := by
  cases r <;> simp [toCbor, Value.sorted, Value.sortedAll, Value.sortedAll_eq_map]

theorem ofCbor_toCbor (r : RefuseReason) : ofCbor r.toCbor = .ok r := by
  cases r with
  | versionMismatch versions =>
    have read : (versions.map Value.unsigned).mapM (·.asUnsigned "version number") =
        .ok (versions.map id) := by
      rw [List.mapM_map]
      exact Cbor.mapM_eq_ok fun v _ => rfl
    rw [List.map_id] at read
    change (do
      let read ← (versions.map Value.unsigned).mapM (·.asUnsigned "version number")
      return versionMismatch read : Except Cbor.Error RefuseReason) = _
    rw [read]
    rfl
  | decodeError version message | refused version message => rfl

end RefuseReason

namespace Handshake
namespace Message

def carried : Message → Message
  | acceptVersion version data => acceptVersion version (data.carried version)
  | queryReply table => queryReply table.carried
  | m => m

def Fits : Message → Prop
  | proposeVersions proposed =>
    ∃ table : VersionTable, table.size < UInt64.size ∧ proposed = .ofTable table
  | acceptVersion _ _ => True
  | refuse reason => reason.Fits
  | queryReply table => table.size < UInt64.size

theorem plain_toCbor {m : Message} (d : Nat) (fits : m.Fits) : m.toCbor.Plain (d + 3) := by
  have two : 2 < UInt64.size := by decide
  have three : 3 < UInt64.size := by decide
  cases m with
  | proposeVersions proposed =>
    obtain ⟨table, few, rfl⟩ := fits
    have entries : (ProposedVersions.toCbor (.ofTable table)).Plain (d + 2) := by
      rw [ProposedVersions.toCbor_ofTable]
      exact VersionMap.plain_written few fun v a => a.plain_toCbor d v
    simpa [toCbor, Value.Plain, two] using entries
  | acceptVersion version data =>
    simpa [toCbor, Value.Plain, three] using data.plain_toCbor (d + 1) version
  | refuse reason => simpa [toCbor, Value.Plain, two] using reason.plain_toCbor d fits
  | queryReply table =>
    have entries : (VersionTable.toCbor table).Plain (d + 2) :=
      VersionMap.plain_written fits fun v a => a.plain_toCbor d v
    simpa [toCbor, Value.Plain, two] using entries

theorem ofCbor_sorted_toCbor {m : Message} (fits : m.Fits) :
    ofCbor m.toCbor.sorted = .ok m.carried := by
  cases m with
  | proposeVersions proposed =>
    obtain ⟨table, -, rfl⟩ := fits
    change (do
      let read ← ProposedVersions.ofCbor (ProposedVersions.toCbor (.ofTable table)).sorted
      return proposeVersions read : Except Cbor.Error Message) = _
    rw [ProposedVersions.ofCbor_sorted_toCbor]
    rfl
  | acceptVersion version data =>
    change (do
      let read ← VersionData.ofCbor version (data.toCbor version).sorted
      return acceptVersion version read : Except Cbor.Error Message) = _
    rw [VersionData.sorted_toCbor, VersionData.ofCbor_toCbor]
    rfl
  | refuse reason =>
    change (do return refuse (← RefuseReason.ofCbor reason.toCbor.sorted) :
      Except Cbor.Error Message) = _
    rw [reason.sorted_toCbor, reason.ofCbor_toCbor]
    rfl
  | queryReply table =>
    change (do return queryReply (← VersionTable.ofCbor (VersionTable.toCbor table).sorted) :
      Except Cbor.Error Message) = _
    rw [VersionTable.ofCbor_sorted_toCbor]
    rfl

end Message

theorem conveys : protocol.Conveys Message.Fits Message.carried where
  fits {m} fits := by
    cases m with
    | acceptVersion version data => trivial
    | queryReply table =>
      simpa [Message.carried, Message.Fits, VersionTable.carried, VersionMap.size,
        VersionMap.map] using fits
    | _ => exact fits
  delivered {m} fits :=
    Protocol.decode_encode (p := protocol) (m.plain_toCbor 253 fits)
      (Message.ofCbor_sorted_toCbor fits)
  moved s m := by cases s <;> cases m <;> rfl

end Handshake
end ChainRelay
