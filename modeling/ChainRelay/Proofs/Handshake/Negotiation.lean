import ChainRelay.Handshake.Party
import ChainRelay.Proofs.Handshake.Codec

/-! The answer to a proposal that was made of a table. Its parameters can be decoded,
and the answer can be written. -/
namespace ChainRelay

namespace Bytes

theorem length_ofText_le (s : String) : (ofText s).length ≤ 4 * s.length := by
  have chars : ∀ cs : List Char, (cs.flatMap String.utf8EncodeChar).length ≤ 4 * cs.length := by
    intro cs
    induction cs with
    | nil => simp
    | cons c cs ih =>
      have four := c.utf8Size_le_four
      rw [List.flatMap_cons, List.length_append, String.length_utf8EncodeChar, List.length_cons]
      omega
  have bound := chars s.toList
  rwa [← ofText_ofList, String.ofList_toList, String.length_toList] at bound

end Bytes

theorem ProposedVersions.params_ofTable (t : VersionTable) (version : UInt64) :
    params (ofTable t) version = (t.get? version).map fun d => .ok (d.carried version) := by
  rw [params, ofTable, VersionMap.get?_map, Option.map_map]
  congr 1
  funext d
  exact VersionData.ofCbor_toCbor version d

namespace VersionTable

theorem length_repr_le (n : UInt64) : (toString n).length ≤ 20 := by
  have digits : n.toNat.repr.length ≤ 20 := by
    rw [Nat.length_repr_le_iff (by decide)]
    have small := n.toNat_lt
    omega
  exact digits

theorem fits_negotiate {own theirs : VersionTable} (few : own.size < UInt64.size)
    {reason : RefuseReason} (refused : own.negotiate (.ofTable theirs) = .error reason) :
    reason.Fits := by
  have mismatch : (RefuseReason.versionMismatch own.versions).Fits := by
    rwa [RefuseReason.Fits, VersionMap.versions, List.length_map]
  simp only [negotiate] at refused
  split at refused
  · split at refused
    · cases refused
      exact Nat.lt_of_le_of_lt (Bytes.length_ofText_le _) (by decide)
    · cases refused
      exact mismatch
  · rename_i version mine common
    rw [ProposedVersions.params_ofTable] at refused
    cases offered : theirs.get? version with
    | none =>
      rw [offered] at refused
      cases refused
      exact mismatch
    | some d =>
      rw [offered] at refused
      simp only [Option.map_some] at refused
      split at refused
      · cases refused
      · cases refused
        refine Nat.lt_of_le_of_lt (Bytes.length_ofText_le _) ?_
        have ours := length_repr_le mine.networkMagic
        have others := length_repr_le (d.carried version).networkMagic
        have size : UInt64.size = 18446744073709551616 := rfl
        have lead : (toString "network magic mismatch: local ").length = 30 := rfl
        have middle : (toString " remote ").length = 8 := rfl
        simp only [String.length_append]
        omega

end VersionTable

namespace Handshake.Party

theorem fits_answer {own theirs : VersionTable} (few : own.size < UInt64.size) :
    (answer own (.ofTable theirs)).Fits := by
  cases agreed : own.negotiate (.ofTable theirs) with
  | error reason =>
    simp only [answer, agreed]
    exact VersionTable.fits_negotiate few agreed
  | ok chosen =>
    simp only [answer, agreed]
    split
    · exact few
    · trivial

end Handshake.Party
end ChainRelay
