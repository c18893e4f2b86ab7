import ChainRelay.Proofs.Cbor.Shape
import ChainRelay.Proofs.Chain.Blocks

/-! A table of blocks gives its rows back as they were filed, as long as every row has a
hash. -/
namespace ChainRelay.TableChain
open Blocks (Ordered)
open Cbor (bind_eq_ok)

structure Exact (t : TableChain) : Prop where
  ordered : Ordered t.rows
  narrow : ∀ row ∈ t.rows, fits row.point.slot = true

variable {t : TableChain}

theorem exact_empty : Exact empty := ⟨.nil, by simp [empty]⟩

theorem bind_of_fits {n : UInt64} (narrow : fits n = true) : bind n = .ok n := if_pos narrow

theorem fits_of_bind {n m : UInt64} (bound : bind n = .ok m) : fits n = true := by
  rw [bind] at bound
  split at bound
  · assumption
  · cases bound

theorem Exact.rowPoint (exact : Exact t) {row : StoredBlock} (member : row ∈ t.rows) :
    rowPoint row = row.point := by
  rw [TableChain.rowPoint, ← exact.ordered.hash_point member]

theorem Exact.lookup_of_mem (exact : Exact t) {row : StoredBlock} (member : row ∈ t.rows) :
    t.lookup row.point = .ok (some row.point.slot) := by
  have hash := exact.ordered.hash_point member
  have here :
      (t.rows.find? fun a => a.point.slot = row.point.slot && a.hash = row.hash).isSome := by
    rw [List.find?_isSome]
    exact ⟨row, member, by simp⟩
  obtain ⟨a, found⟩ := Option.isSome_iff_exists.mp here
  have slot := List.find?_some found
  simp only [Bool.and_eq_true, decide_eq_true_eq] at slot
  simp only [lookup, hash, bind_of_fits (exact.narrow row member), Bind.bind, Except.bind, found]
  exact congrArg (fun s => Except.ok (some s)) slot.1

theorem Exact.lookup_of_not_mem (exact : Exact t) {p : Point}
    (narrow : p.hash.isSome → fits p.slot = true) (absent : ∀ row ∈ t.rows, row.point ≠ p) :
    t.lookup p = .ok none := by
  obtain ⟨slot, hash⟩ := p
  cases hash with
  | none => rfl
  | some hash =>
    have missing : (t.rows.find? fun a => a.point.slot = slot && a.hash = hash) = none := by
      rw [List.find?_eq_none]
      intro row member same
      simp only [Bool.and_eq_true, decide_eq_true_eq] at same
      apply absent row member
      rw [← exact.rowPoint member, TableChain.rowPoint, same.1, same.2]
    simp only [lookup, bind_of_fits (narrow rfl), Bind.bind, Except.bind, missing]
    rfl

theorem lookup_of_wide {p : Point} (wide : ¬ (p.hash.isSome → fits p.slot = true)) :
    t.lookup p = .error .database := by
  obtain ⟨slot, hash⟩ := p
  cases hash with
  | none => exact absurd nofun wide
  | some hash =>
    have refused : bind slot = .error .database := if_neg fun fit => wide fun _ => fit
    simp only [lookup, refused, Bind.bind, Except.bind]

theorem Exact.mem_of_lookup (exact : Exact t) {p : Point} {slot : UInt64}
    (found : t.lookup p = .ok (some slot)) : ∃ row ∈ t.rows, row.point = p := by
  by_cases there : ∃ row ∈ t.rows, row.point = p
  · exact there
  · by_cases narrow : p.hash.isSome → fits p.slot = true
    · rw [exact.lookup_of_not_mem narrow fun row member same => there ⟨row, member, same⟩] at found
      cases found
    · rw [lookup_of_wide narrow] at found
      cases found

theorem Exact.nextAfter (exact : Exact t) {front back : List StoredBlock}
    (cut : t.rows = front ++ back) :
    t.nextAfter (Blocks.reach front) = .ok (back.head?.map (·.point)) := by
  have points : back.head?.map TableChain.rowPoint = back.head?.map (·.point) := by
    cases back with
    | nil => rfl
    | cons b back => exact congrArg some (exact.rowPoint (by simp [cut]))
  rcases front.eq_nil_or_concat with rfl | ⟨init, last, same⟩
  · rw [List.nil_append] at cut
    rw [← points, ← cut]
    rfl
  · rw [List.concat_eq_append] at same
    subst same
    have member : last ∈ t.rows := by simp [cut]
    have apart : last.point.isOrigin = false := by
      simp [Point.isOrigin, Option.isNone_eq_false_iff.mpr (exact.ordered.hashed last member)]
    have rising := exact.ordered.rising
    rw [cut, List.pairwise_append] at rising
    -- rows up to the point are not after it, and those beyond it are
    have before : ((init ++ [last]).find? fun row => last.point.slot < row.point.slot) = none := by
      rw [List.find?_eq_none]
      intro row early
      have under : row.point.slot ≤ last.point.slot := by
        rcases List.mem_append.mp early with older | same
        · exact UInt64.le_of_lt ((List.pairwise_append.mp rising.1).2.2 row older last (by simp))
        · rw [List.mem_singleton.mp same]
          exact UInt64.le_refl _
      simpa using under
    have after : (back.find? fun row => last.point.slot < row.point.slot) = back.head? := by
      cases back with
      | nil => rfl
      | cons b back =>
        have beyond := rising.2.2 last (by simp) b (by simp)
        exact List.find?_cons_of_pos (by simpa using beyond)
    simp only [Blocks.reach_concat, TableChain.nextAfter, apart, exact.lookup_of_mem member,
      Bind.bind, Except.bind, Bool.false_eq_true, if_false]
    rw [cut, List.find?_append, before, after, Option.none_or, points]
    rfl

/-! ### Changing the table -/

theorem Exact.insert (exact : Exact t) {b : StoredBlock} (hash : b.point.hash.isSome)
    (last : ∀ a ∈ t.rows.getLast?, a.point.slot < b.point.slot) {u : TableChain}
    (done : t.insert b = .ok u) : Exact u ∧ u.rows = t.rows ++ [b] := by
  obtain ⟨slot, narrow, numbered⟩ := bind_eq_ok.mp done
  obtain ⟨number, -, added⟩ := bind_eq_ok.mp numbered
  split at added
  · cases added
  · rename_i new
    cases added
    have absent : (t.rows.find? fun a => a.hash = b.hash) = none :=
      Option.not_isSome_iff_eq_none.mp new
    have fresh : ∀ a ∈ t.rows, a.point.hash ≠ b.point.hash := by
      intro a member same
      refine List.find?_eq_none.mp absent a member (decide_eq_true ?_)
      exact StoredBlock.hash_eq (same.trans (StoredBlock.point_hash hash))
    refine ⟨⟨exact.ordered.concat hash last fresh, fun row member => ?_⟩, rfl⟩
    rcases List.mem_append.mp member with old | same
    · exact exact.narrow row old
    · rw [List.mem_singleton.mp same]
      exact fits_of_bind narrow

theorem Exact.append (exact : Exact t) {b : StoredBlock} (hash : b.point.hash.isSome)
    {r : AppendResult} {t' : TableChain} (done : t.append b = .ok (r, t')) :
    Exact t' ∧ ((t'.rows = t.rows ∧ ∃ row ∈ t.rows, row.point = b.point) ∨
      t'.rows = t.rows ++ [b]) := by
  obtain ⟨found, looked, chosen⟩ := bind_eq_ok.mp done
  split at chosen
  · rename_i there
    obtain ⟨slot, rfl⟩ := Option.isSome_iff_exists.mp there
    cases chosen
    exact ⟨exact, .inl ⟨rfl, exact.mem_of_lookup looked⟩⟩
  · split at chosen
    · rename_i top here
      split at chosen
      · cases chosen
      · rename_i above
        obtain ⟨u, inserted, same⟩ := bind_eq_ok.mp chosen
        cases same
        have last : ∀ a ∈ t.rows.getLast?, a.point.slot < b.point.slot := by
          intro a member
          rw [here] at member
          cases member
          exact UInt64.not_le.mp above
        obtain ⟨kept, grown⟩ := exact.insert hash last inserted
        exact ⟨kept, .inr grown⟩
    · rename_i none
      obtain ⟨u, inserted, same⟩ := bind_eq_ok.mp chosen
      cases same
      obtain ⟨kept, grown⟩ := exact.insert hash (by simp [none]) inserted
      exact ⟨kept, .inr grown⟩

theorem filter_le_prefix {rows : List StoredBlock}
    (rising : rows.Pairwise fun a b => a.point.slot < b.point.slot) (slot : UInt64) :
    rows.filter (·.point.slot ≤ slot) <+: rows := by
  induction rows with
  | nil => exact List.prefix_rfl
  | cons row rows ih =>
    obtain ⟨first, later⟩ := List.pairwise_cons.mp rising
    by_cases under : row.point.slot ≤ slot
    · rw [List.filter_cons_of_pos (by simpa using under)]
      exact (List.prefix_cons_inj row).mpr (ih later)
    · -- past the first row beyond the slot there is none within it
      have none : (row :: rows).filter (·.point.slot ≤ slot) = [] := by
        rw [List.filter_eq_nil_iff]
        intro a member within
        rcases List.mem_cons.mp member with rfl | beyond
        · exact under (of_decide_eq_true within)
        · have above := UInt64.le_of_lt (first a beyond)
          exact under (UInt64.le_trans above (of_decide_eq_true within))
      rw [none]
      exact List.nil_prefix

theorem Exact.rollback (exact : Exact t) {p : Point} {n : Nat} {t' : TableChain}
    (done : t.rollback p = .ok (n, t')) : Exact t' ∧ t'.rows <+: t.rows := by
  rw [TableChain.rollback] at done
  split at done
  · cases done
    exact ⟨exact_empty, List.nil_prefix⟩
  · obtain ⟨found, -, chosen⟩ := bind_eq_ok.mp done
    cases found with
    | none => cases chosen
    | some slot =>
      cases chosen
      have front := filter_le_prefix exact.ordered.rising slot
      exact ⟨⟨exact.ordered.sublist front.sublist, fun row member =>
        exact.narrow row (front.subset member)⟩, front⟩

end ChainRelay.TableChain
