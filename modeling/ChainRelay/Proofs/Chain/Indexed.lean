import ChainRelay.Proofs.Assoc
import ChainRelay.Proofs.Chain.Blocks

/-! The index of a chain in memory gives the place of every block, and nothing else, as
long as no hash is filed twice. -/
namespace ChainRelay.IndexedChain
open Blocks (Ordered)

/-- The index is the inverse of the list. -/
structure Exact (c : IndexedChain) : Prop where
  ordered : Ordered c.blocks
  find? : ∀ hash place, c.find? hash = some place ↔
    ∃ b, c.blocks[place]? = some b ∧ b.point.hash = some hash

variable {c : IndexedChain}

theorem exact_empty : Exact empty := ⟨.nil, by simp [find?, empty]⟩

theorem Exact.position (exact : Exact c) {p : Point} {place : Nat} :
    c.position p = some place ↔ ∃ b, c.blocks[place]? = some b ∧ b.point = p := by
  obtain ⟨slot, hash⟩ := p
  cases hash with
  | none =>
    constructor
    · intro found
      cases found
    · rintro ⟨b, here, same⟩
      have hash := exact.ordered.hashed b (List.mem_of_getElem? here)
      rw [same] at hash
      cases hash
  | some hash =>
    simp only [IndexedChain.position, Option.bind_eq_bind, Option.bind_some,
      Option.bind_eq_some_iff]
    constructor
    · rintro ⟨i, filed, b, here, chosen⟩
      split at chosen
      · rename_i slots
        cases chosen
        obtain ⟨a, there, hashes⟩ := (exact.find? hash place).mp filed
        rw [here] at there
        cases there
        refine ⟨b, here, ?_⟩
        cases point : b.point
        simp_all
      · cases chosen
    · rintro ⟨b, here, same⟩
      have filed := (exact.find? hash place).mpr ⟨b, here, by rw [same]⟩
      exact ⟨place, filed, b, here, if_pos (by rw [same])⟩

theorem Exact.find?_hash (exact : Exact c) {b : StoredBlock} (member : b ∈ c.blocks) :
    c.block? b.hash = some b := by
  obtain ⟨i, here⟩ := List.mem_iff_getElem?.mp member
  have filed := (exact.find? b.hash i).mpr ⟨b, here, exact.ordered.hash_point member⟩
  rw [block?, filed]
  exact here

theorem Exact.hasPoint (exact : Exact c) (p : Point) :
    c.hasPoint p = true ↔ ∃ b ∈ c.blocks, b.point = p := by
  rw [IndexedChain.hasPoint, Option.isSome_iff_exists]
  constructor
  · rintro ⟨place, found⟩
    obtain ⟨b, here, same⟩ := exact.position.mp found
    exact ⟨b, List.mem_of_getElem? here, same⟩
  · rintro ⟨b, member, same⟩
    obtain ⟨place, here⟩ := List.mem_iff_getElem?.mp member
    exact ⟨place, exact.position.mpr ⟨b, here, same⟩⟩

theorem Exact.nextAfter (exact : Exact c) {front back : List StoredBlock}
    (cut : c.blocks = front ++ back) :
    c.nextAfter (Blocks.reach front) = back.head?.map (·.point) := by
  rcases front.eq_nil_or_concat with rfl | ⟨init, last, same⟩
  · rw [List.nil_append] at cut
    have start : Point.origin.isOrigin = true := rfl
    rw [Blocks.reach_nil]
    simp only [IndexedChain.nextAfter, start, if_true, Option.bind_some]
    rw [cut, List.head?_eq_getElem?]
  · rw [List.concat_eq_append] at same
    subst same
    have here : c.blocks[init.length]? = some last := by simp [cut]
    have found := exact.position.mpr ⟨last, here, rfl⟩
    have hash := exact.ordered.hashed last (List.mem_of_getElem? here)
    have apart : last.point.isOrigin = false := by
      simp [Point.isOrigin, Option.isNone_eq_false_iff.mpr hash]
    simp only [Blocks.reach_concat, IndexedChain.nextAfter, apart, found, Bool.false_eq_true,
      if_false, Option.map_some, Option.bind_some]
    rw [cut, List.getElem?_append_right (by simp), List.length_append, List.length_singleton,
      Nat.sub_self, ← List.head?_eq_getElem?]

/-! ### Appending -/

theorem Exact.push (exact : Exact c) {b : StoredBlock} (hash : b.point.hash.isSome)
    (last : ∀ a ∈ c.blocks.getLast?, a.point.slot < b.point.slot)
    (fresh : ∀ a ∈ c.blocks, a.point.hash ≠ b.point.hash) : Exact (c.push b) where
  ordered := exact.ordered.concat hash last fresh
  find? key place := by
    have whole := exact.ordered.concat hash last fresh
    have own : b.point.hash = some b.hash := whole.hash_point (by simp)
    simp only [IndexedChain.find?, IndexedChain.push, List.lookup_cons]
    cases same : key == b.hash with
    | true =>
      rw [eq_of_beq same]
      simp only [Option.some.injEq]
      constructor
      · rintro rfl
        exact ⟨b, by simp, own⟩
      · rintro ⟨a, here, filed⟩
        rcases Nat.lt_or_ge place c.blocks.length with old | new
        · rw [List.getElem?_append_left old] at here
          exact absurd (filed.trans own.symm) (fresh a (List.mem_of_getElem? here))
        · rw [List.getElem?_append_right new] at here
          have zero := (List.getElem?_eq_some_iff.mp here).1
          rw [List.length_singleton] at zero
          omega
    | false =>
      have apart : b.hash ≠ key := fun equal => by simp [equal] at same
      rw [unfile, Assoc.lookup_filter_ne apart]
      refine (exact.find? key place).trans ?_
      constructor
      · rintro ⟨a, here, filed⟩
        have old := (List.getElem?_eq_some_iff.mp here).1
        exact ⟨a, by rw [List.getElem?_append_left old, here], filed⟩
      · rintro ⟨a, here, filed⟩
        rcases Nat.lt_or_ge place c.blocks.length with old | new
        · rw [List.getElem?_append_left old] at here
          exact ⟨a, here, filed⟩
        · rw [List.getElem?_append_right new] at here
          rw [List.mem_singleton.mp (List.mem_of_getElem? here), own] at filed
          exact absurd (Option.some.inj filed) apart

theorem append_eq_ok {b : StoredBlock} {r : AppendResult} {c' : IndexedChain}
    (done : c.append b = .ok (r, c')) :
    (r = .alreadyExists ∧ c' = c ∧ c.hasPoint b.point = true) ∨
      (r = .appended ∧ c' = c.push b ∧ c.hasPoint b.point = false ∧
        ∀ a ∈ c.blocks.getLast?, a.point.slot < b.point.slot) := by
  rw [IndexedChain.append] at done
  split at done
  · rename_i there
    cases done
    exact .inl ⟨rfl, rfl, there⟩
  · rename_i absent
    split at done
    · rename_i top found
      split at done
      · cases done
      · rename_i above
        cases done
        refine .inr ⟨rfl, rfl, Bool.eq_false_iff.mpr absent, fun a last => ?_⟩
        rw [found] at last
        cases last
        exact UInt64.not_le.mp above
    · rename_i none
      cases done
      refine .inr ⟨rfl, rfl, Bool.eq_false_iff.mpr absent, fun a last => ?_⟩
      rw [none] at last
      cases last

theorem Exact.append (exact : Exact c) {b : StoredBlock} (hash : b.point.hash.isSome)
    (fresh : ∀ a ∈ c.blocks, a.point.hash = b.point.hash → a.point = b.point)
    {r : AppendResult} {c' : IndexedChain} (done : c.append b = .ok (r, c')) :
    Exact c' ∧ ((c'.blocks = c.blocks ∧ ∃ a ∈ c.blocks, a.point = b.point) ∨
      c'.blocks = c.blocks ++ [b]) := by
  rcases append_eq_ok done with ⟨-, rfl, there⟩ | ⟨-, rfl, absent, last⟩
  · exact ⟨exact, .inl ⟨rfl, (exact.hasPoint b.point).mp there⟩⟩
  · have new : ∀ a ∈ c.blocks, a.point.hash ≠ b.point.hash := fun a member same =>
      Bool.eq_false_iff.mp absent ((exact.hasPoint b.point).mpr ⟨a, member, fresh a member same⟩)
    exact ⟨exact.push hash last new, .inr rfl⟩

/-! ### Rolling back -/

theorem lookup_foldl_unfile (removed : List StoredBlock) (index : List (BlockHash × Nat))
    (key : BlockHash) : (removed.foldl (fun index b => unfile index b.hash) index).lookup key =
      if key ∈ removed.map (·.hash) then none else index.lookup key := by
  induction removed generalizing index with
  | nil => simp
  | cons b removed ih =>
    rw [List.foldl_cons, ih, unfile]
    by_cases here : b.hash = key
    · subst here
      rw [Assoc.lookup_filter_self]
      simp
    · rw [Assoc.lookup_filter_ne here]
      simp [Ne.symm here]

theorem Exact.truncate (exact : Exact c) (keep : Nat) : Exact (c.truncate keep).2 where
  ordered := exact.ordered.sublist (List.take_sublist keep c.blocks)
  find? key place := by
    have filed := exact.find? key place
    rw [IndexedChain.find?] at filed
    simp only [IndexedChain.find?, IndexedChain.truncate, lookup_foldl_unfile]
    constructor
    · intro found
      split at found
      · cases found
      · rename_i kept
        obtain ⟨b, here, same⟩ := filed.mp found
        by_cases early : place < keep
        · exact ⟨b, by rw [List.getElem?_take_of_lt early, here], same⟩
        · have dropped := Blocks.mem_drop (Nat.le_of_not_lt early) here
          have own := exact.ordered.hash_point (List.mem_of_mem_drop dropped)
          have equal : b.hash = key := Option.some.inj (own.symm.trans same)
          exact absurd (List.mem_map.mpr ⟨b, dropped, equal⟩) kept
    · rintro ⟨b, here, same⟩
      have kept : key ∉ (c.blocks.drop keep).map (·.hash) := by
        intro member
        obtain ⟨a, dropped, equal⟩ := List.mem_map.mp member
        have distinct := exact.ordered.distinct
        rw [← List.take_append_drop keep c.blocks] at distinct
        have apart := (List.pairwise_append.mp distinct).2.2 b (List.mem_of_getElem? here) a dropped
        rw [exact.ordered.hash_point (List.mem_of_mem_drop dropped), same, equal] at apart
        exact apart rfl
      rw [if_neg kept]
      refine filed.mpr ⟨b, ?_, same⟩
      have early := (List.getElem?_eq_some_iff.mp here).1
      rw [List.length_take] at early
      rwa [List.getElem?_take_of_lt (by omega)] at here

theorem rollback_eq_ok {p : Point} {n : Nat} {c' : IndexedChain}
    (done : c.rollback p = .ok (n, c')) : ∃ keep, c.truncate keep = (n, c') := by
  rw [IndexedChain.rollback] at done
  split at done
  · exact ⟨0, Except.ok.inj done⟩
  · split at done
    · exact ⟨_, Except.ok.inj done⟩
    · cases done

theorem Exact.rollback (exact : Exact c) {p : Point} {n : Nat} {c' : IndexedChain}
    (done : c.rollback p = .ok (n, c')) : Exact c' ∧ c'.blocks <+: c.blocks := by
  obtain ⟨keep, cut⟩ := rollback_eq_ok done
  have kept := exact.truncate keep
  have front : (c.truncate keep).2.blocks <+: c.blocks := List.take_prefix keep c.blocks
  rw [cut] at kept front
  exact ⟨kept, front⟩

end ChainRelay.IndexedChain
