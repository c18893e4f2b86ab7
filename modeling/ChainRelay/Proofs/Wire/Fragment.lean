import ChainRelay.Wire.Fragment
import Mathlib.Data.Finset.Card
import Mathlib.Data.List.Sort

/-! Cutting a byte string loses nothing. The pieces are the string cut at each mark, taken modulo
its length, and nowhere else; a mark at the front cuts nothing. -/
namespace ChainRelay.Fragment

theorem flatten_cutAt (start : Nat) (marks : List Nat) (b : Bytes) :
    (cutAt start marks b).flatten = b := by
  fun_induction cutAt start marks b with
  | case1 start b => simp
  | case2 start mark marks b ahead ih => rw [List.flatten_cons, ih, List.take_append_drop]
  | case3 start mark marks b behind ih => exact ih

structure Marked (start : Nat) (marks : List Nat) (b : Bytes) : Prop where
  rising : marks.Pairwise (· ≤ ·)
  within : ∀ mark ∈ marks, mark < start + b.length
  filled : b ≠ []

variable {start mark : Nat} {marks : List Nat} {b : Bytes}

theorem Marked.skip (marked : Marked start (mark :: marks) b) : Marked start marks b where
  rising := marked.rising.of_cons
  within m member := marked.within m (List.mem_cons_of_mem _ member)
  filled := marked.filled

theorem Marked.cut (marked : Marked start (mark :: marks) b) (ahead : start < mark) :
    Marked mark marks (b.drop (mark - start)) := by
  have inside := marked.within mark (List.mem_cons_self ..)
  constructor
  · exact marked.rising.of_cons
  · intro m member
    have bound := marked.within m (List.mem_cons_of_mem _ member)
    rw [List.length_drop]
    omega
  · apply List.ne_nil_of_length_pos
    rw [List.length_drop]
    omega

theorem ne_nil_of_mem_cutAt {piece : Bytes} (marked : Marked start marks b)
    (member : piece ∈ cutAt start marks b) : piece ≠ [] := by
  fun_induction cutAt start marks b with
  | case1 start b =>
    rw [List.mem_singleton.mp member]
    exact marked.filled
  | case2 start mark marks b ahead ih =>
    rcases List.mem_cons.mp member with rfl | later
    · have size := List.length_pos_iff.mpr marked.filled
      apply List.ne_nil_of_length_pos
      rw [List.length_take]
      omega
    · exact ih (marked.cut ahead) later
  | case3 start mark marks b behind ih => exact ih marked.skip member

theorem length_cutAt (marked : Marked start marks b) :
    (cutAt start marks b).length = (marks.toFinset.filter (start < ·)).card + 1 := by
  fun_induction cutAt start marks b with
  | case1 start b => rfl
  | case2 start mark marks b ahead ih =>
    have later : ∀ m ∈ marks, mark ≤ m := (List.pairwise_cons.mp marked.rising).1
    -- no later mark lies between the two cuts, so this one alone is used up
    have split : (mark :: marks).toFinset.filter (start < ·) =
        insert mark (marks.toFinset.filter (mark < ·)) := by
      ext m
      simp only [Finset.mem_filter, List.mem_toFinset, List.mem_cons, Finset.mem_insert]
      constructor
      · rintro ⟨rfl | member, beyond⟩
        · exact .inl rfl
        · rcases Nat.eq_or_lt_of_le (later m member) with same | further
          · exact .inl same.symm
          · exact .inr ⟨member, further⟩
      · rintro (rfl | ⟨member, beyond⟩)
        · exact ⟨.inl rfl, ahead⟩
        · exact ⟨.inr member, Nat.lt_trans ahead beyond⟩
    rw [List.length_cons, ih (marked.cut ahead), split, Finset.card_insert_of_notMem (by simp)]
  | case3 start mark marks b behind ih =>
    rw [ih marked.skip, List.toFinset_cons, Finset.filter_insert, if_neg behind]

theorem exists_front_cutAt (marked : Marked start marks b) {m : Nat} (member : m ∈ marks)
    (ahead : start ≤ m) :
    ∃ front, front <+: cutAt start marks b ∧ front.flatten = b.take (m - start) := by
  fun_induction cutAt start marks b with
  | case1 start b => cases member
  | case2 start mark marks b further ih =>
    rcases List.mem_cons.mp member with rfl | later
    · exact ⟨[b.take (m - start)], ⟨_, rfl⟩, List.append_nil _⟩
    · have beyond : mark ≤ m := (List.pairwise_cons.mp marked.rising).1 m later
      obtain ⟨front, cut, whole⟩ := ih (marked.cut further) later beyond
      refine ⟨b.take (mark - start) :: front, List.cons_prefix_cons.mpr ⟨rfl, cut⟩, ?_⟩
      have add : m - start = (mark - start) + (m - mark) := by omega
      rw [List.flatten_cons, whole, add, List.take_add]
  | case3 start mark marks b behind ih =>
    rcases List.mem_cons.mp member with rfl | later
    · have here : m - start = 0 := by omega
      exact ⟨[], List.nil_prefix, by rw [here]; rfl⟩
    · exact ih marked.skip later ahead

/-- The pieces are non-empty and make up the string; they end where the marks say, and there are
as many as distinct marks off the front, and one more. -/
theorem fragment_partitions (b : Bytes) (marks : List Nat) :
    (∀ piece ∈ fragment b marks, piece ≠ []) ∧ (fragment b marks).flatten = b ∧
    (fragment b marks).length =
      (if b = [] then 0 else ((marks.map (· % b.length)).toFinset.erase 0).card + 1) ∧
    ∀ mark ∈ marks, ∃ front, front <+: fragment b marks ∧
      front.flatten = b.take (mark % b.length) := by
  by_cases empty : b = []
  · subst empty
    exact ⟨nofun, rfl, rfl, fun mark _ => ⟨[], List.nil_prefix, List.take_nil.symm⟩⟩
  · let sorted := (marks.map (· % b.length)).mergeSort fun x y => decide (x ≤ y)
    have same : sorted.Perm (marks.map (· % b.length)) := List.mergeSort_perm _ _
    have cut : fragment b marks = cutAt 0 sorted b := by
      rw [fragment, if_neg (by simpa using empty)]
    have marked : Marked 0 sorted b := by
      refine ⟨List.pairwise_mergeSort' _ _, fun m member => ?_, empty⟩
      obtain ⟨mark, -, rfl⟩ := List.mem_map.mp (same.mem_iff.mp member)
      rw [Nat.zero_add]
      exact Nat.mod_lt mark (List.length_pos_iff.mpr empty)
    have nonzero : sorted.toFinset.filter (0 < ·) =
        (marks.map (· % b.length)).toFinset.erase 0 := by
      rw [List.toFinset_eq_of_perm _ _ same]
      ext m
      simp only [Finset.mem_filter, Finset.mem_erase, Nat.pos_iff_ne_zero, and_comm]
    rw [cut, if_neg empty, ← nonzero]
    refine ⟨fun piece => ne_nil_of_mem_cutAt marked, flatten_cutAt 0 sorted b,
      length_cutAt marked, fun mark member => ?_⟩
    have found : mark % b.length ∈ sorted := same.mem_iff.mpr (List.mem_map_of_mem member)
    exact exists_front_cutAt marked found (Nat.zero_le _)

/-- Marks out of order, repeated, beyond the end and at the front. -/
theorem fragment_partitions_tenBytes :
    let b : Bytes := [0, 1, 2, 3, 4, 5, 6, 7, 8, 9]
    let marks : List Nat := [13, 0, 7, 3, 20, 7]
    b ≠ [] ∧ 13 ∈ marks ∧ (fragment b marks).flatten = b ∧ (fragment b marks).length = 3 ∧
      ∃ front, front <+: fragment b marks ∧ front.flatten = [0, 1, 2] := by
  intro b marks
  have filled : b ≠ [] := List.cons_ne_nil _ _
  have listed : 13 ∈ marks := List.mem_cons_self ..
  obtain ⟨-, whole, count, ends⟩ := fragment_partitions b marks
  have distinct : ((marks.map (· % b.length)).toFinset.erase 0).card + 1 = 3 := by decide
  obtain ⟨front, cut, upTo⟩ := ends 13 listed
  exact ⟨filled, listed, whole, (count.trans (if_neg filled)).trans distinct, front, cut,
    upTo.trans (by decide)⟩

end ChainRelay.Fragment
