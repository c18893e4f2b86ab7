/-! Association lists whose entries are removed by key. -/
namespace ChainRelay.Assoc

variable {α β : Type} [DecidableEq α]

theorem lookup_filter_ne {key other : α} (apart : other ≠ key) (l : List (α × β)) :
    (l.filter (·.1 ≠ other)).lookup key = l.lookup key := by
  induction l with
  | nil => rfl
  | cons e l ih =>
    rw [List.filter_cons, List.lookup_cons]
    by_cases here : e.1 = other
    · have miss : (key == e.1) = false := by simp [here, Ne.symm apart]
      rw [if_neg (by simp [here]), ih, miss]
    · rw [if_pos (by simp [here]), List.lookup_cons, ih]

theorem lookup_filter_self (key : α) (l : List (α × β)) :
    (l.filter (·.1 ≠ key)).lookup key = none := by
  rw [List.lookup_eq_none_iff]
  intro e member
  have kept := (List.mem_filter.mp member).2
  exact bne_iff_ne.mpr (Ne.symm (of_decide_eq_true kept))

end ChainRelay.Assoc
