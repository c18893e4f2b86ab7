import ChainRelay.Proofs.Cbor.Written

/-! An item and the items that lie in it. -/
namespace ChainRelay.Cbor
namespace Value

/-- Induction on an item, with what is known of all that lie directly in it. -/
@[elab_as_elim]
theorem nested_induction {motive : Value → Prop} (unsigned : ∀ n, motive (unsigned n))
    (negative : ∀ n, motive (negative n)) (bytes : ∀ b, motive (bytes b))
    (text : ∀ s, motive (text s))
    (array : ∀ items, (∀ v ∈ items, motive v) → motive (array items))
    (map : ∀ entries, (∀ e ∈ entries, motive e.1 ∧ motive e.2) → motive (map entries))
    (tag : ∀ number inner, motive inner → motive (tag number inner))
    (bool : ∀ b, motive (bool b)) (null : motive null) (float : ∀ bits, motive (float bits))
    (v : Value) : motive v := by
  apply Value.rec (motive_1 := motive) (motive_2 := fun items => ∀ v ∈ items, motive v)
    (motive_3 := fun entries => ∀ e ∈ entries, motive e.1 ∧ motive e.2)
    (motive_4 := fun e => motive e.1 ∧ motive e.2) unsigned negative bytes text array map tag bool
    null float
  · exact List.forall_mem_nil _
  · exact fun _ _ first rest => List.forall_mem_cons.mpr ⟨first, rest⟩
  · exact List.forall_mem_nil _
  · exact fun _ _ first rest => List.forall_mem_cons.mpr ⟨first, rest⟩
  · exact fun _ _ key value => ⟨key, value⟩

mutual

/-- The item and all that lie in it, keys and tagged items included. -/
def parts : Value → List Value
  | array items => array items :: partsAll items
  | map entries => map entries :: partsEntries entries
  | tag number inner => tag number inner :: parts inner
  | v => [v]

def partsAll : List Value → List Value
  | [] => []
  | v :: vs => parts v ++ partsAll vs

def partsEntries : List (Value × Value) → List Value
  | [] => []
  | (k, v) :: es => parts k ++ parts v ++ partsEntries es

end

mutual

def depth : Value → Nat
  | array items => depthAll items + 1
  | map entries => depthEntries entries + 1
  | tag _ inner => depth inner + 1
  | _ => 0

def depthAll : List Value → Nat
  | [] => 0
  | v :: vs => max (depth v) (depthAll vs)

def depthEntries : List (Value × Value) → Nat
  | [] => 0
  | (k, v) :: es => max (max (depth k) (depth v)) (depthEntries es)

end

theorem mem_parts_self (v : Value) : v ∈ v.parts := by
  cases v <;> simp [parts]

theorem partsAll_eq_flatMap (vs : List Value) : partsAll vs = vs.flatMap parts := by
  induction vs with
  | nil => rfl
  | cons v vs ih => rw [partsAll, ih, List.flatMap_cons]

theorem partsEntries_eq_flatMap (es : List (Value × Value)) :
    partsEntries es = es.flatMap fun e => parts e.1 ++ parts e.2 := by
  induction es with
  | nil => rfl
  | cons e es ih => rw [partsEntries, ih, List.flatMap_cons]

theorem parts_subset_of_mem {v : Value} {items : List Value} (member : v ∈ items) :
    v.parts ⊆ (array items).parts := by
  intro u inside
  rw [parts, partsAll_eq_flatMap]
  exact List.mem_cons_of_mem _ (List.mem_flatMap.mpr ⟨v, member, inside⟩)

theorem parts_subset_of_mem_entries {e : Value × Value} {entries : List (Value × Value)}
    (member : e ∈ entries) : e.1.parts ++ e.2.parts ⊆ (map entries).parts := by
  intro u inside
  rw [parts, partsEntries_eq_flatMap]
  exact List.mem_cons_of_mem _ (List.mem_flatMap.mpr ⟨e, member, inside⟩)

theorem depth_le_of_mem {v : Value} {items : List Value} (member : v ∈ items) :
    v.depth ≤ depthAll items := by
  induction items with
  | nil => simp at member
  | cons first items ih =>
    rw [depthAll]
    rcases List.mem_cons.mp member with rfl | later
    · exact Nat.le_max_left _ _
    · exact Nat.le_trans (ih later) (Nat.le_max_right _ _)

theorem depth_le_of_mem_entries {e : Value × Value} {entries : List (Value × Value)}
    (member : e ∈ entries) : max e.1.depth e.2.depth ≤ depthEntries entries := by
  induction entries with
  | nil => simp at member
  | cons first entries ih =>
    rw [depthEntries]
    rcases List.mem_cons.mp member with rfl | later
    · exact Nat.le_max_left _ _
    · exact Nat.le_trans (ih later) (Nat.le_max_right _ _)

theorem forall_parts_array {P : Value → Prop} {items : List Value} (self : P (array items))
    (each : ∀ v ∈ items, ∀ u ∈ v.parts, P u) : ∀ u ∈ (array items).parts, P u := by
  intro u inside
  rw [parts, partsAll_eq_flatMap] at inside
  rcases List.mem_cons.mp inside with rfl | deeper
  · exact self
  · obtain ⟨v, member, part⟩ := List.mem_flatMap.mp deeper
    exact each v member u part

theorem forall_parts_map {P : Value → Prop} {entries : List (Value × Value)}
    (self : P (map entries))
    (each : ∀ e ∈ entries, (∀ u ∈ e.1.parts, P u) ∧ ∀ u ∈ e.2.parts, P u) :
    ∀ u ∈ (map entries).parts, P u := by
  intro u inside
  rw [parts, partsEntries_eq_flatMap] at inside
  rcases List.mem_cons.mp inside with rfl | deeper
  · exact self
  · obtain ⟨e, member, part⟩ := List.mem_flatMap.mp deeper
    rcases List.mem_append.mp part with key | value
    · exact (each e member).1 u key
    · exact (each e member).2 u value

theorem forall_parts_tag {P : Value → Prop} {number : UInt64} {inner : Value}
    (self : P (tag number inner)) (below : ∀ u ∈ inner.parts, P u) :
    ∀ u ∈ (tag number inner).parts, P u :=
  List.forall_mem_cons.mpr ⟨self, below⟩

theorem forall_parts_of_eq {P : Value → Prop} {v : Value} (alone : v.parts = [v]) (self : P v) :
    ∀ u ∈ v.parts, P u := by
  rw [alone]
  exact List.forall_mem_singleton.mpr self

/-- Each length in the item can be told by a head. -/
def Counted (v : Value) : Prop := ∀ u ∈ v.parts, u.announced < UInt64.size

theorem Counted.announced {v : Value} (counted : v.Counted) : v.announced < UInt64.size :=
  counted v (mem_parts_self v)

theorem Counted.item {items : List Value} (counted : (array items).Counted) {v : Value}
    (member : v ∈ items) : v.Counted :=
  fun u inside => counted u (parts_subset_of_mem member inside)

theorem Counted.entry {entries : List (Value × Value)} (counted : (map entries).Counted)
    {e : Value × Value} (member : e ∈ entries) : e.1.Counted ∧ e.2.Counted := by
  have inside := parts_subset_of_mem_entries member
  constructor
  · exact fun u part => counted u (inside (List.mem_append_left _ part))
  · exact fun u part => counted u (inside (List.mem_append_right _ part))

theorem Counted.inner {number : UInt64} {v : Value} (counted : (tag number v).Counted) :
    v.Counted :=
  fun u inside => counted u (List.mem_cons_of_mem _ inside)

theorem anyFloat_eq_any (vs : List Value) : anyFloat vs = vs.any hasFloat := by
  induction vs with
  | nil => rfl
  | cons v vs ih => rw [anyFloat, ih, List.any_cons]

theorem anyEntryFloat_eq_any (es : List (Value × Value)) :
    anyEntryFloat es = es.any fun e => hasFloat e.1 || hasFloat e.2 := by
  induction es with
  | nil => rfl
  | cons e es ih => rw [anyEntryFloat, ih, List.any_cons]

theorem hasFloat_iff {v : Value} : v.hasFloat = true ↔ ∃ bits, float bits ∈ v.parts := by
  induction v using nested_induction with
  | array items ih =>
    rw [hasFloat, anyFloat_eq_any, List.any_eq_true]
    simp only [parts, partsAll_eq_flatMap, List.mem_cons, List.mem_flatMap, reduceCtorEq, false_or]
    constructor
    · rintro ⟨v, member, inside⟩
      obtain ⟨bits, part⟩ := (ih v member).mp inside
      exact ⟨bits, v, member, part⟩
    · rintro ⟨bits, v, member, part⟩
      exact ⟨v, member, (ih v member).mpr ⟨bits, part⟩⟩
  | map entries ih =>
    rw [hasFloat, anyEntryFloat_eq_any, List.any_eq_true]
    simp only [parts, partsEntries_eq_flatMap, List.mem_cons, List.mem_flatMap, List.mem_append,
      reduceCtorEq, false_or, Bool.or_eq_true]
    constructor
    · rintro ⟨e, member, first | second⟩
      · obtain ⟨bits, part⟩ := (ih e member).1.mp first
        exact ⟨bits, e, member, .inl part⟩
      · obtain ⟨bits, part⟩ := (ih e member).2.mp second
        exact ⟨bits, e, member, .inr part⟩
    · rintro ⟨bits, e, member, first | second⟩
      · exact ⟨e, member, .inl ((ih e member).1.mpr ⟨bits, first⟩)⟩
      · exact ⟨e, member, .inr ((ih e member).2.mpr ⟨bits, second⟩)⟩
  | tag number inner ih => simpa [hasFloat, parts] using ih
  | _ => simp [hasFloat, parts]

end Value
end ChainRelay.Cbor
