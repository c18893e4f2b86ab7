import ChainRelay.Proofs.Cbor.Lasting

/-! Reading back what was written. The canonical form of an item is read as the item
with the entries of every map in the order of their written keys, whatever follows it. -/
namespace ChainRelay.Cbor
namespace Value

/-- No float, no big number and no length beyond a machine word, and at most this
many arrays, maps and tags around one another. -/
def Plain : Nat → Value → Prop
  | _, unsigned _ | _, negative _ | _, bool _ | _, null => True
  | _, bytes b => b.length < UInt64.size
  | _, text s => (Bytes.ofText s).length < UInt64.size
  | d + 1, array items => items.length < UInt64.size ∧ ∀ v ∈ items, Plain d v
  | d + 1, map entries =>
    entries.length < UInt64.size ∧ ∀ e ∈ entries, Plain d e.1 ∧ Plain d e.2
  | d + 1, tag number inner => ¬ IsBig number inner ∧ Plain d inner
  | _, _ => False

namespace Plain

variable {d : Nat} {v : Value}

theorem announced (plain : Plain d v) : v.announced < UInt64.size := by
  have none : 0 < UInt64.size := by decide
  cases d with
  | zero =>
    cases v with
    | bytes b => exact plain
    | text s => exact plain
    | array _ | map _ | tag _ _ | float _ => exact plain.elim
    | _ => exact none
  | succ d =>
    cases v with
    | bytes b => exact plain
    | text s => exact plain
    | array items => exact plain.1
    | map entries => exact plain.1
    | _ => exact none

theorem part (plain : Plain d v) : ∀ u ∈ v.parts, ∃ levels, Plain levels u := by
  induction d generalizing v with
  | zero =>
    cases v with
    | array _ | map _ | tag _ _ => exact plain.elim
    | _ => exact forall_parts_of_eq rfl ⟨_, plain⟩
  | succ d ih =>
    cases v with
    | array items => exact forall_parts_array ⟨_, plain⟩ fun v member => ih (plain.2 v member)
    | map entries =>
      exact forall_parts_map ⟨_, plain⟩ fun e member => (plain.2 e member).imp ih ih
    | tag number inner => exact forall_parts_tag ⟨_, plain⟩ (ih plain.2)
    | _ => exact forall_parts_of_eq rfl ⟨_, plain⟩

theorem counted (plain : Plain d v) : v.Counted := fun u inside => by
  obtain ⟨_, within⟩ := plain.part u inside
  exact within.announced

theorem within (plain : Plain d v) : Within d v := by
  induction d generalizing v with
  | zero =>
    cases v with
    | array _ | map _ | tag _ _ => exact plain.elim
    | _ => trivial
  | succ d ih =>
    cases v with
    | array items => exact fun v member => ih (plain.2 v member)
    | map entries => exact fun e member => (plain.2 e member).imp ih ih
    | tag number inner => exact ih plain.2
    | _ => trivial

theorem lasting (plain : Plain d v) : v.Lasting := by
  rintro u inside number c rfl big small
  obtain ⟨levels, within⟩ := plain.part _ inside
  cases levels with
  | zero => exact within.elim
  | succ levels => exact absurd ⟨big, c, rfl, small⟩ within.1

theorem hasFloat (plain : Plain d v) : v.hasFloat = false := by
  refine Bool.eq_false_iff.mpr fun found => ?_
  obtain ⟨bits, inside⟩ := hasFloat_iff.mp found
  obtain ⟨levels, within⟩ := plain.part _ inside
  cases levels <;> exact within.elim

end Plain

theorem read_write_append {v : Value} (plain : Plain maxDepth v) (rest : Bytes) :
    read (v.write ++ rest) = .done v.sorted rest := by
  rw [read_write plain.counted, reread_of_lasting plain.within plain.lasting]
  rfl

end Value

theorem decode_write {v : Value} (plain : v.Plain maxDepth) : decode v.write = .ok v.sorted := by
  have read := Value.read_write_append plain []
  rw [List.append_nil] at read
  rw [decode, read]

theorem encode_eq_write {d : Nat} {v : Value} (plain : v.Plain d) : encode v = .ok v.write := by
  rw [encode, plain.hasFloat]
  rfl

end ChainRelay.Cbor
