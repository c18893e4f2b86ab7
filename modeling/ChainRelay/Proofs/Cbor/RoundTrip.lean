import ChainRelay.Proofs.Cbor.Canonical

/-! Which items come back from their written form, told by the items that lie in them.
Wherever the canonical form of such an item begins an input, the item is read from there
with its maps in order, and what follows is left alone. -/
namespace ChainRelay.Cbor

namespace Value

/-- No float, no short byte string as a big number, no length beyond a machine word, and
at most `levels` arrays, maps and tags around one another. -/
structure Portable (levels : Nat) (v : Value) : Prop where
  shallow : v.depth ≤ levels
  floatless : ∀ bits, float bits ∉ v.parts
  unambiguous : ∀ number b, tag number (bytes b) ∈ v.parts → number = 2 ∨ number = 3 →
    16 < b.length
  counted : ∀ u ∈ v.parts, u.announced < UInt64.size

namespace Portable

variable {levels : Nat}

theorem of_parts {v w : Value} (portable : Portable (levels + 1) v) (deeper : w.depth ≤ levels)
    (inside : w.parts ⊆ v.parts) : Portable levels w where
  shallow := deeper
  floatless bits member := portable.floatless bits (inside member)
  unambiguous number b member := portable.unambiguous number b (inside member)
  counted u member := portable.counted u (inside member)

theorem item {items : List Value} (portable : Portable (levels + 1) (array items)) {v : Value}
    (member : v ∈ items) : Portable levels v := by
  have around := portable.shallow
  rw [depth] at around
  have below := depth_le_of_mem member
  exact portable.of_parts (by omega) (parts_subset_of_mem member)

theorem entry {entries : List (Value × Value)} (portable : Portable (levels + 1) (map entries))
    {e : Value × Value} (member : e ∈ entries) : Portable levels e.1 ∧ Portable levels e.2 := by
  have around := portable.shallow
  rw [depth] at around
  have below := depth_le_of_mem_entries member
  have inside := parts_subset_of_mem_entries member
  exact ⟨portable.of_parts (by omega) (List.Subset.trans (List.subset_append_left _ _) inside),
    portable.of_parts (by omega) (List.Subset.trans (List.subset_append_right _ _) inside)⟩

theorem inner {number : UInt64} {v : Value} (portable : Portable (levels + 1) (tag number v)) :
    Portable levels v := by
  have around := portable.shallow
  rw [depth] at around
  exact portable.of_parts (by omega) (List.subset_cons_self _ _)

theorem not_isBig {number : UInt64} {v : Value} (portable : Portable levels (tag number v)) :
    ¬ IsBig number v := by
  rintro ⟨big, b, rfl, short⟩
  have either : number = 2 ∨ number = 3 := by simpa [isBigTag] using big
  have long := portable.unambiguous number b (mem_parts_self _) either
  have limit : maxBigLength = 16 := rfl
  omega

theorem plain {v : Value} (portable : Portable levels v) : Plain levels v := by
  -- one level is spent on each array, map or tag
  induction levels generalizing v with
  | zero =>
    have flat := portable.shallow
    have counted := portable.counted v (mem_parts_self v)
    cases v with
    | array items => rw [depth] at flat; omega
    | map entries => rw [depth] at flat; omega
    | tag number inner => rw [depth] at flat; omega
    | float bits => exact portable.floatless bits (mem_parts_self _)
    | bytes b => exact counted
    | text s => exact counted
    | _ => trivial
  | succ levels ih =>
    have counted := portable.counted v (mem_parts_self v)
    cases v with
    | array items => exact ⟨counted, fun v member => ih (portable.item member)⟩
    | map entries =>
      refine ⟨counted, fun e member => ?_⟩
      obtain ⟨key, value⟩ := portable.entry member
      exact ⟨ih key, ih value⟩
    | tag number inner => exact ⟨portable.not_isBig, ih portable.inner⟩
    | float bits => exact portable.floatless bits (mem_parts_self _)
    | bytes b => exact counted
    | text s => exact counted
    | _ => trivial

end Portable
end Value

/-- A portable item is written, and is read back from the front of any input that begins
with what was written: its maps are in order, and exactly the written bytes are used. -/
theorem decodePrefix_encode_append {v : Value} (portable : v.Portable 256) :
    ∃ b, encode v = .ok b ∧
      ∀ rest, decodePrefix (b ++ rest) = .ok (some (v.sorted, b.length)) := by
  have plain : v.Plain maxDepth := portable.plain
  refine ⟨v.write, encode_eq_write plain, fun rest => ?_⟩
  refine decodePrefix_eq_some_iff.mpr ⟨by simp, ?_⟩
  rw [List.drop_left]
  exact Value.read_write_append plain rest

theorem Value.sorted_pair {x y : Value × Value}
    (behind : bytesLe x.1.write y.1.write = false) :
    (map [x, y]).sorted = map [(y.1.sorted, y.2.sorted), (x.1.sorted, x.2.sorted)] := by
  have swapped : inOrder [x, y] = [y, x] := by
    rw [inOrder, List.mergeSort]
    simp [behind]
  rw [sorted_map, swapped]
  rfl

/-- Keys out of order on two levels, a long byte string under tag 2, and the least integer. -/
def nestedMap : Value :=
  .map [(.unsigned 10, .tag 2 (.bytes (List.replicate 17 1))),
    (.unsigned 7, .map [(.text "b", .null), (.text "a", .negative 18446744073709551615)])]

theorem decodePrefix_encode_nestedMap :
    nestedMap.Portable 256 ∧ ∃ b, encode nestedMap = .ok b ∧
      decodePrefix (b ++ [0x82, 1]) =
        .ok (some (.map [(.unsigned 7, .map [(.text "a", .negative 18446744073709551615),
          (.text "b", .null)]), (.unsigned 10, .tag 2 (.bytes (List.replicate 17 1)))],
            b.length)) := by
  have portable : nestedMap.Portable 256 := by
    refine ⟨by decide, ?_, ?_, by decide⟩
    · simp [nestedMap, Value.parts, Value.partsEntries]
    · simp [nestedMap, Value.parts, Value.partsEntries]
  have inOrder : nestedMap.sorted = .map [(.unsigned 7, .map [(.text "a",
      .negative 18446744073709551615), (.text "b", .null)]),
        (.unsigned 10, .tag 2 (.bytes (List.replicate 17 1)))] := by
    rw [nestedMap, Value.sorted_pair (by decide), Value.sorted_pair (by decide)]
    rfl
  obtain ⟨b, written, read⟩ := decodePrefix_encode_append portable
  exact ⟨portable, b, written, inOrder ▸ read [0x82, 1]⟩

end ChainRelay.Cbor
