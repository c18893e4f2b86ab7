import ChainRelay.Proofs.Cbor.Reread

/-! Items that stay as they are when they are written and read again. Only a short byte string
under tag 2 or 3 does not, and whatever an item was, what is read from its written form does. -/
namespace ChainRelay.Cbor
namespace Value

/-! ### Lasting items -/

/-- A short byte string stands directly under tag 2 or 3 only where a number is too large for
one head. -/
def Lasts (v : Value) : Prop :=
  ∀ number c, v = tag number (bytes c) → isBigTag number = true → c.length ≤ maxBigLength →
    IsLarge number c

def Lasting (v : Value) : Prop := ∀ u ∈ v.parts, u.Lasts

theorem Lasting.item {items : List Value} (lasting : (array items).Lasting) {v : Value}
    (member : v ∈ items) : v.Lasting :=
  fun u inside => lasting u (parts_subset_of_mem member inside)

theorem Lasting.entry {entries : List (Value × Value)} (lasting : (map entries).Lasting)
    {e : Value × Value} (member : e ∈ entries) : e.1.Lasting ∧ e.2.Lasting := by
  have inside := parts_subset_of_mem_entries member
  constructor
  · exact fun u part => lasting u (inside (List.mem_append_left _ part))
  · exact fun u part => lasting u (inside (List.mem_append_right _ part))

theorem Lasting.inner {number : UInt64} {v : Value} (lasting : (tag number v).Lasting) :
    v.Lasting :=
  fun u inside => lasting u (List.mem_cons_of_mem _ inside)

theorem Lasting.isLarge {number : UInt64} {v : Value} {c : Bytes}
    (lasting : (tag number v).Lasting) (short : short? number v = some c) : IsLarge number c := by
  obtain ⟨big, rfl, small⟩ := short?_eq_some.mp short
  exact lasting _ (mem_parts_self _) number c rfl big small

/-! ### Sorted items -/

theorem mem_parts_sorted {u v : Value} : u ∈ v.sorted.parts ↔ ∃ w ∈ v.parts, w.sorted = u := by
  induction v using nested_induction with
  | array items ih =>
    simp only [sorted, sortedAll_eq_map, parts, partsAll_eq_flatMap, List.flatMap_map,
      List.mem_cons, List.mem_flatMap, exists_eq_or_imp]
    refine or_congr eq_comm ?_
    constructor
    · rintro ⟨v, member, inside⟩
      obtain ⟨w, part, same⟩ := (ih v member).mp inside
      exact ⟨w, ⟨v, member, part⟩, same⟩
    · rintro ⟨w, ⟨v, member, part⟩, same⟩
      exact ⟨v, member, (ih v member).mpr ⟨w, part, same⟩⟩
  | map entries ih =>
    simp only [sorted_map, parts, partsEntries_eq_flatMap, List.flatMap_map, List.mem_cons,
      List.mem_flatMap, List.mem_append, mem_inOrder, exists_eq_or_imp]
    refine or_congr eq_comm ?_
    constructor
    · rintro ⟨e, member, first | second⟩
      · obtain ⟨w, part, same⟩ := (ih e member).1.mp first
        exact ⟨w, ⟨e, member, .inl part⟩, same⟩
      · obtain ⟨w, part, same⟩ := (ih e member).2.mp second
        exact ⟨w, ⟨e, member, .inr part⟩, same⟩
    · rintro ⟨w, ⟨e, member, first | second⟩, same⟩
      · exact ⟨e, member, .inl ((ih e member).1.mpr ⟨w, first, same⟩)⟩
      · exact ⟨e, member, .inr ((ih e member).2.mpr ⟨w, second, same⟩)⟩
  | tag number inner ih =>
    simp only [sorted, parts, List.mem_cons, ih, exists_eq_or_imp]
    exact or_congr eq_comm Iff.rfl
  | _ => simp [sorted, parts, eq_comm]

theorem sorted_eq_bytes {v : Value} {c : Bytes} : v.sorted = bytes c ↔ v = bytes c := by
  cases v with
  | map entries => simp [sorted_map]
  | _ => simp [sorted]

theorem sorted_eq_float {v : Value} {bits : UInt64} : v.sorted = float bits ↔ v = float bits := by
  cases v with
  | map entries => simp [sorted_map]
  | _ => simp [sorted]

theorem sorted_eq_tag_bytes {v : Value} {number : UInt64} {c : Bytes} :
    v.sorted = tag number (bytes c) ↔ v = tag number (bytes c) := by
  cases v with
  | map entries => simp [sorted_map]
  | tag n inner => simp [sorted, sorted_eq_bytes]
  | _ => simp [sorted]

theorem lasts_sorted {v : Value} : v.sorted.Lasts ↔ v.Lasts := by
  simp only [Lasts, sorted_eq_tag_bytes]

theorem lasting_sorted {v : Value} : v.sorted.Lasting ↔ v.Lasting := by
  constructor
  · intro lasting u inside
    exact lasts_sorted.mp (lasting _ (mem_parts_sorted.mpr ⟨u, inside, rfl⟩))
  · intro lasting u inside
    obtain ⟨w, part, rfl⟩ := mem_parts_sorted.mp inside
    exact lasts_sorted.mpr (lasting w part)

theorem hasFloat_sorted (v : Value) : v.sorted.hasFloat = v.hasFloat := by
  refine Bool.eq_iff_iff.mpr ?_
  rw [hasFloat_iff, hasFloat_iff]
  constructor
  · rintro ⟨bits, inside⟩
    obtain ⟨w, part, same⟩ := mem_parts_sorted.mp inside
    exact ⟨bits, sorted_eq_float.mp same ▸ part⟩
  · rintro ⟨bits, inside⟩
    exact ⟨bits, mem_parts_sorted.mpr ⟨_, inside, rfl⟩⟩

/-! ### What is read again -/

/-- At most this many arrays, maps and tags stand around one another, where a number under
tag 2 or 3 counts as none. -/
def Within : Nat → Value → Prop
  | d + 1, array items => ∀ v ∈ items, Within d v
  | d + 1, map entries => ∀ e ∈ entries, Within d e.1 ∧ Within d e.2
  | d + 1, tag _ inner => Within d inner
  | 0, tag number inner => IsBig number inner
  | 0, array _ | 0, map _ => False
  | _, _ => True

theorem short?_of_isBig {number : UInt64} {v : Value} (big : IsBig number v) :
    ∃ c, short? number v = some c := by
  obtain ⟨known, c, rfl, small⟩ := big
  exact ⟨c, short?_eq_some.mpr ⟨known, rfl, small⟩⟩

theorem reread_big {d : Nat} {number : UInt64} {v : Value} {c : Bytes}
    (lasting : (tag number v).Lasting) (short : short? number v = some c) :
    reread d (tag number v) = some (tag number v).sorted := by
  have large := lasting.isLarge short
  obtain ⟨big, rfl, -⟩ := short?_eq_some.mp short
  rw [reread_tag_of_short short, big?_of_isLarge big large]
  rfl

theorem reread_of_lasting {d : Nat} {v : Value} (within : Within d v) (lasting : v.Lasting) :
    reread d v = some v.sorted := by
  induction d generalizing v with
  | zero =>
    cases v with
    | array _ | map _ => exact within.elim
    | tag number inner =>
      obtain ⟨c, short⟩ := short?_of_isBig within
      exact reread_big lasting short
    | _ => rfl
  | succ d ih =>
    cases v with
    | array items =>
      have each : ∀ v ∈ items, reread d v = some v.sorted :=
        fun v member => ih (within v member) (lasting.item member)
      rw [reread, mapM_eq_some each, sorted, sortedAll_eq_map]
      rfl
    | map entries =>
      rw [reread, sorted_map, mapM_eq_some (g := fun e => (e.1.sorted, e.2.sorted))]
      · rfl
      · intro e member
        have inside := mem_inOrder.mp member
        obtain ⟨key, value⟩ := within e inside
        obtain ⟨key', value'⟩ := lasting.entry inside
        rw [ih key key', ih value value']
        rfl
    | tag number inner =>
      cases short : short? number inner with
      | some c => exact reread_big lasting short
      | none =>
        simp only [reread, short, ih within lasting.inner]
        rfl
    | _ => rfl

theorem eq_bytes_of_reread {d : Nat} {v : Value} {c : Bytes} (made : reread d v = some (bytes c)) :
    v = bytes c := by
  cases v with
  | bytes b => cases d <;> exact Option.some.inj made
  | array items => cases d <;> simp [reread] at made
  | map entries => cases d <;> simp [reread] at made
  | tag number inner =>
    cases short : short? number inner with
    | none => cases d <;> simp [reread, short] at made
    | some b =>
      rw [reread_tag_of_short short] at made
      obtain ⟨big, -, -⟩ := short?_eq_some.mp short
      rcases big?_cases big made with ⟨n, same⟩ | ⟨n, same⟩ | ⟨b', same, -⟩ <;> cases same
  | _ => cases d <;> simp [reread] at made

structure Settled (u : Value) : Prop where
  counted : u.announced < UInt64.size
  lasts : u.Lasts

theorem Settled.of_announced_eq_zero {u : Value} (none : u.announced = 0) (lasts : u.Lasts) :
    u.Settled where
  counted := none ▸ by decide
  lasts := lasts

theorem settled_big {number : UInt64} {w : Value} {c : Bytes} (big : isBigTag number = true)
    (small : c.length ≤ maxBigLength) (made : big? (number = 3) c = some w) :
    ∀ u ∈ w.parts, u.Settled := by
  rcases big?_cases big made with ⟨n, rfl⟩ | ⟨n, rfl⟩ | ⟨c', rfl, large, shorter⟩
  · exact forall_parts_of_eq rfl (.of_announced_eq_zero rfl (fun _ _ same => by cases same))
  · exact forall_parts_of_eq rfl (.of_announced_eq_zero rfl (fun _ _ same => by cases same))
  · refine forall_parts_tag (.of_announced_eq_zero rfl fun _ _ same _ _ => ?_) ?_
    · cases same
      exact large
    · refine forall_parts_of_eq rfl ⟨?_, fun _ _ same => by cases same⟩
      have limit : maxBigLength < UInt64.size := by decide
      exact Nat.lt_of_le_of_lt (Nat.le_trans shorter small) limit

theorem settled_of_reread {d : Nat} {v w : Value} (counted : v.Counted)
    (made : reread d v = some w) : ∀ u ∈ w.parts, u.Settled := by
  induction d generalizing v w with
  | zero =>
    cases v with
    | array _ | map _ => cases made
    | tag number inner =>
      obtain ⟨c, short, number⟩ := Option.bind_eq_some_iff.mp made
      obtain ⟨big, -, small⟩ := short?_eq_some.mp short
      exact settled_big big small number
    | _ =>
      cases made
      exact forall_parts_of_eq rfl ⟨counted.announced, fun _ _ same => by cases same⟩
  | succ d ih =>
    cases v with
    | array items =>
      obtain ⟨items', all, rfl⟩ := Option.map_eq_some_iff.mp made
      obtain ⟨sizes, each⟩ := mem_of_mapM_eq_some all
      refine forall_parts_array ⟨?_, fun _ _ same => by cases same⟩ fun w member => ?_
      · exact sizes.trans_lt counted.announced
      · obtain ⟨v, inside, made⟩ := each w member
        exact ih (counted.item inside) made
    | map entries =>
      obtain ⟨entries', all, rfl⟩ := Option.map_eq_some_iff.mp made
      obtain ⟨sizes, each⟩ := mem_of_mapM_eq_some all
      rw [length_inOrder] at sizes
      refine forall_parts_map ⟨?_, fun _ _ same => by cases same⟩ fun e member => ?_
      · exact sizes.trans_lt counted.announced
      · obtain ⟨e', inside, made⟩ := each e member
        obtain ⟨key, readKey, later⟩ := Option.bind_eq_some_iff.mp made
        obtain ⟨value, readValue, rfl⟩ := Option.map_eq_some_iff.mp later
        obtain ⟨first, second⟩ := counted.entry (mem_inOrder.mp inside)
        exact ⟨ih first readKey, ih second readValue⟩
    | tag number inner =>
      cases short : short? number inner with
      | some c =>
        rw [reread_tag_of_short short] at made
        obtain ⟨big, -, small⟩ := short?_eq_some.mp short
        exact settled_big big small made
      | none =>
        simp only [reread, short] at made
        obtain ⟨inner', below, rfl⟩ := Option.map_eq_some_iff.mp made
        refine forall_parts_tag (.of_announced_eq_zero rfl ?_) (ih counted.inner below)
        -- no reading makes a byte string of what was none, so a short one would have been there
        intro number' c same big small
        cases same
        obtain rfl := eq_bytes_of_reread below
        simp [short?, big, small] at short
    | _ =>
      cases made
      exact forall_parts_of_eq rfl ⟨counted.announced, fun _ _ same => by cases same⟩

end Value
end ChainRelay.Cbor
