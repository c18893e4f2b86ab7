import ChainRelay.Proofs.Cbor.RoundTrip
import Mathlib.Data.List.Basic

/-! What a written item tells of the item. Heads announce how much follows, so one written
item ends where its item does, whatever comes after it, and two items are written alike
exactly if they differ in no more than the order of map entries that the writer sorts. No
limit on the nesting and no exception for big numbers is needed, since nothing is read. -/
namespace ChainRelay.Cbor

variable {α β : Type}

namespace Value

/-! ### The end of a written item -/

theorem flatMap_append_inj {f : α → Bytes} {g : α → β} {xs ys : List α}
    (each : ∀ x ∈ xs, ∀ y ∈ ys, ∀ a b, f x ++ a = f y ++ b → g x = g y ∧ a = b)
    (sizes : xs.length = ys.length) {a b : Bytes} (same : xs.flatMap f ++ a = ys.flatMap f ++ b) :
    xs.map g = ys.map g ∧ a = b := by
  induction xs generalizing ys with
  | nil =>
    obtain rfl := List.length_eq_zero_iff.mp sizes.symm
    exact ⟨rfl, same⟩
  | cons x xs ih =>
    cases ys with
    | nil => cases sizes
    | cons y ys =>
      rw [List.flatMap_cons, List.flatMap_cons, List.append_assoc, List.append_assoc] at same
      obtain ⟨first, later⟩ := each x (by simp) y (by simp) _ _ same
      obtain ⟨others, rest⟩ := ih
        (fun x old y new => each x (List.mem_cons_of_mem _ old) y (List.mem_cons_of_mem _ new))
        (Nat.succ.inj sizes) later
      exact ⟨by rw [List.map_cons, List.map_cons, first, others], rest⟩

theorem top_eq_of_write {v w : Value} (counted : v.Counted) (counted' : w.Counted) {a b : Bytes}
    (same : write v ++ a = write w ++ b) :
    v.top = w.top ∧ v.content ++ a = w.content ++ b := by
  have read := read_head_write counted.announced a
  rw [same, read_head_write counted'.announced b] at read
  obtain ⟨tops, contents⟩ := Outcome.done.inj read
  exact ⟨tops.symm, contents.symm⟩

theorem content_append_inj {v w : Value} (counted : v.Counted) (counted' : w.Counted)
    {a b : Bytes} (tops : v.top = w.top) (same : v.content ++ a = w.content ++ b) :
    v.sorted = w.sorted ∧ a = b := by
  -- equal heads leave one kind for the second item, and tell how long its content is
  induction v using nested_induction generalizing w a b with
  | unsigned n =>
    cases w with
    | unsigned m =>
      cases tops
      exact ⟨rfl, same⟩
    | _ => cases tops
  | negative n =>
    cases w with
    | negative m =>
      cases tops
      exact ⟨rfl, same⟩
    | _ => cases tops
  | bytes part =>
    cases w with
    | bytes part' =>
      have sizes : part.length = part'.length := Option.some.inj (Head.bytes.inj tops)
      obtain ⟨parts, rest⟩ := List.append_inj same sizes
      exact ⟨congrArg bytes parts, rest⟩
    | _ => cases tops
  | text s =>
    cases w with
    | text t =>
      have sizes : (Bytes.ofText s).length = (Bytes.ofText t).length :=
        Option.some.inj (Head.text.inj tops)
      obtain ⟨written, rest⟩ := List.append_inj same sizes
      have texts : Bytes.toText? (Bytes.ofText s) = Bytes.toText? (Bytes.ofText t) :=
        congrArg Bytes.toText? written
      rw [Bytes.toText?_ofText, Bytes.toText?_ofText] at texts
      exact ⟨congrArg text (Option.some.inj texts), rest⟩
    | _ => cases tops
  | array items ih =>
    cases w with
    | array items' =>
      have sizes : items.length = items'.length := Option.some.inj (Head.array.inj tops)
      have each : ∀ v ∈ items, ∀ w ∈ items', ∀ a b, write v ++ a = write w ++ b →
          v.sorted = w.sorted ∧ a = b := by
        intro v member w member' a b same
        obtain ⟨tops, later⟩ := top_eq_of_write (counted.item member) (counted'.item member') same
        exact ih v member (counted.item member) (counted'.item member') tops later
      obtain ⟨values, rest⟩ := flatMap_append_inj each sizes same
      rw [sorted, sorted, sortedAll_eq_map, sortedAll_eq_map, values]
      exact ⟨rfl, rest⟩
    | _ => cases tops
  | map entries ih =>
    cases w with
    | map entries' =>
      have sizes : (inOrder entries).length = (inOrder entries').length := by
        rw [length_inOrder, length_inOrder]
        exact Option.some.inj (Head.map.inj tops)
      have each : ∀ e ∈ inOrder entries, ∀ d ∈ inOrder entries', ∀ a b,
          (write e.1 ++ write e.2) ++ a = (write d.1 ++ write d.2) ++ b →
            (e.1.sorted, e.2.sorted) = (d.1.sorted, d.2.sorted) ∧ a = b := by
        intro e member d member' a b same
        obtain ⟨readKey, readValue⟩ := ih e (mem_inOrder.mp member)
        obtain ⟨key, value⟩ := counted.entry (mem_inOrder.mp member)
        obtain ⟨key', value'⟩ := counted'.entry (mem_inOrder.mp member')
        rw [List.append_assoc, List.append_assoc] at same
        obtain ⟨tops, later⟩ := top_eq_of_write key key' same
        obtain ⟨keys, behind⟩ := readKey key key' tops later
        obtain ⟨tops, later⟩ := top_eq_of_write value value' behind
        obtain ⟨values, rest⟩ := readValue value value' tops later
        exact ⟨by rw [keys, values], rest⟩
      obtain ⟨pairs, rest⟩ := flatMap_append_inj each sizes same
      rw [sorted_map, sorted_map, pairs]
      exact ⟨rfl, rest⟩
    | _ => cases tops
  | tag number inner ih =>
    cases w with
    | tag number' inner' =>
      obtain rfl := Head.tag.inj tops
      obtain ⟨tops, later⟩ := top_eq_of_write counted.inner counted'.inner same
      obtain ⟨values, rest⟩ := ih counted.inner counted'.inner tops later
      rw [sorted, sorted, values]
      exact ⟨rfl, rest⟩
    | _ => cases tops
  | bool yes =>
    cases w with
    | bool yes' =>
      have equal : yes = yes' := by
        cases yes <;> cases yes' <;> first | rfl | cases tops
      exact ⟨congrArg bool equal, same⟩
    | null => cases yes <;> cases tops
    | _ => cases tops
  | null =>
    cases w with
    | bool yes => cases yes <;> cases tops
    | null => exact ⟨rfl, same⟩
    | _ => cases tops
  | float bits =>
    cases w with
    | float bits' =>
      cases tops
      exact ⟨rfl, same⟩
    | _ => cases tops

theorem write_append_inj {v w : Value} (counted : v.Counted) (counted' : w.Counted) {a b : Bytes}
    (same : write v ++ a = write w ++ b) : v.sorted = w.sorted ∧ a = b := by
  obtain ⟨tops, contents⟩ := top_eq_of_write counted counted' same
  exact content_append_inj counted counted' tops contents

/-! ### Maps in order -/

theorem bytesLe_trans {a b c : Bytes} (first : bytesLe a b = true) (second : bytesLe b c = true) :
    bytesLe a c = true :=
  decide_eq_true (List.le_trans (of_decide_eq_true first) (of_decide_eq_true second))

theorem bytesLe_total (a b : Bytes) : (bytesLe a b || bytesLe b a) = true := by
  rw [Bool.or_eq_true]
  exact (List.le_total a b).imp decide_eq_true decide_eq_true

theorem pairwise_inOrder (es : List (Value × Value)) :
    (inOrder es).Pairwise fun x y => bytesLe (write x.1) (write y.1) = true := by
  apply List.pairwise_mergeSort
  · exact fun _ _ _ => bytesLe_trans
  · exact fun _ _ => bytesLe_total _ _

theorem write_sorted (v : Value) : write v.sorted = write v := by
  induction v using nested_induction with
  | array items ih =>
    have each : (items.map sorted).flatMap write = items.flatMap write := by
      rw [List.flatMap_map]
      exact List.flatMap_congr ih
    rw [sorted, sortedAll_eq_map, write, write, writeItems_eq_flatMap, writeItems_eq_flatMap, each,
      List.length_map]
  | map entries ih =>
    have each : ∀ e ∈ inOrder entries,
        write e.1.sorted = write e.1 ∧ write e.2.sorted = write e.2 :=
      fun e member => ih e (mem_inOrder.mp member)
    have still : inOrder ((inOrder entries).map fun e => (e.1.sorted, e.2.sorted)) =
        (inOrder entries).map fun e => (e.1.sorted, e.2.sorted) := by
      refine List.mergeSort_of_pairwise (List.pairwise_map.mpr ?_)
      refine (pairwise_inOrder entries).imp_of_mem fun old new le => ?_
      rwa [(each _ old).1, (each _ new).1]
    have bodies : ((inOrder entries).map fun e => (e.1.sorted, e.2.sorted)).flatMap
        (fun e => write e.1 ++ write e.2) =
          (inOrder entries).flatMap fun e => write e.1 ++ write e.2 := by
      rw [List.flatMap_map]
      exact List.flatMap_congr fun e member => by rw [(each e member).1, (each e member).2]
    rw [sorted_map, write, write, joinEntries_writeEntries, joinEntries_writeEntries, still, bodies,
      List.length_map, length_inOrder]
  | tag number inner ih => rw [sorted, write, write, ih]
  | _ => rfl

theorem write_eq_iff {v w : Value} (counted : v.Counted) (counted' : w.Counted) :
    v.write = w.write ↔ v.sorted = w.sorted := by
  constructor
  · intro same
    exact (write_append_inj counted counted' (congrArg (· ++ []) same)).1
  · intro same
    rw [← write_sorted v, same, write_sorted]

theorem write_eq_of_prefix {v w : Value} (counted : v.Counted) (counted' : w.Counted)
    (front : v.write <+: w.write) : v.write = w.write := by
  obtain ⟨rest, same⟩ := front
  have none : rest = [] := (write_append_inj counted counted'
    (same.trans (List.append_nil w.write).symm)).2
  rw [← same, none, List.append_nil]

/-! ### Items within items -/

theorem infix_flatMap {f : α → Bytes} {xs : List α} {x : α} (member : x ∈ xs) :
    f x <:+: xs.flatMap f := by
  rw [List.flatMap_def]
  exact List.infix_of_mem_flatten (List.mem_map_of_mem member)

theorem write_infix_of_mem_parts {u v : Value} (inside : u ∈ v.parts) : u.write <:+: v.write := by
  induction v using nested_induction generalizing u with
  | array items ih =>
    refine forall_parts_array (P := fun u => u.write <:+: (array items).write) List.infix_rfl
      (fun v member u part => ?_) u inside
    have item : v.write <:+: (array items).write := by
      rw [write, writeItems_eq_flatMap]
      exact (infix_flatMap member).trans (List.suffix_append _ _).isInfix
    exact (ih v member part).trans item
  | map entries ih =>
    refine forall_parts_map (P := fun u => u.write <:+: (map entries).write) List.infix_rfl
      (fun e member => ?_) u inside
    have entry : e.1.write ++ e.2.write <:+: (map entries).write := by
      rw [write, joinEntries_writeEntries]
      have within := infix_flatMap (f := fun e : Value × Value => e.1.write ++ e.2.write)
        (mem_inOrder.mpr member)
      exact within.trans (List.suffix_append _ _).isInfix
    obtain ⟨key, value⟩ := ih e member
    constructor
    · exact fun u part => ((key part).trans (List.prefix_append _ _).isInfix).trans entry
    · exact fun u part => ((value part).trans (List.suffix_append _ _).isInfix).trans entry
  | tag number inner ih =>
    refine forall_parts_tag (P := fun u => u.write <:+: (tag number inner).write) List.infix_rfl
      (fun u part => ?_) u inside
    exact (ih part).trans (List.suffix_append _ _).isInfix
  | _ =>
    cases List.mem_singleton.mp inside
    exact List.infix_rfl

/-- Without a float, and with lengths that heads can tell. -/
structure Writable (v : Value) : Prop where
  floatless : ∀ bits, float bits ∉ v.parts
  counted : v.Counted

theorem Writable.encode_eq {v : Value} (writable : v.Writable) : encode v = .ok v.write := by
  have none : ¬ v.hasFloat = true := by
    intro found
    obtain ⟨bits, inside⟩ := hasFloat_iff.mp found
    exact writable.floatless bits inside
  exact if_neg none

end Value

/-- The encoding of an item without floats is that of the items which have the same maps in
some order, and of no others; it begins no other encoding. Every map in it has its keys in
order. An item with a float has no encoding. -/
theorem encode_identifies {v w : Value} (writable : v.Writable) (writable' : w.Writable) :
    encode v = .ok v.write ∧ (encode v = encode w ↔ v.sorted = w.sorted) ∧
      (v.write <+: w.write → v.write = w.write) ∧
      (∀ es, .map es ∈ v.parts → ∃ written : List (Bytes × Bytes),
        written.Perm (es.map fun e => (e.1.write, e.2.write)) ∧
        (written.map (·.1)).Pairwise (· ≤ ·) ∧
        (Value.map es).write = head 5 es.length ++ written.flatMap (fun e => e.1 ++ e.2) ∧
        (Value.map es).write <:+: v.write) ∧
      ∀ u bits, .float bits ∈ u.parts → encode u = .error .floats := by
  refine ⟨writable.encode_eq, ?_, ?_, ?_, ?_⟩
  · rw [writable.encode_eq, writable'.encode_eq, Except.ok.injEq]
    exact Value.write_eq_iff writable.counted writable'.counted
  · exact Value.write_eq_of_prefix writable.counted writable'.counted
  · intro es inside
    refine ⟨(Value.inOrder es).map fun e => (e.1.write, e.2.write), ?_, ?_, ?_, ?_⟩
    · exact (List.mergeSort_perm es _).map _
    · rw [List.map_map]
      refine List.pairwise_map.mpr ((Value.pairwise_inOrder es).imp fun le => ?_)
      exact of_decide_eq_true le
    · rw [Value.write, Value.joinEntries_writeEntries, List.flatMap_map]
    · exact Value.write_infix_of_mem_parts inside
  · intro u bits inside
    exact if_pos (Value.hasFloat_iff.mpr ⟨bits, inside⟩)

theorem Value.sorted_pair_of_le {x y : Value × Value}
    (ahead : bytesLe x.1.write y.1.write = true) :
    (map [x, y]).sorted = map [(x.1.sorted, x.2.sorted), (y.1.sorted, y.2.sorted)] := by
  have still : inOrder [x, y] = [x, y] := List.mergeSort_of_pairwise (by simpa using ahead)
  rw [sorted_map, still]
  rfl

/-- A map in either order, with a short byte string under tag 2, which would be read as a
number. -/
theorem encode_identifies_swapped :
    let x : Value × Value := (.unsigned 10, .tag 2 (.bytes [1]))
    let y : Value × Value := (.text "a", .array [.unsigned 1000])
    (Value.map [x, y]).Writable ∧ (Value.map [y, x]).Writable ∧
      encode (.map [x, y]) = encode (.map [y, x]) := by
  intro x y
  have writable : (Value.map [x, y]).Writable :=
    ⟨by simp [x, y, Value.parts, Value.partsEntries, Value.partsAll],
      by unfold Value.Counted; decide⟩
  have writable' : (Value.map [y, x]).Writable :=
    ⟨by simp [x, y, Value.parts, Value.partsEntries, Value.partsAll],
      by unfold Value.Counted; decide⟩
  refine ⟨writable, writable', (encode_identifies writable writable').2.1.mpr ?_⟩
  rw [Value.sorted_pair_of_le (by decide), Value.sorted_pair (by decide)]

end ChainRelay.Cbor
