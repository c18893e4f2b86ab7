import ChainRelay.Proofs.Chain.Store

/-! A chain as nothing but its list of blocks: what it answers, and what appending and
rolling back make of it. Either backend does the same, as long as what it is given fits
the columns of a table. -/
namespace ChainRelay
namespace Blocks

variable {l front back : List StoredBlock} {p : Point}

def cut (l : List StoredBlock) (p : Point) : Option (List StoredBlock × List StoredBlock) :=
  if p = .origin then some ([], l)
  else (l.findIdx? (·.point = p)).map fun i => (l.take (i + 1), l.drop (i + 1))

def hasPoint (l : List StoredBlock) (p : Point) : Bool := l.any (·.point = p)

def nextAfter (l : List StoredBlock) (p : Point) : Option Point :=
  (cut l p).bind fun parts => parts.2.head?.map (·.point)

def block? (l : List StoredBlock) (hash : BlockHash) : Option StoredBlock :=
  l.find? (·.hash = hash)

def tip (l : List StoredBlock) : Option Tip := l.getLast?.map (·.tip)

def append (l : List StoredBlock) (b : StoredBlock) :
    Except ChainError (AppendResult × List StoredBlock) :=
  if hasPoint l b.point then .ok (.alreadyExists, l)
  else
    match l.getLast? with
    | some last =>
      if last.point.slot < b.point.slot then .ok (.appended, l ++ [b])
      else .error (.notExtending b.point.slot last.point.slot)
    | none => .ok (.appended, l ++ [b])

def rollback (l : List StoredBlock) (p : Point) : Except ChainError (Nat × List StoredBlock) :=
  match cut l p with
  | some (front, back) => .ok (back.length, front)
  | none => .error (.notFound p)

theorem hasPoint_iff : hasPoint l p = true ↔ ∃ b ∈ l, b.point = p := by
  simp [hasPoint]

theorem reach_take {i : Nat} {b : StoredBlock} (here : l[i]? = some b) :
    reach (l.take (i + 1)) = b.point := by
  rw [List.take_add_one, here]
  exact reach_concat _ b

theorem Ordered.ne_origin (ordered : Ordered l) {b : StoredBlock} (member : b ∈ l) :
    b.point ≠ .origin := by
  intro same
  have hash := ordered.hashed b member
  rw [same] at hash
  cases hash

theorem Ordered.point_ne (ordered : Ordered (front ++ back)) {a b : StoredBlock}
    (early : a ∈ front) (late : b ∈ back) : a.point ≠ b.point := by
  intro same
  exact (List.pairwise_append.mp ordered.distinct).2.2 a early b late (congrArg Point.hash same)

theorem Ordered.cut_reach (ordered : Ordered (front ++ back)) :
    cut (front ++ back) (reach front) = some (front, back) := by
  rcases front.eq_nil_or_concat with rfl | ⟨init, last, same⟩
  · exact if_pos rfl
  · rw [List.concat_eq_append] at same
    subst same
    have apart : last.point ≠ .origin := ordered.ne_origin (by simp)
    have before : init.findIdx? (·.point = last.point) = none := by
      rw [List.findIdx?_eq_none_iff]
      intro a early
      rw [List.append_assoc] at ordered
      exact decide_eq_false (ordered.point_ne early (by simp))
    have here : (init ++ [last] ++ back).findIdx? (·.point = last.point) = some init.length := by
      rw [List.append_assoc, List.findIdx?_append, before, List.singleton_append,
        List.findIdx?_cons]
      simp
    rw [reach_concat, cut, if_neg apart, here]
    have size : init.length + 1 = (init ++ [last]).length := by simp
    rw [Option.map_some, size, List.take_left, List.drop_left]

theorem Ordered.cut_eq_some_iff (ordered : Ordered l) :
    cut l p = some (front, back) ↔ l = front ++ back ∧ reach front = p := by
  constructor
  · intro found
    rw [cut] at found
    split at found
    · rename_i start
      cases found
      exact ⟨rfl, start.symm⟩
    · obtain ⟨i, here, same⟩ := Option.map_eq_some_iff.mp found
      cases same
      obtain ⟨within, matched, -⟩ := List.findIdx?_eq_some_iff_getElem.mp here
      refine ⟨(List.take_append_drop (i + 1) l).symm, ?_⟩
      rw [reach_take (List.getElem?_eq_getElem within)]
      exact of_decide_eq_true matched
  · rintro ⟨rfl, rfl⟩
    exact ordered.cut_reach

theorem Ordered.block?_eq_some_iff (ordered : Ordered l) {hash : BlockHash} {b : StoredBlock} :
    block? l hash = some b ↔ b ∈ l ∧ b.point.hash = some hash := by
  constructor
  · intro found
    have member := List.mem_of_find?_eq_some found
    have own : b.hash = hash := by simpa using List.find?_some found
    exact ⟨member, own ▸ ordered.hash_point member⟩
  · rintro ⟨member, same⟩
    exact StoredBlock.hash_eq same ▸ ordered.find?_hash member

theorem cut_eq_none_iff :
    cut l p = none ↔ p.isOrigin = false ∧ hasPoint l p = false := by
  rw [cut, ← Bool.not_eq_true, Point.isOrigin_iff, ← Bool.not_eq_true, hasPoint_iff]
  split
  · simp [*]
  · simp [List.findIdx?_eq_none_iff, *]

theorem Ordered.filter_le_reach (ordered : Ordered (front ++ back)) (begun : front ≠ []) :
    (front ++ back).filter (·.point.slot ≤ (reach front).slot) = front := by
  obtain ⟨init, last, rfl⟩ := front.eq_nil_or_concat.resolve_left begun
  rw [List.concat_eq_append] at ordered ⊢
  obtain ⟨upTo, -, between⟩ := List.pairwise_append.mp ordered.rising
  have kept : (init ++ [last]).filter (·.point.slot ≤ last.point.slot) = init ++ [last] := by
    rw [List.filter_eq_self]
    intro a early
    rcases List.mem_append.mp early with older | same
    · have below := (List.pairwise_append.mp upTo).2.2 a older last (by simp)
      exact decide_eq_true (UInt64.le_of_lt below)
    · rw [List.mem_singleton.mp same]
      exact decide_eq_true (UInt64.le_refl _)
  have dropped : back.filter (·.point.slot ≤ last.point.slot) = [] := by
    rw [List.filter_eq_nil_iff]
    intro a late within
    have above := between last (by simp) a late
    exact UInt64.not_le.mpr above (of_decide_eq_true within)
  rw [reach_concat, List.filter_append, kept, dropped, List.append_nil]

theorem Ordered.filter_ge_slot {b : StoredBlock} (ordered : Ordered (front ++ b :: back)) :
    (front ++ b :: back).filter (b.point.slot ≤ ·.point.slot) = b :: back := by
  obtain ⟨-, onward, between⟩ := List.pairwise_append.mp ordered.rising
  have dropped : front.filter (b.point.slot ≤ ·.point.slot) = [] := by
    rw [List.filter_eq_nil_iff]
    intro a early within
    have below := between a early b List.mem_cons_self
    exact UInt64.not_le.mpr below (of_decide_eq_true within)
  have kept : (b :: back).filter (b.point.slot ≤ ·.point.slot) = b :: back := by
    rw [List.filter_eq_self]
    intro a late
    rcases List.mem_cons.mp late with rfl | later
    · exact decide_eq_true (UInt64.le_refl _)
    · exact decide_eq_true (UInt64.le_of_lt ((List.pairwise_cons.mp onward).1 a later))
  rw [List.filter_append, dropped, kept, List.nil_append]

/-- A block that may be given to a chain: it has a hash, which no block at another slot
has, and its numbers fit a signed column. -/
structure Admissible (l : List StoredBlock) (b : StoredBlock) : Prop where
  hashed : b.point.hash.isSome
  slot : b.point.slot < 9223372036854775808
  number : b.blockNumber < 9223372036854775808
  fresh : ∀ a ∈ l, a.point.hash = b.point.hash → a.point.slot = b.point.slot

instance (l : List StoredBlock) (b : StoredBlock) : Decidable (Admissible l b) :=
  decidable_of_iff (b.point.hash.isSome ∧ b.point.slot < 9223372036854775808 ∧
      b.blockNumber < 9223372036854775808 ∧
        ∀ a ∈ l, a.point.hash = b.point.hash → a.point.slot = b.point.slot)
    ⟨fun ⟨hashed, slot, number, fresh⟩ => ⟨hashed, slot, number, fresh⟩,
      fun ⟨hashed, slot, number, fresh⟩ => ⟨hashed, slot, number, fresh⟩⟩

theorem Admissible.point_eq {b a : StoredBlock} (admissible : Admissible l b) (member : a ∈ l)
    (same : a.point.hash = b.point.hash) : a.point = b.point := by
  have slot := admissible.fresh a member same
  cases here : a.point
  cases there : b.point
  simp_all

end Blocks

/-! ### A chain in memory -/

namespace IndexedChain
open Blocks (Ordered)

variable {c : IndexedChain}

theorem Exact.hasPoint_eq (exact : Exact c) (p : Point) :
    c.hasPoint p = Blocks.hasPoint c.blocks p := by
  rw [Bool.eq_iff_iff, exact.hasPoint, Blocks.hasPoint_iff]

theorem Exact.position_eq_none (exact : Exact c) {p : Point}
    (absent : Blocks.hasPoint c.blocks p = false) : c.position p = none := by
  rw [← exact.hasPoint_eq, IndexedChain.hasPoint] at absent
  exact Option.isNone_iff_eq_none.mp (Option.isSome_eq_false_iff.mp absent)

theorem Exact.nextAfter_eq (exact : Exact c) (p : Point) :
    c.nextAfter p = Blocks.nextAfter c.blocks p := by
  rw [Blocks.nextAfter]
  cases found : Blocks.cut c.blocks p with
  | some parts =>
    obtain ⟨whole, rfl⟩ := exact.ordered.cut_eq_some_iff.mp found
    exact exact.nextAfter whole
  | none =>
    obtain ⟨later, absent⟩ := Blocks.cut_eq_none_iff.mp found
    simp only [IndexedChain.nextAfter, later, exact.position_eq_none absent]
    rfl

theorem Exact.block?_eq (exact : Exact c) (hash : BlockHash) :
    c.block? hash = Blocks.block? c.blocks hash := by
  ext b
  rw [exact.ordered.block?_eq_some_iff, block?, Option.bind_eq_bind, Option.bind_eq_some_iff]
  constructor
  · rintro ⟨place, filed, here⟩
    obtain ⟨a, there, same⟩ := (exact.find? hash place).mp filed
    rw [here] at there
    cases there
    exact ⟨List.mem_of_getElem? here, same⟩
  · rintro ⟨member, same⟩
    obtain ⟨place, here⟩ := List.mem_iff_getElem?.mp member
    exact ⟨place, (exact.find? hash place).mpr ⟨b, here, same⟩, here⟩

theorem Exact.append_eq (exact : Exact c) (b : StoredBlock) :
    (c.append b).map (fun r => (r.1, r.2.blocks)) = Blocks.append c.blocks b := by
  rw [IndexedChain.append, Blocks.append, exact.hasPoint_eq]
  split
  · rfl
  · cases c.blocks.getLast? with
    | none => rfl
    | some last =>
      by_cases above : last.point.slot < b.point.slot
      · simp only [if_pos above, if_neg (UInt64.not_le.mpr above)]
        rfl
      · simp only [if_neg above, if_pos (UInt64.not_lt.mp above)]
        rfl

theorem Exact.rollback_eq (exact : Exact c) (p : Point) :
    (c.rollback p).map (fun r => (r.1, r.2.blocks)) = Blocks.rollback c.blocks p := by
  rw [IndexedChain.rollback, Blocks.rollback]
  split
  · rename_i start
    have whole : Blocks.cut c.blocks p = some ([], c.blocks) :=
      if_pos (Point.isOrigin_iff.mp start)
    rw [whole]
    rfl
  · rename_i later
    split
    · rename_i place found
      obtain ⟨b, here, rfl⟩ := exact.position.mp found
      have parts : Blocks.cut c.blocks b.point =
          some (c.blocks.take (place + 1), c.blocks.drop (place + 1)) :=
        exact.ordered.cut_eq_some_iff.mpr
          ⟨(List.take_append_drop (place + 1) c.blocks).symm, Blocks.reach_take here⟩
      rw [parts]
      rfl
    · rename_i missing
      have absent : Blocks.hasPoint c.blocks p = false := by
        rw [← exact.hasPoint_eq, IndexedChain.hasPoint, missing]
        rfl
      rw [Blocks.cut_eq_none_iff.mpr ⟨Bool.eq_false_iff.mpr later, absent⟩]
      rfl

end IndexedChain

/-! ### A chain in a table -/

namespace TableChain
open Blocks (Ordered)

variable {t : TableChain}

theorem fits_of_lt {n : UInt64} (narrow : n < 9223372036854775808) : fits n = true := by
  have top : maxColumn.toNat = 9223372036854775807 := rfl
  rw [fits, decide_eq_true_eq, UInt64.le_iff_toNat_le, top]
  exact Nat.le_of_lt_succ (UInt64.lt_iff_toNat_lt.mp narrow)

theorem Exact.lookup_eq (exact : Exact t) {p : Point} (narrow : fits p.slot = true) :
    t.lookup p = .ok (if Blocks.hasPoint t.rows p then some p.slot else none) := by
  by_cases here : Blocks.hasPoint t.rows p = true
  · obtain ⟨row, member, rfl⟩ := Blocks.hasPoint_iff.mp here
    rw [if_pos here, exact.lookup_of_mem member]
  · rw [if_neg here, exact.lookup_of_not_mem (fun _ => narrow) fun row member same =>
      here (Blocks.hasPoint_iff.mpr ⟨row, member, same⟩)]

theorem Exact.hasPoint_eq (exact : Exact t) {p : Point} (narrow : fits p.slot = true) :
    t.hasPoint p = .ok (Blocks.hasPoint t.rows p) := by
  rw [TableChain.hasPoint, exact.lookup_eq narrow]
  cases Blocks.hasPoint t.rows p <;> rfl

theorem Exact.nextAfter_eq (exact : Exact t) {p : Point} (narrow : fits p.slot = true) :
    t.nextAfter p = .ok (Blocks.nextAfter t.rows p) := by
  rw [Blocks.nextAfter]
  cases found : Blocks.cut t.rows p with
  | some parts =>
    obtain ⟨whole, rfl⟩ := exact.ordered.cut_eq_some_iff.mp found
    exact exact.nextAfter whole
  | none =>
    obtain ⟨later, absent⟩ := Blocks.cut_eq_none_iff.mp found
    simp only [TableChain.nextAfter, later, exact.lookup_eq narrow, absent]
    rfl

theorem Exact.tip_eq (exact : Exact t) : t.tip = Blocks.tip t.rows := by
  rw [TableChain.tip, Blocks.tip]
  refine Option.map_congr fun row top => ?_
  rw [rowTip, exact.rowPoint (List.mem_of_getLast? top)]
  rfl

theorem Exact.insert_eq (exact : Exact t) {b : StoredBlock}
    (admissible : Blocks.Admissible t.rows b) (absent : Blocks.hasPoint t.rows b.point = false) :
    t.insert b = .ok ⟨t.rows ++ [b]⟩ := by
  have new : t.row? b.hash = none := by
    rw [row?, List.find?_eq_none]
    intro row member same
    have filed : row.point.hash = b.point.hash := by
      rw [exact.ordered.hash_point member, of_decide_eq_true same,
        StoredBlock.point_hash admissible.hashed]
    have here := Blocks.hasPoint_iff.mpr ⟨row, member, admissible.point_eq member filed⟩
    rw [absent] at here
    cases here
  rw [TableChain.insert, bind_of_fits (fits_of_lt admissible.slot),
    bind_of_fits (fits_of_lt admissible.number), new]
  rfl

theorem Exact.append_eq (exact : Exact t) {b : StoredBlock}
    (admissible : Blocks.Admissible t.rows b) :
    (t.append b).map (fun r => (r.1, r.2.rows)) = Blocks.append t.rows b := by
  have found := exact.lookup_eq (fits_of_lt admissible.slot)
  rw [TableChain.append, Blocks.append, found]
  cases here : Blocks.hasPoint t.rows b.point with
  | true => rfl
  | false =>
    have inserted := exact.insert_eq admissible here
    cases t.rows.getLast? with
    | none =>
      simp only [inserted]
      rfl
    | some last =>
      by_cases above : last.point.slot < b.point.slot
      · simp only [inserted, if_pos above, if_neg (UInt64.not_le.mpr above)]
        rfl
      · simp only [if_neg above, if_pos (UInt64.not_lt.mp above)]
        rfl

theorem Exact.rollback_eq (exact : Exact t) {p : Point} (narrow : fits p.slot = true) :
    (t.rollback p).map (fun r => (r.1, r.2.rows)) = Blocks.rollback t.rows p := by
  rw [TableChain.rollback, Blocks.rollback]
  split
  · rename_i start
    have whole : Blocks.cut t.rows p = some ([], t.rows) := if_pos (Point.isOrigin_iff.mp start)
    rw [whole]
    rfl
  · rename_i later
    rw [exact.lookup_eq narrow]
    cases found : Blocks.cut t.rows p with
    | some parts =>
      obtain ⟨front, back⟩ := parts
      obtain ⟨whole, rfl⟩ := exact.ordered.cut_eq_some_iff.mp found
      have begun : front ≠ [] := by
        rintro rfl
        exact later rfl
      have here : Blocks.hasPoint t.rows (Blocks.reach front) = true := by
        rcases Blocks.holds_reach front back with start | held
        · exact absurd (Point.isOrigin_iff.mpr start) later
        · rw [whole]
          exact Blocks.hasPoint_iff.mpr held
      have ordered := exact.ordered
      rw [whole] at ordered
      have kept := ordered.filter_le_reach begun
      have removed : t.rows.length - front.length = back.length := by
        rw [whole, List.length_append, Nat.add_sub_cancel_left]
      rw [here, if_pos rfl]
      change Except.ok (t.rows.length - (t.rows.filter _).length, t.rows.filter _) = _
      rw [whole, kept, ← whole, removed]
    | none =>
      rw [(Blocks.cut_eq_none_iff.mp found).2]
      rfl

end TableChain
end ChainRelay
