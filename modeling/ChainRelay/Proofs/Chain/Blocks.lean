import ChainRelay.Proofs.Chain.Source

/-! A chain is its list of blocks. Points lie in it by their place in the list, and a
backend that is right answers every question as the list does. -/
namespace ChainRelay

theorem Point.isOrigin_iff {p : Point} : p.isOrigin = true ↔ p = .origin := by
  obtain ⟨slot, hash⟩ := p
  cases hash <;> simp [isOrigin, origin]

namespace StoredBlock

theorem hash_eq {b : StoredBlock} {h : BlockHash} (named : b.point.hash = some h) : b.hash = h := by
  rw [hash, named]
  rfl

theorem point_hash {b : StoredBlock} (hashed : b.point.hash.isSome) :
    b.point.hash = some b.hash := by
  obtain ⟨h, named⟩ := Option.isSome_iff_exists.mp hashed
  rw [named, hash_eq named]

end StoredBlock

namespace Blocks

/-- Slots rise and no hash comes twice. -/
structure Ordered (l : List StoredBlock) : Prop where
  hashed : ∀ b ∈ l, b.point.hash.isSome
  rising : l.Pairwise fun a b => a.point.slot < b.point.slot
  distinct : l.Pairwise fun a b => a.point.hash ≠ b.point.hash

def reach (front : List StoredBlock) : Point := (front.getLast?.map (·.point)).getD .origin

def Holds (l : List StoredBlock) (p : Point) : Prop := p = .origin ∨ ∃ b ∈ l, b.point = p

def Follows (l : List StoredBlock) (p : Point) (b : StoredBlock) : Prop :=
  ∃ front back, l = front ++ b :: back ∧ reach front = p

theorem mem_drop {l : List StoredBlock} {b : StoredBlock} {place keep : Nat} (late : keep ≤ place)
    (here : l[place]? = some b) : b ∈ l.drop keep := by
  apply List.mem_of_getElem?
  rw [List.getElem?_drop, Nat.add_sub_of_le late]
  exact here

@[simp]
theorem reach_nil : reach [] = .origin := rfl

@[simp]
theorem reach_concat (front : List StoredBlock) (b : StoredBlock) :
    reach (front ++ [b]) = b.point := by
  simp [reach]

theorem reach_append_cons (front : List StoredBlock) (b : StoredBlock) (back : List StoredBlock) :
    reach (front ++ b :: back) = reach (b :: back) := by
  simp [reach, List.getLast?_cons]

theorem exists_mem_reach (b : StoredBlock) (back : List StoredBlock) :
    ∃ a ∈ b :: back, a.point = reach (b :: back) := by
  obtain ⟨init, last, same⟩ := (b :: back).eq_nil_or_concat.resolve_left (List.cons_ne_nil b back)
  rw [same, List.concat_eq_append, reach_concat]
  exact ⟨last, by simp, rfl⟩

theorem holds_reach (front back : List StoredBlock) : Holds (front ++ back) (reach front) := by
  rcases front.eq_nil_or_concat with rfl | ⟨init, last, rfl⟩
  · exact .inl rfl
  · rw [List.concat_eq_append]
    exact .inr ⟨last, by simp, (reach_concat init last).symm⟩

theorem Holds.exists_front {l : List StoredBlock} {p : Point} (held : Holds l p) :
    ∃ front back, l = front ++ back ∧ reach front = p := by
  rcases held with rfl | ⟨b, member, rfl⟩
  · exact ⟨[], l, rfl, rfl⟩
  · obtain ⟨init, back, rfl⟩ := List.append_of_mem member
    exact ⟨init ++ [b], back, by simp, reach_concat init b⟩

theorem Follows.holds {l : List StoredBlock} {p : Point} {b : StoredBlock}
    (follows : Follows l p b) : Holds l p := by
  obtain ⟨front, back, rfl, rfl⟩ := follows
  exact holds_reach front (b :: back)

theorem Follows.mem {l : List StoredBlock} {p : Point} {b : StoredBlock}
    (follows : Follows l p b) : b ∈ l := by
  obtain ⟨front, back, rfl, -⟩ := follows
  simp

theorem lt_of_mem {l : List StoredBlock} {b : StoredBlock}
    (rising : l.Pairwise fun a b => a.point.slot < b.point.slot)
    (last : ∀ a ∈ l.getLast?, a.point.slot < b.point.slot) :
    ∀ a ∈ l, a.point.slot < b.point.slot := by
  rcases l.eq_nil_or_concat with rfl | ⟨init, top, same⟩
  · simp
  · rw [List.concat_eq_append] at same
    subst same
    have under := last top (by simp)
    intro a member
    rcases List.mem_append.mp member with older | same
    · have below := (List.pairwise_append.mp rising).2.2 a older top (by simp)
      exact UInt64.lt_trans below under
    · rw [List.mem_singleton.mp same]
      exact under

theorem rising_concat {l : List StoredBlock} {b : StoredBlock}
    (rising : l.Pairwise fun a b => a.point.slot < b.point.slot)
    (last : ∀ a ∈ l.getLast?, a.point.slot < b.point.slot) :
    (l ++ [b]).Pairwise fun a b => a.point.slot < b.point.slot := by
  refine List.pairwise_append.mpr ⟨rising, by simp, fun a member c new => ?_⟩
  rw [List.mem_singleton.mp new]
  exact lt_of_mem rising last a member

namespace Ordered

variable {l : List StoredBlock}

theorem nil : Ordered [] := ⟨by simp, .nil, .nil⟩

theorem hash_point (ordered : Ordered l) {b : StoredBlock} (member : b ∈ l) :
    b.point.hash = some b.hash :=
  StoredBlock.point_hash (ordered.hashed b member)

theorem sublist {front : List StoredBlock} (ordered : Ordered l) (part : front.Sublist l) :
    Ordered front :=
  ⟨fun b member => ordered.hashed b (part.subset member), ordered.rising.sublist part,
    ordered.distinct.sublist part⟩

theorem find?_hash (ordered : Ordered l) {b : StoredBlock} (member : b ∈ l) :
    (l.find? fun a => a.hash = b.hash) = some b := by
  obtain ⟨front, back, rfl⟩ := List.append_of_mem member
  have before : (front.find? fun a => a.hash = b.hash) = none := by
    rw [List.find?_eq_none]
    intro a early same
    have apart := (List.pairwise_append.mp ordered.distinct).2.2 a early b (by simp)
    rw [ordered.hash_point (by simp [early]), ordered.hash_point member,
      of_decide_eq_true same] at apart
    exact apart rfl
  rw [List.find?_append, before, List.find?_cons_of_pos (by simp)]
  rfl

theorem concat {b : StoredBlock} (ordered : Ordered l) (hash : b.point.hash.isSome)
    (last : ∀ a ∈ l.getLast?, a.point.slot < b.point.slot)
    (fresh : ∀ a ∈ l, a.point.hash ≠ b.point.hash) : Ordered (l ++ [b]) := by
  refine ⟨fun a member => ?_, rising_concat ordered.rising last, ?_⟩
  · rcases List.mem_append.mp member with old | new
    · exact ordered.hashed a old
    · rw [List.mem_singleton.mp new]
      exact hash
  · refine List.pairwise_append.mpr ⟨ordered.distinct, by simp, fun a member c new => ?_⟩
    rw [List.mem_singleton.mp new]
    exact fresh a member

end Ordered

end Blocks

/-- The source answers as the list of blocks does, and stays as it is. Points that are
not `known` cannot be asked about; those of blocks can. -/
structure ChainSource.Answers {σ : Type} (chain : ChainSource σ) (known : Point → Prop) (w : σ)
    (l : List StoredBlock) : Prop where
  ordered : Blocks.Ordered l
  known_of_mem : ∀ b ∈ l, known b.point
  hasPoint_of_mem : ∀ b ∈ l, (chain.hasPoint b.point).run w = (.ok true, w)
  hasPoint_of_not_mem : ∀ p, known p → (∀ b ∈ l, b.point ≠ p) →
    (chain.hasPoint p).run w = (.ok false, w)
  hasPoint_of_unknown : ∀ p, ¬ known p → ∃ e, (chain.hasPoint p).run w = (.error e, w)
  nextAfter : ∀ front back, l = front ++ back →
    (chain.nextAfter (Blocks.reach front)).run w = (.ok (back.head?.map (·.point)), w)
  header : ∀ b ∈ l, (chain.header b.hash).run w = (.ok (some b.header), w)
  body : ∀ b ∈ l, (chain.body b.hash).run w = (.ok (some b.body), w)
  tip : chain.tip.run w = (.ok (l.getLast?.map (·.tip)), w)

theorem ChainSource.Answers.hasPoint_run {σ : Type} {chain : ChainSource σ} {known : Point → Prop}
    {w : σ} {l : List StoredBlock} (right : chain.Answers known w l) (p : Point) :
    ((∃ b ∈ l, b.point = p) ∧ (chain.hasPoint p).run w = (.ok true, w)) ∨
      ((∀ b ∈ l, b.point ≠ p) ∧ ∃ r, (chain.hasPoint p).run w = (r, w) ∧ r ≠ .ok true ∧
        (known p → r = .ok false)) := by
  by_cases member : ∃ b ∈ l, b.point = p
  · obtain ⟨b, here, rfl⟩ := member
    exact .inl ⟨⟨b, here, rfl⟩, right.hasPoint_of_mem b here⟩
  · have absent : ∀ b ∈ l, b.point ≠ p := fun b here same => member ⟨b, here, same⟩
    by_cases asked : known p
    · exact .inr ⟨absent, _, right.hasPoint_of_not_mem p asked absent, nofun, fun _ => rfl⟩
    · obtain ⟨e, failed⟩ := right.hasPoint_of_unknown p asked
      exact .inr ⟨absent, _, failed, nofun, fun known => absurd known asked⟩

end ChainRelay
