import ChainRelay.Cbor.Shape
import ChainRelay.Proofs.Cbor.Prefix

/-! What an item is once a shape has been found in it. What is taken out of an item is
no larger than the item. -/
namespace ChainRelay.Cbor

theorem bind_eq_ok {ε α β : Type} {x : Except ε α} {f : α → Except ε β} {b : β} :
    (x >>= f) = .ok b ↔ ∃ a, x = .ok a ∧ f a = .ok b := by
  cases x with
  | error e =>
    constructor
    · intro same
      cases same
    · rintro ⟨a, ⟨⟩, -⟩
  | ok a =>
    constructor
    · intro same
      exact ⟨a, rfl, same⟩
    · rintro ⟨a, ⟨⟩, same⟩
      exact same

theorem map_eq_ok {ε α β : Type} {x : Except ε α} {f : α → β} {b : β} :
    x.map f = .ok b ↔ ∃ a, x = .ok a ∧ f a = b := by
  cases x <;> simp [Except.map]

theorem mapM_eq_ok {ε α β : Type} {f : α → Except ε β} {g : α → β} {xs : List α}
    (each : ∀ x ∈ xs, f x = .ok (g x)) : xs.mapM f = .ok (xs.map g) := by
  induction xs with
  | nil => rfl
  | cons x xs ih =>
    rw [List.mapM_cons, each x (by simp), ih fun x member => each x (by simp [member])]
    rfl

theorem map_eq_of_mapM_eq_ok {ε α β : Type} {f : α → Except ε β} {g : β → α} {xs : List α}
    {ys : List β} (each : ∀ x y, f x = .ok y → g y = x) (read : xs.mapM f = .ok ys) :
    ys.map g = xs := by
  induction xs generalizing ys with
  | nil =>
    cases read
    rfl
  | cons x xs ih =>
    rw [List.mapM_cons] at read
    obtain ⟨y, first, rest⟩ := bind_eq_ok.mp read
    obtain ⟨later, others, same⟩ := bind_eq_ok.mp rest
    cases same
    rw [List.map_cons, each x y first, ih others]

namespace Value

variable {context : String}

theorem asArray_eq_ok {v : Value} {items : List Value} :
    v.asArray context = .ok items ↔ v = array items := by
  cases v <;> simp [asArray, fault]

theorem asArrayOf_eq_ok {v : Value} {n : Nat} {items : List Value} :
    v.asArrayOf n context = .ok items ↔ v = array items ∧ items.length = n := by
  rw [asArrayOf, bind_eq_ok]
  constructor
  · rintro ⟨found, read, same⟩
    split at same
    · cases same
      exact ⟨asArray_eq_ok.mp read, ‹_›⟩
    · cases same
  · rintro ⟨rfl, size⟩
    exact ⟨items, rfl, if_pos size⟩

theorem asUnsigned_eq_ok {v : Value} {n : UInt64} :
    v.asUnsigned context = .ok n ↔ v = unsigned n := by
  cases v <;> simp [asUnsigned, fault]

theorem asBytes_eq_ok {v : Value} {b : Bytes} : v.asBytes context = .ok b ↔ v = bytes b := by
  cases v <;> simp [asBytes, fault]

theorem asEmbedded_eq_ok {v : Value} {b : Bytes} :
    v.asEmbedded context = .ok b ↔ v = embed b := by
  cases v with
  | tag number inner =>
    simp only [asEmbedded, embed, tag.injEq]
    split
    · rw [asBytes_eq_ok]
      simp [*]
    · simp [fault, *]
  | _ => simp [asEmbedded, embed, fault]

theorem splitMessage_eq_ok {v : Value} {tag : UInt64} {fields : List Value} :
    v.splitMessage context = .ok (tag, fields) ↔ v = array (unsigned tag :: fields) := by
  rw [splitMessage, bind_eq_ok]
  constructor
  · rintro ⟨items, outer, first⟩
    rw [asArray_eq_ok.mp outer]
    cases items with
    | nil => cases first
    | cons head rest =>
      obtain ⟨n, number, same⟩ := bind_eq_ok.mp first
      cases same
      rw [asUnsigned_eq_ok.mp number]
  · rintro rfl
    exact ⟨_, rfl, rfl⟩

theorem expectFields_eq_ok {n : Nat} {fields : List Value} {u : Unit} :
    expectFields n context fields = .ok u ↔ fields.length = n := by
  rw [expectFields]
  split
  · simp [*]
  · simp [fault, *]

theorem length_le_weight_array (items : List Value) : items.length ≤ (array items).weight := by
  rw [weight]
  induction items with
  | nil => exact Nat.zero_le _
  | cons first items ih =>
    have positive := first.weight_pos
    rw [List.length_cons, weightAll]
    omega

theorem weight_le_of_mem {v : Value} {items : List Value} (member : v ∈ items) :
    v.weight ≤ (array items).weight := by
  rw [weight]
  induction items with
  | nil => simp at member
  | cons first items ih =>
    rw [weightAll]
    rcases List.mem_cons.mp member with rfl | later
    · omega
    · have rest := ih later
      omega

theorem length_le_weight_embed (b : Bytes) : b.length ≤ (embed b).weight := by
  rw [embed, weight, weight]
  omega

end Value

theorem read_of_decode {b : Bytes} {v : Value} (whole : decode b = .ok v) :
    Value.read b = .done v [] := by
  rw [decode] at whole
  split at whole
  · rename_i read
    cases whole
    exact read
  · cases whole
  · cases whole
  · cases whole

theorem weight_le_of_decode {b : Bytes} {v : Value} (whole : decode b = .ok v) :
    v.weight ≤ b.length := by
  have paid := Value.weight_le_of_read (read_of_decode whole)
  rw [List.length_nil] at paid
  omega

end ChainRelay.Cbor
