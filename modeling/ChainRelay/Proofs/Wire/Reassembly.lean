import ChainRelay.Proofs.Cbor.Prefix
import ChainRelay.Wire.Demuxer

/-! A buffer is looked at each time that it has grown. What was answered about its front
holds for every longer buffer, so an answer never has to be taken back, and since every
item uses bytes, taking items off the front comes to an end. -/
namespace ChainRelay
open Cbor (decodePrefix)

namespace Leftover

/-- The run of the loop that takes complete items off the front of a buffer: the items
and what is left. A run is finite, and it is not bounded by a count of rounds. -/
inductive Drains : Bytes → List Bytes → Leftover → Prop where
  | item {b : Bytes} {v : Cbor.Value} {used : Nat} {items : List Bytes} {left : Leftover} :
      decodePrefix b = .ok (some (v, used)) → Drains (b.drop used) items left →
        Drains b (b.take used :: items) left
  | unfinished {b : Bytes} : decodePrefix b = .ok none → Drains b [] (.unfinished b)
  | malformed {b : Bytes} {e : Cbor.Error} : decodePrefix b = .error e → Drains b [] .malformed

theorem exists_drains (b : Bytes) : ∃ items left, Drains b items left := by
  generalize size : b.length = n
  induction n using Nat.strongRecOn generalizing b with
  | ind n ih =>
    cases front : decodePrefix b with
    | error e => exact ⟨[], .malformed, .malformed front⟩
    | ok answer =>
      cases answer with
      | none => exact ⟨[], .unfinished b, .unfinished front⟩
      | some found =>
        obtain ⟨v, used⟩ := found
        have positive := Cbor.used_pos front
        have within := (Cbor.decodePrefix_eq_some_iff.mp front).1
        have shorter : (b.drop used).length < n := by
          rw [List.length_drop]
          omega
        obtain ⟨items, left, run⟩ := ih _ shorter (b.drop used) rfl
        exact ⟨b.take used :: items, left, .item front run⟩

theorem Drains.splitFrom_eq {b : Bytes} {items : List Bytes} {left : Leftover}
    (run : Drains b items left) {fuel : Nat} (enough : b.length < fuel) (done : List Bytes) :
    splitFrom fuel done b = (done.reverse ++ items, left) := by
  induction run generalizing fuel done with
  | @item b v used items left front _ ih =>
    obtain ⟨fuel, rfl⟩ : ∃ n, fuel = n + 1 := ⟨fuel - 1, by omega⟩
    have positive := Cbor.used_pos front
    have within := (Cbor.decodePrefix_eq_some_iff.mp front).1
    have shorter : (b.drop used).length < fuel := by
      rw [List.length_drop]
      omega
    simp only [splitFrom, front, ih shorter, List.reverse_cons, List.append_assoc,
      List.singleton_append]
  | unfinished front =>
    obtain ⟨fuel, rfl⟩ : ∃ n, fuel = n + 1 := ⟨fuel - 1, by omega⟩
    simp only [splitFrom, front, List.append_nil]
  | malformed front =>
    obtain ⟨fuel, rfl⟩ : ∃ n, fuel = n + 1 := ⟨fuel - 1, by omega⟩
    simp only [splitFrom, front, List.append_nil]

end Leftover

/-- An item or a fault found at the front of a buffer is found again when more has come,
the buffer was unfinished at every byte before the item's last, and the loop over the
buffer ends, with the items and the leftover that `Leftover.split` gives. -/
theorem decodePrefix_settled (b more : Bytes) :
    (∀ v used, decodePrefix b = .ok (some (v, used)) →
      1 ≤ used ∧ used ≤ b.length ∧ decodePrefix (b ++ more) = .ok (some (v, used)) ∧
        ∀ k < used, decodePrefix (b.take k) = .ok none) ∧
    (∀ e, decodePrefix b = .error e → decodePrefix (b ++ more) = .error e) ∧
    (∃ items left, Leftover.Drains b items left) ∧
    ∀ items left, Leftover.Drains b items left → Leftover.split b = (items, left) := by
  refine ⟨fun v used item => ?_, fun e fault => ?_, ?_, fun items left run => ?_⟩
  · exact ⟨Cbor.used_pos item, (Cbor.decodePrefix_eq_some_iff.mp item).1,
      Cbor.decodePrefix_append_of_some item more,
      fun k short => Cbor.decodePrefix_take_of_lt item short⟩
  · exact Cbor.decodePrefix_append_of_error fault more
  · exact Leftover.exists_drains b
  · exact run.splitFrom_eq (Nat.lt_succ_self b.length) []

/-- A list of indefinite form is cut before its break, with a nested text of two segments. -/
theorem decodePrefix_settled_indefinite :
    decodePrefix [0x9f, 0x7f, 0x61, 0x61, 0x60, 0xff, 0xff, 0x01] =
        .ok (some (.array [.text "a"], 7)) ∧
      decodePrefix ([0x9f, 0x7f, 0x61, 0x61, 0x60, 0xff, 0xff, 0x01] ++ [0xff]) =
        .ok (some (.array [.text "a"], 7)) ∧
      decodePrefix [0x9f, 0x7f, 0x61, 0x61, 0x60, 0xff] = .ok none ∧
      decodePrefix [0x82, 0x1c] = .error .malformed ∧
      decodePrefix ([0x82, 0x1c] ++ [0x00, 0x00]) = .error .malformed := by
  have item : decodePrefix [0x9f, 0x7f, 0x61, 0x61, 0x60, 0xff, 0xff, 0x01] =
      .ok (some (.array [.text "a"], 7)) := rfl
  have fault : decodePrefix [0x82, 0x1c] = .error .malformed := rfl
  obtain ⟨-, -, later, before⟩ := (decodePrefix_settled _ [0xff]).1 _ _ item
  exact ⟨item, later, before 6 (by decide), fault,
    (decodePrefix_settled _ [0, 0]).2.1 _ fault⟩

end ChainRelay
