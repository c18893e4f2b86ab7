import ChainRelay.Proofs.Cbor.Prefix

/-! Items that lie in others. A reader with more levels left reads all that one with fewer
reads, and reads the same. So an item in a container is read as it would be by itself, and
the items of a container stand in its bytes one after the other. -/
namespace ChainRelay.Cbor

variable {α β : Type}

namespace Reader

structure Extends (r r' : Reader α) : Prop where
  done : ∀ {b rest v}, r b = .done v rest → r' b = .done v rest

namespace Extends

theorem refl (r : Reader α) : Extends r r := ⟨fun read => read⟩

theorem trans {r r' r'' : Reader α} (first : Extends r r') (second : Extends r' r'') :
    Extends r r'' := ⟨fun read => second.done (first.done read)⟩

theorem malformed (r : Reader α) : Extends Reader.malformed r := ⟨fun read => by cases read⟩

theorem bind {r r' : Reader α} {f f' : α → Reader β} (first : Extends r r')
    (second : ∀ v, Extends (f v) (f' v)) : Extends (r >>= f) (r' >>= f') where
  done read := by
    obtain ⟨v, later, one, two⟩ := bind_eq_done.mp read
    exact bind_eq_done.mpr ⟨v, later, first.done one, (second v).done two⟩

variable {item item' : Reader α} (wider : Extends item item')
include wider

theorem countFrom (n : Nat) (read : List α) :
    Extends (Reader.countFrom item n read) (Reader.countFrom item' n read) := by
  induction n generalizing read with
  | zero => exact refl _
  | succ n ih =>
    rw [countFrom_succ, countFrom_succ]
    exact wider.bind fun v => ih (v :: read)

theorem untilStopFrom (n : Nat) (read : List α) :
    Extends (Reader.untilStopFrom item n read) (Reader.untilStopFrom item' n read) := by
  induction n generalizing read with
  | zero => exact refl _
  | succ n ih =>
    constructor
    intro b rest vs done
    by_cases stop : b.head? = some 0xff
    · obtain ⟨later, rfl⟩ := List.head?_eq_some_iff.mp stop
      exact done
    · rw [untilStopFrom_succ _ _ _ stop] at done ⊢
      exact (wider.bind fun v => ih (v :: read)).done done

theorem items (fuel : Nat) (length : Option Nat) :
    Extends (Reader.items fuel item length) (Reader.items fuel item' length) := by
  cases length with
  | none => exact wider.untilStopFrom fuel []
  | some n => exact wider.countFrom n []

theorem pair : Extends (Reader.pair item) (Reader.pair item') :=
  wider.bind fun _ => wider.bind fun _ => refl _

end Extends

inductive Row (item : Reader α) : Bytes → List α → Bytes → Prop
  | nil {b : Bytes} : Row item b [] b
  | cons {b later rest : Bytes} {v : α} {vs : List α} (first : item b = .done v later)
      (others : Row item later vs rest) : Row item b (v :: vs) rest

theorem row_of_countFrom {item : Reader α} {n : Nat} {read vs : List α} {b rest : Bytes}
    (done : countFrom item n read b = .done vs rest) :
    ∃ new, vs = read.reverse ++ new ∧ Row item b new rest := by
  induction n generalizing read b with
  | zero =>
    cases done
    exact ⟨[], (List.append_nil _).symm, .nil⟩
  | succ n ih =>
    rw [countFrom_succ] at done
    obtain ⟨v, later, one, two⟩ := bind_eq_done.mp done
    obtain ⟨new, rfl, row⟩ := ih two
    exact ⟨v :: new, by simp, .cons one row⟩

theorem row_of_untilStopFrom {item : Reader α} {n : Nat} {read vs : List α} {b rest : Bytes}
    (done : untilStopFrom item n read b = .done vs rest) :
    ∃ new, vs = read.reverse ++ new ∧ Row item b new (0xff :: rest) := by
  induction n generalizing read b with
  | zero => cases done
  | succ n ih =>
    by_cases stop : b.head? = some 0xff
    · obtain ⟨later, rfl⟩ := List.head?_eq_some_iff.mp stop
      rw [untilStopFrom_stop] at done
      cases done
      exact ⟨[], (List.append_nil _).symm, .nil⟩
    · rw [untilStopFrom_succ _ _ _ stop] at done
      obtain ⟨v, later, one, two⟩ := bind_eq_done.mp done
      obtain ⟨new, rfl, row⟩ := ih two
      exact ⟨v :: new, by simp, .cons one row⟩

theorem row_of_items {item : Reader α} {fuel : Nat} {length : Option Nat} {vs : List α}
    {b rest : Bytes} (done : items fuel item length b = .done vs rest) :
    ∃ behind, Row item b vs behind := by
  cases length with
  | none =>
    obtain ⟨new, rfl, row⟩ := row_of_untilStopFrom done
    exact ⟨_, row⟩
  | some n =>
    obtain ⟨new, rfl, row⟩ := row_of_countFrom done
    exact ⟨_, row⟩

end Reader

theorem Head.suffix_of_read {b rest : Bytes} {h : Head} (done : Head.read b = .done h rest) :
    rest <:+ b :=
  Reader.Steady.head.suffix (n := 0) done

namespace Value
open Reader (Extends)

theorem ofHead_extends {nested nested' : Option (Head → Reader Value)} (fuel : Nat)
    (wider : ∀ inner, nested = some inner →
      ∃ inner', nested' = some inner' ∧ ∀ h, Extends (inner h) (inner' h)) (h : Head) :
    Extends (ofHead fuel nested h) (ofHead fuel nested' h) := by
  have tagged : ∀ number h,
      Extends (ofHead.tagged nested number h) (ofHead.tagged nested' number h) := by
    intro number h
    cases nested with
    | none => exact .malformed _
    | some inner =>
      obtain ⟨inner', rfl, more⟩ := wider inner rfl
      exact (more h).bind fun _ => .refl _
  cases h with
  | bytes length | text length => cases length <;> exact .refl _
  | array length =>
    cases nested with
    | none => exact .malformed _
    | some inner =>
      obtain ⟨inner', rfl, more⟩ := wider inner rfl
      have item : Extends (Head.read >>= inner) (Head.read >>= inner') := (Extends.refl _).bind more
      exact (item.items fuel length).bind fun _ => .refl _
  | map length =>
    cases nested with
    | none => exact .malformed _
    | some inner =>
      obtain ⟨inner', rfl, more⟩ := wider inner rfl
      have item : Extends (Head.read >>= inner) (Head.read >>= inner') := (Extends.refl _).bind more
      exact (item.pair.items fuel length).bind fun _ => .refl _
  | tag number =>
    refine (Extends.refl Head.read).bind fun h => ?_
    split
    · split
      · exact .refl _
      · exact tagged number _
    · exact tagged number _
  | _ => exact .refl _

theorem readAt_succ_extends (fuel depth : Nat) (h : Head) :
    Extends (readAt fuel depth h) (readAt fuel (depth + 1) h) := by
  induction depth generalizing h with
  | zero => exact ofHead_extends fuel (fun _ none => by cases none) h
  | succ depth ih =>
    refine ofHead_extends fuel (fun inner same => ?_) h
    cases same
    exact ⟨_, rfl, ih⟩

theorem readAt_extends {depth depth' : Nat} (fuel : Nat) (le : depth ≤ depth') (h : Head) :
    Extends (readAt fuel depth h) (readAt fuel depth' h) := by
  induction le with
  | refl => exact .refl _
  | step _ ih => exact ih.trans (readAt_succ_extends fuel _ h)

theorem read_of_inner {fuel depth : Nat} {b rest : Bytes} {v : Value} (shallow : depth ≤ maxDepth)
    (enough : b.length < fuel) (inner : (Head.read >>= readAt fuel depth) b = .done v rest) :
    read b = .done v rest := by
  have kept : Outcome.Grows _ [] _ := (steady_item (steady_readAt depth)).grows enough
    (m := b.length + 1) (by rw [List.append_nil]; exact Nat.lt_succ_self _)
  rw [inner, List.append_nil] at kept
  have alone : (Head.read >>= readAt (b.length + 1) depth) b = .done v rest := by
    rw [show rest = rest ++ [] from (List.append_nil rest).symm]
    exact kept
  exact ((Extends.refl Head.read).bind (readAt_extends _ shallow)).done alone

theorem row_of_array {fuel depth : Nat} {length : Option Nat} {b rest : Bytes} {items : List Value}
    (done : readAt fuel (depth + 1) (.array length) b = .done (array items) rest) :
    ∃ behind, Reader.Row (Head.read >>= readAt fuel depth) b items behind := by
  obtain ⟨vs, later, read, same⟩ := Reader.bind_eq_done.mp done
  cases same
  exact Reader.row_of_items read

end Value
end ChainRelay.Cbor
