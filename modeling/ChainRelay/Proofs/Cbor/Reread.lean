import ChainRelay.Proofs.Cbor.Parts
import Mathlib.Data.List.DropRight

/-! What is read where an item was written. The maps of the item are in order, short byte
strings under the tags 2 and 3 have become numbers, and what is too deep or too large is
refused. What has been read in this way stays as it is from then on. -/
namespace ChainRelay.Cbor

variable {α β : Type}

/-! ### Readers that never wait -/

def Outcome.ofOption (o : Option α) (rest : Bytes) : Outcome α :=
  match o with
  | some v => .done v rest
  | none => .malformed

def Outcome.value? : Outcome α → Option α
  | .done v _ => some v
  | _ => none

theorem mapM_eq_some {f : α → Option β} {g : α → β} {xs : List α}
    (each : ∀ x ∈ xs, f x = some (g x)) : xs.mapM f = some (xs.map g) := by
  induction xs with
  | nil => rfl
  | cons x xs ih =>
    rw [List.mapM_cons, each x (by simp), ih fun x member => each x (by simp [member])]
    rfl

theorem mem_of_mapM_eq_some {f : α → Option β} {xs : List α} {ys : List β}
    (made : xs.mapM f = some ys) :
    ys.length = xs.length ∧ ∀ y ∈ ys, ∃ x ∈ xs, f x = some y := by
  induction xs generalizing ys with
  | nil =>
    cases made
    exact ⟨rfl, List.forall_mem_nil _⟩
  | cons x xs ih =>
    rw [List.mapM_cons] at made
    obtain ⟨y, first, rest⟩ := Option.bind_eq_some_iff.mp made
    obtain ⟨later, others, same⟩ := Option.bind_eq_some_iff.mp rest
    cases same
    obtain ⟨sizes, each⟩ := ih others
    refine ⟨congrArg (· + 1) sizes, List.forall_mem_cons.mpr ⟨⟨x, by simp, first⟩, ?_⟩⟩
    intro y member
    obtain ⟨x, inside, same⟩ := each y member
    exact ⟨x, List.mem_cons_of_mem _ inside, same⟩

namespace Reader

theorem bind_of_option {r : Reader α} {f : α → Reader β} {g : α → Option β} {o : Option α}
    {b later rest : Bytes} (first : r b = .ofOption o later)
    (second : ∀ v, f v later = .ofOption (g v) rest) : (r >>= f) b = .ofOption (o.bind g) rest := by
  change (r b).bind f = _
  rw [first]
  cases o with
  | none => rfl
  | some v => exact second v

theorem countFrom_option {item : Reader β} {written : α → Bytes} {value : α → Option β}
    {xs : List α}
    (each : ∀ x ∈ xs, ∀ rest, item (written x ++ rest) = .ofOption (value x) rest)
    (read : List β) (rest : Bytes) :
    countFrom item xs.length read (xs.flatMap written ++ rest) =
      .ofOption ((xs.mapM value).map (read.reverse ++ ·)) rest := by
  induction xs generalizing read with
  | nil =>
    rw [List.mapM_nil]
    simp [countFrom, Outcome.ofOption]
  | cons x xs ih =>
    have first := each x (by simp) (xs.flatMap written ++ rest)
    have later := ih fun x member => each x (by simp [member])
    rw [List.length_cons, countFrom_succ, List.flatMap_cons, List.append_assoc,
      bind_of_option first fun v => later (v :: read), List.mapM_cons]
    cases value x with
    | none => rfl
    | some v => cases xs.mapM value <;> simp

theorem items_option {item : Reader β} {written : α → Bytes} {value : α → Option β} {xs : List α}
    (each : ∀ x ∈ xs, ∀ rest, item (written x ++ rest) = .ofOption (value x) rest)
    (fuel : Nat) (rest : Bytes) :
    items fuel item (some xs.length) (xs.flatMap written ++ rest) =
      .ofOption (xs.mapM value) rest := by
  have same : (xs.mapM value).map (([] : List β).reverse ++ ·) = xs.mapM value := Option.map_id'
  exact (countFrom_option each [] rest).trans (congrArg (Outcome.ofOption · rest) same)

end Reader

namespace Value

/-! ### Numbers under a tag -/

def IsBig (number : UInt64) (inner : Value) : Prop :=
  isBigTag number = true ∧ ∃ b, inner = bytes b ∧ b.length ≤ maxBigLength

def short? (number : UInt64) : Value → Option Bytes
  | bytes c => if isBigTag number ∧ c.length ≤ maxBigLength then some c else none
  | _ => none

def big? (isNegative : Bool) (content : Bytes) : Option Value :=
  (ofBig isNegative content []).value?

/-- Too large for one head, without leading zeros, and not too large to be read. -/
structure IsLarge (number : UInt64) (c : Bytes) : Prop where
  beyond : UInt64.size ≤ c.toNat
  trimmed : dropZeros c = c
  held : number = 3 → c.toNat < 1 <<< 127

theorem ofBig_eq (isNegative : Bool) (content rest : Bytes) :
    ofBig isNegative content rest = .ofOption (big? isNegative content) rest := by
  simp only [big?, ofBig]
  split
  · rfl
  · split <;> rfl

theorem short?_eq_some {number : UInt64} {v : Value} {c : Bytes} :
    short? number v = some c ↔ isBigTag number = true ∧ v = bytes c ∧ c.length ≤ maxBigLength := by
  cases v with
  | bytes b =>
    simp only [short?, Option.ite_none_right_eq_some, Option.some.injEq, bytes.injEq]
    constructor
    · rintro ⟨⟨big, small⟩, rfl⟩
      exact ⟨big, rfl, small⟩
    · rintro ⟨big, rfl, small⟩
      exact ⟨⟨big, small⟩, rfl⟩
  | _ => simp [short?]

theorem eq_of_isBigTag {number : UInt64} (big : isBigTag number = true) :
    (if decide (number = 3) = true then 3 else 2) = number := by
  rcases (by simpa [isBigTag] using big : number = 2 ∨ number = 3) with rfl | rfl <;> rfl

theorem toNat_dropZeros (c : Bytes) : (dropZeros c).toNat = c.toNat := by
  induction c with
  | nil => rfl
  | cons d c ih =>
    unfold dropZeros at ih ⊢
    by_cases zero : d = 0
    · rw [List.dropWhile_cons_of_pos (by simpa using zero), ih, Bytes.toNat_cons, zero]
      simp
    · rw [List.dropWhile_cons_of_neg (by simpa using zero)]

theorem big?_of_isLarge {number : UInt64} {c : Bytes} (big : isBigTag number = true)
    (large : IsLarge number c) : big? (number = 3) c = some (tag number (bytes c)) := by
  have beyond := Nat.not_lt.mpr large.beyond
  have held : ¬ (decide (number = 3) && decide (1 <<< 127 ≤ c.toNat)) = true := by
    rw [Bool.and_eq_true, decide_eq_true_iff, decide_eq_true_iff]
    rintro ⟨negative, above⟩
    exact Nat.not_lt.mpr above (large.held negative)
  have read : ofBig (number = 3) c [] = .done (tag number (bytes c)) [] := by
    rw [ofBig, if_neg beyond, if_neg held, eq_of_isBigTag big, large.trimmed]
    rfl
  rw [big?, read]
  rfl

theorem big?_cases {number : UInt64} {c : Bytes} {v : Value} (big : isBigTag number = true)
    (made : big? (number = 3) c = some v) :
    (∃ n, v = unsigned n) ∨ (∃ n, v = negative n) ∨
      ∃ c', v = tag number (bytes c') ∧ IsLarge number c' ∧ c'.length ≤ c.length := by
  simp only [big?, ofBig] at made
  split at made
  · cases made
    split
    · exact .inr (.inl ⟨_, rfl⟩)
    · exact .inl ⟨_, rfl⟩
  · rename_i beyond
    split at made
    · cases made
    · rename_i held
      rw [eq_of_isBigTag big] at made
      cases made
      have shorter := (List.dropWhile_suffix (l := c) (· = 0)).length_le
      refine .inr (.inr ⟨dropZeros c, rfl, ⟨?_, ?_, fun negative => ?_⟩, shorter⟩)
      · rw [toNat_dropZeros]
        exact Nat.not_lt.mp beyond
      · exact List.dropWhile_idempotent _ c
      · rw [toNat_dropZeros]
        by_contra above
        refine held ?_
        rw [Bool.and_eq_true, decide_eq_true_iff, decide_eq_true_iff]
        exact ⟨negative, Nat.not_lt.mp above⟩

/-! ### Items -/

/-- The item that is read where an item was written, if it may open this many levels. -/
def reread : Nat → Value → Option Value
  | d + 1, array items => (items.mapM (reread d)).map array
  | d + 1, map entries =>
    ((inOrder entries).mapM fun e =>
      (reread d e.1).bind fun key => (reread d e.2).map fun value => (key, value)).map map
  | d + 1, tag number inner =>
    match short? number inner with
    | some c => big? (number = 3) c
    | none => (reread d inner).map (tag number)
  | 0, tag number inner => (short? number inner).bind (big? (number = 3))
  | 0, array _ | 0, map _ => none
  | _, v => some v

theorem reread_tag_of_short {d : Nat} {number : UInt64} {inner : Value} {c : Bytes}
    (short : short? number inner = some c) :
    reread d (tag number inner) = big? (number = 3) c := by
  cases d with
  | zero => rw [reread, short, Option.bind_some]
  | succ d => simp only [reread, short]

section
variable {fuel : Nat} {nested : Option (Head → Reader Value)} {number : UInt64} {inner : Value}
  (counted : inner.Counted)
include counted

theorem ofHead_tag_of_short {c : Bytes} (short : short? number inner = some c) (rest : Bytes) :
    ofHead fuel nested (.tag number) (write inner ++ rest) =
      .ofOption (big? (number = 3) c) rest := by
  obtain ⟨big, rfl, small⟩ := short?_eq_some.mp short
  have read := read_head_write counted.announced rest
  rw [ofHead, Reader.bind_of_done read, big]
  simp only [top, if_pos small]
  exact (Reader.bind_of_done (Reader.take_append c rest)).trans (ofBig_eq _ _ _)

theorem ofHead_tag_of_none (long : short? number inner = none) (rest : Bytes) :
    ofHead fuel nested (.tag number) (write inner ++ rest) =
      ofHead.tagged nested number inner.top (inner.content ++ rest) := by
  have read := read_head_write counted.announced rest
  rw [ofHead, Reader.bind_of_done read]
  by_cases big : isBigTag number = true
  · rw [big]
    cases inner with
    | bytes c =>
      have above : ¬ c.length ≤ maxBigLength := fun small => by simp [short?, big, small] at long
      simp only [top, if_neg above]
    | _ => rfl
  · rw [Bool.eq_false_iff.mpr big]

end

theorem readAt_content {d fuel : Nat} {v : Value} (counted : v.Counted) (rest : Bytes) :
    readAt fuel d v.top (v.content ++ rest) = .ofOption (reread d v) rest := by
  -- the levels that are left are the recursion of the reader
  induction d generalizing v rest with
  | zero =>
    cases v with
    | tag number inner =>
      cases short : short? number inner with
      | some c =>
        rw [reread_tag_of_short short]
        exact ofHead_tag_of_short counted.inner short rest
      | none =>
        rw [reread, short]
        exact ofHead_tag_of_none counted.inner short rest
    | bytes b => exact Reader.bind_of_done (Reader.take_append b rest)
    | text s => exact Reader.bind_of_done (Reader.utf8_append s rest)
    | bool b => cases b <;> rfl
    | _ => rfl
  | succ d ih =>
    have item : ∀ {v : Value}, v.Counted → ∀ rest,
        (Head.read >>= readAt fuel d) (write v ++ rest) = .ofOption (reread d v) rest := by
      intro v counted rest
      rw [Reader.bind_of_done (read_head_write counted.announced rest), ih counted]
    cases v with
    | array items =>
      have read := Reader.items_option (fun v member => item (counted.item member)) fuel rest
      rw [reread, Option.map_eq_bind]
      exact Reader.bind_of_option read fun _ => rfl
    | map entries =>
      have pair : ∀ e ∈ inOrder entries, ∀ rest,
          Reader.pair (Head.read >>= readAt fuel d) ((write e.1 ++ write e.2) ++ rest) =
            .ofOption ((reread d e.1).bind fun key =>
              (reread d e.2).map fun value => (key, value)) rest := by
        intro e member rest
        obtain ⟨key, value⟩ := counted.entry (mem_inOrder.mp member)
        rw [List.append_assoc]
        refine Reader.bind_of_option (item key _) fun k => ?_
        rw [Option.map_eq_bind]
        exact Reader.bind_of_option (item value _) fun _ => rfl
      have read := Reader.items_option pair fuel rest
      rw [length_inOrder] at read
      rw [reread, Option.map_eq_bind]
      exact Reader.bind_of_option read fun _ => rfl
    | tag number inner =>
      cases short : short? number inner with
      | some c =>
        rw [reread_tag_of_short short]
        exact ofHead_tag_of_short counted.inner short rest
      | none =>
        simp only [reread, short, Option.map_eq_bind]
        refine (ofHead_tag_of_none counted.inner short rest).trans ?_
        exact Reader.bind_of_option (ih counted.inner rest) fun _ => rfl
    | bytes b => exact Reader.bind_of_done (Reader.take_append b rest)
    | text s => exact Reader.bind_of_done (Reader.utf8_append s rest)
    | bool b => cases b <;> rfl
    | _ => rfl

theorem read_write {v : Value} (counted : v.Counted) (rest : Bytes) :
    read (v.write ++ rest) = .ofOption (reread maxDepth v) rest := by
  rw [read, Reader.bind_of_done (read_head_write counted.announced rest), readAt_content counted]

end Value

theorem decode_write_eq_ok {v w : Value} (counted : v.Counted) :
    decode v.write = .ok w ↔ v.reread maxDepth = some w := by
  have read := Value.read_write counted []
  rw [List.append_nil] at read
  rw [decode, read]
  cases v.reread maxDepth <;> simp [Outcome.ofOption]

end ChainRelay.Cbor
