import ChainRelay.Proofs.Cbor.Steady

/-! The first item of an input does not depend on what follows it. So an item is told
from its own bytes, each proper front of it is incomplete and not malformed, and what
is malformed stays so. -/
namespace ChainRelay.Cbor

variable {α : Type}

def total (cost : α → Nat) : List α → Nat
  | [] => 0
  | v :: vs => cost v + total cost vs

theorem total_append (cost : α → Nat) (us vs : List α) :
    total cost (us ++ vs) = total cost us + total cost vs := by
  induction us with
  | nil => simp [total]
  | cons u us ih =>
    rw [List.cons_append, total, total, ih]
    omega

theorem total_reverse (cost : α → Nat) (vs : List α) : total cost vs.reverse = total cost vs := by
  induction vs with
  | nil => rfl
  | cons v vs ih =>
    rw [List.reverse_cons, total_append, ih, total, total, total]
    omega

namespace Value

mutual

/-- The least number of bytes from which the value can be read. -/
def weight : Value → Nat
  | bytes b => 1 + b.length
  | text s => 1 + (Bytes.ofText s).length
  | array items => 1 + weightAll items
  | map entries => 1 + weightEntries entries
  | tag _ inner => 1 + weight inner
  | _ => 1

def weightAll : List Value → Nat
  | [] => 0
  | v :: vs => weight v + weightAll vs

def weightEntries : List (Value × Value) → Nat
  | [] => 0
  | (k, v) :: es => weight k + weight v + weightEntries es

end

theorem weightAll_eq_total (vs : List Value) : weightAll vs = total weight vs := by
  induction vs with
  | nil => rfl
  | cons v vs ih => rw [weightAll, total, ih]

theorem weightEntries_eq_total (es : List (Value × Value)) :
    weightEntries es = total (fun e => weight e.1 + weight e.2) es := by
  induction es with
  | nil => rfl
  | cons e es ih => rw [weightEntries, total, ih]

theorem weight_pos (v : Value) : 0 < v.weight := by
  cases v <;> simp only [weight] <;> omega

end Value

variable {cost : α → Nat}

namespace Reader

theorem countFrom_succ (item : Reader α) (n : Nat) (read : List α) :
    countFrom item (n + 1) read = item >>= fun v => countFrom item n (v :: read) := by
  funext b
  change countFrom item (n + 1) read b = (item b).bind fun v => countFrom item n (v :: read)
  simp only [countFrom]
  cases item b <;> rfl

theorem untilStopFrom_stop (item : Reader α) (n : Nat) (read : List α) (rest : Bytes) :
    untilStopFrom item (n + 1) read (0xff :: rest) = .done read.reverse rest := rfl

theorem untilStopFrom_succ (item : Reader α) (n : Nat) (read : List α) {b : Bytes}
    (goes : b.head? ≠ some 0xff) : untilStopFrom item (n + 1) read b =
      (item b).bind fun v => untilStopFrom item n (v :: read) := by
  simp only [untilStopFrom]
  split
  · simp at goes
  · cases item b <;> rfl

namespace Steady

theorem countFrom {item : Nat → Reader α} (steady : Steady cost item) (n : Nat) (read : List α) :
    Steady (fun vs => total cost vs - total cost read)
      fun fuel => Reader.countFrom (item fuel) n read := by
  induction n generalizing read with
  | zero => exact pure (by rw [total_reverse, Nat.sub_self])
  | succ n ih =>
    simp only [countFrom_succ]
    refine steady.bind (fun v => ih (v :: read)) fun v vs => ?_
    rw [total]
    omega

section
variable {item : Nat → Reader α} (steady : Steady cost item) (eats : ∀ v, 0 < cost v)
  (empty : ∀ n, item n [] = .incomplete)
include steady

theorem untilStopFrom_suffix {N n : Nat} {read vs : List α} {b rest : Bytes}
    (done : Reader.untilStopFrom (item N) n read b = .done vs rest) :
    rest <:+ b ∧ rest.length + total cost vs ≤ b.length + total cost read := by
  induction n generalizing read b with
  | zero => cases done
  | succ n ih =>
    by_cases stop : b.head? = some 0xff
    · obtain ⟨later, rfl⟩ := List.head?_eq_some_iff.mp stop
      rw [untilStopFrom_stop] at done
      cases done
      refine ⟨List.suffix_cons _ _, ?_⟩
      rw [total_reverse, List.length_cons]
      omega
    · rw [untilStopFrom_succ _ _ _ stop] at done
      obtain ⟨v, later, one, two⟩ := bind_eq_done.mp done
      have front := steady.pays one
      obtain ⟨suffix, sum⟩ := ih two
      rw [total] at sum
      exact ⟨suffix.trans (steady.suffix one), by omega⟩

theorem untilStopFrom_shorter {N n : Nat} {read vs : List α} {b rest : Bytes}
    (done : Reader.untilStopFrom (item N) n read b = .done vs rest) : rest.length < b.length := by
  induction n generalizing read b with
  | zero => cases done
  | succ n ih =>
    by_cases stop : b.head? = some 0xff
    · obtain ⟨later, rfl⟩ := List.head?_eq_some_iff.mp stop
      rw [untilStopFrom_stop] at done
      cases done
      exact Nat.lt_succ_self _
    · rw [untilStopFrom_succ _ _ _ stop] at done
      obtain ⟨v, later, one, two⟩ := bind_eq_done.mp done
      exact Nat.lt_of_lt_of_le (ih two) (steady.suffix one).length_le

include eats empty

theorem untilStopFrom_grows {N M n m : Nat} {read : List α} {b more : Bytes}
    (fuel : b.length < N) (fuel' : (b ++ more).length < M) (rounds : b.length < n)
    (rounds' : (b ++ more).length < m) :
    (Reader.untilStopFrom (item N) n read b).Grows more
      (Reader.untilStopFrom (item M) m read (b ++ more)) := by
  -- the induction is on the fuel of the loop; the items keep theirs
  induction n generalizing m read b with
  | zero => omega
  | succ n ih =>
    obtain ⟨m, rfl⟩ : ∃ k, m = k + 1 := ⟨m - 1, by omega⟩
    cases b with
    | nil =>
      rw [untilStopFrom_succ _ _ _ (by simp), empty]
      exact fun vs rest done => untilStopFrom_shorter steady done
    | cons x b =>
      by_cases stop : x = 0xff
      · rw [stop, List.cons_append, untilStopFrom_stop, untilStopFrom_stop]
        rfl
      · rw [untilStopFrom_succ _ _ _ (by simpa using stop),
          untilStopFrom_succ _ _ _ (by simpa using stop)]
        have kept := steady.grows fuel fuel'
        cases one : item N (x :: b) with
        | incomplete =>
          intro vs rest done
          rw [one] at kept
          obtain ⟨v, later, first, two⟩ := bind_eq_done.mp done
          have behind := (untilStopFrom_suffix steady two).1.length_le
          exact Nat.lt_of_le_of_lt behind (kept v later first)
        | malformed =>
          rw [one] at kept
          rw [kept]
          rfl
        | done v later =>
          rw [one] at kept
          rw [kept]
          have paid := steady.pays one
          have price := eats v
          rw [List.length_append] at fuel' rounds'
          exact ih (by omega) (by rw [List.length_append]; omega) (by omega)
            (by rw [List.length_append]; omega)

theorem untilStop : Steady (fun vs => total cost vs) fun n => Reader.untilStop (item n) n where
  suffix done := (untilStopFrom_suffix steady done).1
  pays done := (untilStopFrom_suffix steady done).2
  grows fuel fuel' := untilStopFrom_grows steady eats empty fuel fuel' fuel fuel'

theorem items (length : Option Nat) :
    Steady (fun vs => total cost vs) fun n => Reader.items n (item n) length := by
  cases length with
  | none => exact untilStop steady eats empty
  | some n => exact (countFrom steady n []).mono fun _ => Nat.le_refl _

end

theorem pair {item : Nat → Reader α} (steady : Steady cost item) :
    Steady (fun p => cost p.1 + cost p.2) fun n => Reader.pair (item n) := by
  have second : ∀ k, Steady (fun p => cost p.1 + cost p.2 - cost k)
      fun n => item n >>= fun v => (Pure.pure (k, v) : Reader (α × α)) :=
    fun k => steady.map fun v => Nat.le_of_eq (Nat.add_sub_cancel_left _ _)
  exact steady.bind second fun k p => by omega

end Steady

section
variable (segment : Nat → Reader α) (own : Head → Option (Option Nat))

theorem segments_stop {n still : Nat} {read : List α} {b rest : Bytes}
    (head : Head.read b = .done .stop rest) : segments segment own (n + 1) still read b =
      match still with
      | 0 => .done read.reverse rest
      | still + 1 => segments segment own n still read rest := by
  cases still <;> simp only [segments, head]

theorem segments_head {n still : Nat} {read : List α} {b rest : Bytes} {h : Head}
    (head : Head.read b = .done h rest) (goes : h ≠ .stop) :
    segments segment own (n + 1) still read b =
      match own h with
      | some none => segments segment own n (still + 1) read rest
      | some (some k) =>
        (segment k rest).bind fun part => segments segment own n still (part :: read)
      | none => .malformed := by
  generalize found : own h = announced
  simp only [segments, head]
  cases h with
  | stop => contradiction
  | _ =>
    simp only [found]
    rcases announced with _ | _ | k
    · rfl
    · rfl
    · cases segment k rest <;> rfl

end

namespace Steady

section
variable {segment : Nat → Reader α} (steady : ∀ k, Steady cost fun _ => segment k)
  (own : Head → Option (Option Nat))
include steady

theorem segments_suffix {n still : Nat} {read parts : List α} {b rest : Bytes}
    (done : Reader.segments segment own n still read b = .done parts rest) :
    rest <:+ b ∧ rest.length + total cost parts ≤ b.length + total cost read := by
  induction n generalizing still read b with
  | zero => cases done
  | succ n ih =>
    cases first : Head.read b with
    | incomplete => simp [Reader.segments, first] at done
    | malformed => simp [Reader.segments, first] at done
    | done h later =>
      have behind := head.suffix (n := 0) first
      have paid := head.pays (n := 0) first
      by_cases stop : h = .stop
      · rw [segments_stop segment own (stop ▸ first)] at done
        cases still with
        | zero =>
          cases done
          refine ⟨behind, ?_⟩
          rw [total_reverse]
          omega
        | succ still =>
          obtain ⟨suffix, sum⟩ := ih done
          exact ⟨suffix.trans behind, by omega⟩
      · rw [segments_head segment own first stop] at done
        split at done
        · obtain ⟨suffix, sum⟩ := ih done
          exact ⟨suffix.trans behind, by omega⟩
        · rename_i k _
          obtain ⟨part, after, one, two⟩ := bind_eq_done.mp done
          have middle := (steady k).suffix (n := 0) one
          have price := (steady k).pays (n := 0) one
          obtain ⟨suffix, sum⟩ := ih two
          rw [total] at sum
          exact ⟨(suffix.trans middle).trans behind, by omega⟩
        · contradiction

theorem segments_behind {n still : Nat} {read parts : List α} {b rest later : Bytes} {h : Head}
    (first : Head.read b = .done h later)
    (done : Reader.segments segment own n still read b = .done parts rest) : rest <:+ later := by
  cases n with
  | zero => cases done
  | succ n =>
    by_cases stop : h = .stop
    · rw [segments_stop segment own (stop ▸ first)] at done
      cases still with
      | zero =>
        cases done
        exact List.suffix_rfl
      | succ still => exact (segments_suffix steady own done).1
    · rw [segments_head segment own first stop] at done
      split at done
      · exact (segments_suffix steady own done).1
      · rename_i k _
        obtain ⟨part, after, one, two⟩ := bind_eq_done.mp done
        have middle := (steady k).suffix (n := 0) one
        exact (segments_suffix steady own two).1.trans middle
      · contradiction

theorem segments_grows {n m still : Nat} {read : List α} {b more : Bytes}
    (rounds : b.length < n) (rounds' : (b ++ more).length < m) :
    (Reader.segments segment own n still read b).Grows more
      (Reader.segments segment own m still read (b ++ more)) := by
  induction n generalizing m still read b with
  | zero => omega
  | succ n ih =>
    obtain ⟨m, rfl⟩ : ∃ k, m = k + 1 := ⟨m - 1, by omega⟩
    have kept := head.grows rounds rounds'
    cases first : Head.read b with
    | incomplete =>
      have waits : Reader.segments segment own (n + 1) still read b = .incomplete := by
        simp only [Reader.segments, first]
      rw [waits]
      intro parts rest done
      rw [first] at kept
      cases again : Head.read (b ++ more) with
      | incomplete => simp [Reader.segments, again] at done
      | malformed => simp [Reader.segments, again] at done
      | done h later =>
        have behind := (segments_behind steady own again done).length_le
        exact Nat.lt_of_le_of_lt behind (kept h later again)
    | malformed =>
      rw [first] at kept
      have again : Head.read (b ++ more) = .malformed := kept
      simp only [Reader.segments, first, again]
      rfl
    | done h later =>
      rw [first] at kept
      have again : Head.read (b ++ more) = .done h (later ++ more) := kept
      have paid := head.pays (n := 0) first
      rw [List.length_append] at rounds'
      have left : later.length < n := by omega
      have left' : (later ++ more).length < m := by
        rw [List.length_append]
        omega
      by_cases stop : h = .stop
      · rw [segments_stop segment own (stop ▸ first), segments_stop segment own (stop ▸ again)]
        cases still with
        | zero => rfl
        | succ still => exact ih left left'
      · rw [segments_head segment own first stop, segments_head segment own again stop]
        split
        · exact ih left left'
        · rename_i k _
          have part := (steady k).grows left left'
          cases one : segment k later with
          | incomplete =>
            intro parts rest done
            rw [one] at part
            obtain ⟨v, after, two, others⟩ := bind_eq_done.mp done
            have behind := (segments_suffix steady own others).1.length_le
            exact Nat.lt_of_le_of_lt behind (part v after two)
          | malformed =>
            rw [one] at part
            rw [part]
            rfl
          | done v after =>
            rw [one] at part
            rw [part]
            have shorter := ((steady k).suffix (n := 0) one).length_le
            rw [List.length_append] at left'
            exact ih (by omega) (by rw [List.length_append]; omega)
        · rfl

theorem segments : Steady (fun parts => total cost parts)
    fun n => Reader.segments segment own n 0 [] where
  suffix done := (segments_suffix steady own done).1
  pays done := (segments_suffix steady own done).2
  grows := segments_grows steady own

end

end Steady
end Reader

namespace Value
open Reader (Steady)

def restWeight (v : Value) : Nat := v.weight - 1

theorem steady_item {inner : Nat → Head → Reader Value}
    (steady : ∀ h, Steady restWeight fun n => inner n h) :
    Steady weight fun n => Head.read >>= inner n :=
  Steady.head.bind steady fun _ v => by
    have positive := v.weight_pos
    simp only [restWeight]
    omega

theorem total_length (parts : List Bytes) : total List.length parts = parts.flatten.length := by
  induction parts with
  | nil => rfl
  | cons b parts ih => rw [total, ih, List.flatten_cons, List.length_append]

theorem total_length_ofText (parts : List String) :
    total (fun s => (Bytes.ofText s).length) parts = (Bytes.ofText (String.join parts)).length := by
  induction parts with
  | nil => rfl
  | cons s parts ih => rw [total, ih, String.join_cons, Bytes.ofText_append, List.length_append]

theorem steady_ofSimple (number : UInt8) : Steady restWeight fun _ => ofSimple number := by
  unfold ofSimple
  repeat' split
  · exact Steady.pure rfl
  · exact Steady.pure rfl
  · exact Steady.pure rfl
  · exact Steady.malformed

theorem steady_ofBig (isNegative : Bool) (content : Bytes) :
    Steady (fun v => v.restWeight - (1 + content.length)) fun _ => ofBig isNegative content := by
  unfold ofBig
  dsimp only
  split
  · split <;> exact Steady.pure (by simp [restWeight, weight])
  · split
    · exact Steady.malformed
    · refine Steady.pure ?_
      have shorter := (List.dropWhile_suffix (l := content) (· = 0)).length_le
      simp only [restWeight, weight, dropZeros]
      omega

section
variable {nested : Nat → Option (Head → Reader Value)}
  (deeper : (∀ n, nested n = none) ∨ ∃ inner : Nat → Head → Reader Value,
    (∀ n, nested n = some (inner n)) ∧ ∀ h, Steady restWeight fun n => inner n h)
include deeper

theorem steady_tagged (number : UInt64) (h : Head) :
    Steady (fun v => v.restWeight - 1) fun n => ofHead.tagged (nested n) number h := by
  simp only [ofHead.tagged]
  rcases deeper with none | ⟨inner, some, steady⟩
  · simp only [none]
    exact Steady.malformed
  · simp only [some]
    exact (steady h).map fun v => by simp [restWeight, weight]

theorem steady_ofHead (h : Head) : Steady restWeight fun n => ofHead n (nested n) h := by
  cases h with
  | unsigned n => exact Steady.pure rfl
  | negative n => exact Steady.pure rfl
  | bytes length =>
    cases length with
    | none =>
      refine (Steady.segments Steady.take _).map fun parts => ?_
      rw [total_length]
      simp [restWeight, weight]
    | some n => exact (Steady.take n).map fun part => by simp [restWeight, weight]
  | text length =>
    cases length with
    | none =>
      refine (Steady.segments Steady.utf8 _).map fun parts => ?_
      rw [total_length_ofText]
      simp [restWeight, weight]
    | some n => exact (Steady.utf8 n).map fun part => by simp [restWeight, weight]
  | array length =>
    simp only [ofHead]
    rcases deeper with none | ⟨inner, some, steady⟩
    · simp only [none]
      exact Steady.malformed
    · simp only [some]
      refine (Steady.items (steady_item steady) weight_pos (fun _ => rfl) length).map fun vs => ?_
      simp [restWeight, weight, weightAll_eq_total]
  | map length =>
    simp only [ofHead]
    rcases deeper with none | ⟨inner, some, steady⟩
    · simp only [none]
      exact Steady.malformed
    · simp only [some]
      refine (Steady.items (Steady.pair (steady_item steady)) (fun p => ?_) (fun _ => rfl)
        length).map fun es => ?_
      · have positive := p.1.weight_pos
        omega
      · simp [restWeight, weight, weightEntries_eq_total]
  | tag number =>
    refine Steady.head.bind (c := fun _ v => v.restWeight - 1) (fun h => ?_)
      fun _ v => by omega
    split
    · split
      · exact (Steady.take _).bind (steady_ofBig _) fun part v => by omega
      · exact steady_tagged deeper number _
    · exact steady_tagged deeper number _
  | simple number => exact steady_ofSimple number
  | float bits => exact Steady.pure rfl
  | stop => exact Steady.malformed

end

theorem steady_readAt (depth : Nat) (h : Head) : Steady restWeight fun n => readAt n depth h := by
  induction depth generalizing h with
  | zero => exact steady_ofHead (.inl fun _ => rfl) h
  | succ depth ih =>
    exact steady_ofHead (.inr ⟨fun n => readAt n depth, fun _ => rfl, ih⟩) h

theorem steady_readItem : Steady weight fun n => Head.read >>= readAt n maxDepth :=
  steady_item (steady_readAt maxDepth)

theorem read_append_of_done {b rest : Bytes} {v : Value} (done : read b = .done v rest)
    (more : Bytes) : read (b ++ more) = .done v (rest ++ more) := by
  have kept : Outcome.Grows _ more _ :=
    steady_readItem.grows (Nat.lt_succ_self b.length) (Nat.lt_succ_self (b ++ more).length)
  rw [read] at done
  rw [done] at kept
  exact kept

theorem read_append_of_malformed {b : Bytes} (malformed : read b = .malformed) (more : Bytes) :
    read (b ++ more) = .malformed := by
  have kept : Outcome.Grows _ more _ :=
    steady_readItem.grows (Nat.lt_succ_self b.length) (Nat.lt_succ_self (b ++ more).length)
  rw [read] at malformed
  rw [malformed] at kept
  exact kept

theorem length_lt_of_read {b more rest : Bytes} {v : Value} (waits : read b = .incomplete)
    (done : read (b ++ more) = .done v rest) : rest.length < more.length := by
  have kept : Outcome.Grows _ more _ :=
    steady_readItem.grows (Nat.lt_succ_self b.length) (Nat.lt_succ_self (b ++ more).length)
  rw [read] at waits
  rw [waits] at kept
  exact kept v rest done

theorem suffix_of_read {b rest : Bytes} {v : Value} (done : read b = .done v rest) : rest <:+ b :=
  steady_readItem.suffix done

theorem weight_le_of_read {b rest : Bytes} {v : Value} (done : read b = .done v rest) :
    rest.length + v.weight ≤ b.length :=
  steady_readItem.pays done

end Value

theorem decodePrefix_eq_some_iff {b : Bytes} {v : Value} {used : Nat} :
    decodePrefix b = .ok (some (v, used)) ↔
      used ≤ b.length ∧ Value.read b = .done v (b.drop used) := by
  simp only [decodePrefix]
  cases read : Value.read b with
  | incomplete => simp
  | malformed => simp
  | done w rest =>
    obtain ⟨front, rfl⟩ := Value.suffix_of_read read
    have cut : (front ++ rest).length - rest.length = front.length := by
      rw [List.length_append, Nat.add_sub_cancel]
    simp only [cut, Except.ok.injEq, Option.some.injEq, Prod.mk.injEq, Outcome.done.injEq]
    constructor
    · rintro ⟨rfl, rfl⟩
      exact ⟨by simp, rfl, by simp⟩
    · rintro ⟨within, rfl, same⟩
      have size := congrArg List.length same
      rw [List.length_drop, List.length_append] at size
      rw [List.length_append] at within
      exact ⟨rfl, by omega⟩

theorem decodePrefix_eq_error_iff {b : Bytes} {e : Error} :
    decodePrefix b = .error e ↔ e = .malformed ∧ Value.read b = .malformed := by
  simp only [decodePrefix]
  cases Value.read b <;> simp [eq_comm]

theorem used_pos {b : Bytes} {v : Value} {used : Nat}
    (item : decodePrefix b = .ok (some (v, used))) : 0 < used := by
  obtain ⟨within, read⟩ := decodePrefix_eq_some_iff.mp item
  have paid := Value.weight_le_of_read read
  have positive := v.weight_pos
  rw [List.length_drop] at paid
  omega

theorem decodePrefix_append_of_some {b : Bytes} {v : Value} {used : Nat}
    (item : decodePrefix b = .ok (some (v, used))) (more : Bytes) :
    decodePrefix (b ++ more) = .ok (some (v, used)) := by
  obtain ⟨within, read⟩ := decodePrefix_eq_some_iff.mp item
  refine decodePrefix_eq_some_iff.mpr ⟨by rw [List.length_append]; omega, ?_⟩
  rw [List.drop_append_of_le_length within]
  exact Value.read_append_of_done read more

theorem decodePrefix_append_of_error {b : Bytes} {e : Error} (broken : decodePrefix b = .error e)
    (more : Bytes) : decodePrefix (b ++ more) = .error e := by
  obtain ⟨rfl, read⟩ := decodePrefix_eq_error_iff.mp broken
  exact decodePrefix_eq_error_iff.mpr ⟨rfl, Value.read_append_of_malformed read more⟩

theorem decodePrefix_take {b : Bytes} {v : Value} {used : Nat}
    (item : decodePrefix b = .ok (some (v, used))) :
    decodePrefix (b.take used) = .ok (some (v, used)) := by
  obtain ⟨within, whole⟩ := decodePrefix_eq_some_iff.mp item
  have split : Value.read (b.take used ++ b.drop used) = .done v (b.drop used) := by
    rwa [List.take_append_drop]
  have size : (b.take used).length = used := by
    rw [List.length_take]
    omega
  refine decodePrefix_eq_some_iff.mpr ⟨Nat.le_of_eq size.symm, ?_⟩
  have spent : (b.take used).drop used = [] := List.drop_of_length_le (Nat.le_of_eq size)
  rw [spent]
  cases front : Value.read (b.take used) with
  | incomplete => exact absurd (Value.length_lt_of_read front split) (Nat.lt_irrefl _)
  | malformed =>
    rw [Value.read_append_of_malformed front] at split
    contradiction
  | done w rest =>
    rw [Value.read_append_of_done front] at split
    obtain ⟨rfl, same⟩ := Outcome.done.inj split
    have none : rest = [] :=
      List.append_cancel_right (same : rest ++ b.drop used = [] ++ b.drop used)
    rw [none]

theorem decodePrefix_take_of_lt {b : Bytes} {v : Value} {used k : Nat}
    (item : decodePrefix b = .ok (some (v, used))) (short : k < used) :
    decodePrefix (b.take k) = .ok none := by
  obtain ⟨within, -⟩ := decodePrefix_eq_some_iff.mp item
  cases front : decodePrefix (b.take k) with
  | error e =>
    have later := decodePrefix_append_of_error front (b.drop k)
    rw [List.take_append_drop, item] at later
    contradiction
  | ok answer =>
    cases answer with
    | none => rfl
    | some found =>
      have later := decodePrefix_append_of_some front (b.drop k)
      rw [List.take_append_drop, item] at later
      cases later
      have inside := (decodePrefix_eq_some_iff.mp front).1
      rw [List.length_take] at inside
      omega

end ChainRelay.Cbor
