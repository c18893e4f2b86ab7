import ChainRelay.Proofs.Wire.Limit

/-! What a demultiplexer keeps between two fragments: in front of the channels less than one
segment, and on each channel less than one item. A fault leaves nothing behind, so the next
segment of its channel is read as if it were the first. -/
namespace ChainRelay
open Cbor (decodePrefix IsItem)

namespace Cbor

theorem isItem_take {b : Bytes} {v : Value} {used : Nat}
    (front : decodePrefix b = .ok (some (v, used))) : IsItem (b.take used) := by
  have within := (decodePrefix_eq_some_iff.mp front).1
  have size : (b.take used).length = used := by
    rw [List.length_take]
    omega
  exact ⟨v, by rw [size, decodePrefix_take front]⟩

theorem length_lt_of_unfinished {b more : Bytes} {v : Value} {used : Nat}
    (waits : decodePrefix b = .ok none) (whole : decodePrefix (b ++ more) = .ok (some (v, used))) :
    b.length < used := by
  apply Nat.lt_of_not_le
  intro inside
  have found := decodePrefix_take whole
  rw [List.take_append_of_le_length inside] at found
  have again := decodePrefix_append_of_some found (b.drop used)
  rw [List.take_append_drop, waits] at again
  cases Except.ok.inj again

end Cbor

namespace Leftover

def Stops (rest : Bytes) : Leftover → Prop
  | .unfinished b => b = rest ∧ decodePrefix rest = .ok none
  | .malformed => ∃ e, decodePrefix rest = .error e

theorem Drains.exists_rest {b : Bytes} {items : List Bytes} {left : Leftover}
    (run : Drains b items left) :
    ∃ rest, b = items.flatten ++ rest ∧ (∀ m ∈ items, IsItem m) ∧ Stops rest left := by
  induction run with
  | @item b v used items left front _ ih =>
    obtain ⟨rest, cut, whole, stops⟩ := ih
    refine ⟨rest, ?_, ?_, stops⟩
    · rw [List.flatten_cons, List.append_assoc, ← cut, List.take_append_drop]
    · intro m member
      rcases List.mem_cons.mp member with rfl | later
      · exact Cbor.isItem_take front
      · exact whole m later
  | @unfinished b front => exact ⟨b, rfl, nofun, rfl, front⟩
  | @malformed b e front => exact ⟨b, rfl, nofun, e, front⟩

end Leftover

namespace Demuxer

/-- All that a segment can do once its channel gives out `items` and has `rest` behind them. -/
inductive Accepts (d : Demuxer) (s : Segment) (items : List Bytes) (rest : Bytes) :
    List (Except DemuxError Packet) × Demuxer → Prop
  | keeps (waits : decodePrefix rest = .ok none) (short : rest.length ≤ d.limit) :
      Accepts d s items rest (items.map fun m => .ok ⟨s.channel, m⟩, d.setBuffer s.channel rest)
  | overflows (waits : decodePrefix rest = .ok none) (long : d.limit < rest.length) :
      Accepts d s items rest
        ((items.map fun m => .ok ⟨s.channel, m⟩) ++ [.error (.messageTooLarge s.channel d.limit)],
          d.setBuffer s.channel [])
  | breaks {e : Cbor.Error} (broken : decodePrefix rest = .error e) :
      Accepts d s items rest
        ((items.map fun m => .ok ⟨s.channel, m⟩) ++ [.error (.malformed s.channel)],
          d.setBuffer s.channel [])

theorem exists_accepts (d : Demuxer) (s : Segment) :
    ∃ items rest, d.buffer s.channel ++ s.payload = items.flatten ++ rest ∧
      (∀ m ∈ items, IsItem m) ∧ d.Accepts s items rest (d.accept s) := by
  obtain ⟨items, left, run⟩ := Leftover.exists_drains (d.buffer s.channel ++ s.payload)
  obtain ⟨rest, cut, whole, stops⟩ := run.exists_rest
  refine ⟨items, rest, cut, whole, ?_⟩
  cases left with
  | unfinished b =>
    obtain ⟨rfl, waits⟩ := stops
    by_cases long : b.length > d.limit
    · simp only [accept, run.split_eq, if_pos long]
      exact .overflows waits long
    · simp only [accept, run.split_eq, if_neg long]
      exact .keeps waits (Nat.le_of_not_lt long)
  | malformed =>
    obtain ⟨e, broken⟩ := stops
    simp only [accept, run.split_eq]
    exact .breaks broken

def Unfinished (d : Demuxer) : Prop := ∀ c, decodePrefix (d.buffer c) = .ok none

theorem unfinished_accept {d : Demuxer} (waits : d.Unfinished) (s : Segment) :
    (d.accept s).2.Unfinished := by
  intro c
  by_cases here : s.channel = c
  · subst here
    obtain ⟨items, rest, -, -, accepts⟩ := exists_accepts d s
    generalize d.accept s = r at accepts
    cases accepts with
    | keeps ends _ => rwa [buffer_setBuffer]
    | overflows _ _ | breaks _ =>
      rw [buffer_setBuffer]
      rfl
  · rw [(accept_of_ne d here).2]
    exact waits c

theorem unfinished_acceptAll {d : Demuxer} (waits : d.Unfinished) (segments : List Segment) :
    (d.acceptAll segments).2.Unfinished := by
  induction segments generalizing d with
  | nil => exact waits
  | cons s segments ih => exact ih (unfinished_accept waits s)

theorem buffer_acceptAll_of_ne (d : Demuxer) {c : Channel} {segments : List Segment}
    (apart : ∀ s ∈ segments, s.channel ≠ c) : (d.acceptAll segments).2.buffer c = d.buffer c := by
  induction segments generalizing d with
  | nil => rfl
  | cons s segments ih =>
    have first := (accept_of_ne d (apart s (by simp))).2
    exact (ih (d.accept s).2 fun x member => apart x (by simp [member])).trans first

structure Faults (d : Demuxer) (s : Segment) : Prop where
  /-- the item behind those given out has not ended, and wherever it ends it is too long -/
  tooLarge : ∀ c n, .error (.messageTooLarge c n) ∈ (d.accept s).1 →
    c = s.channel ∧ n = d.limit ∧
      ∃ (items : List Bytes) (rest : Bytes),
        d.buffer s.channel ++ s.payload = items.flatten ++ rest ∧
        (∀ m ∈ items, IsItem m) ∧
        (d.accept s).1 = (items.map fun m => .ok ⟨s.channel, m⟩) ++
          [.error (.messageTooLarge s.channel d.limit)] ∧
        decodePrefix rest = .ok none ∧
        ∀ more v used, decodePrefix (rest ++ more) = .ok (some (v, used)) → d.limit < used
  /-- the next segment of the channel finds nothing there -/
  restarts : ∀ e, .error e ∈ (d.accept s).1 → e.channel = s.channel ∧
    ∀ between : List Segment, (∀ x ∈ between, x.channel ≠ s.channel) →
      ((d.accept s).2.acceptAll between).2.buffer s.channel = []

theorem error_notMem_items {e : DemuxError} {c : Channel} (items : List Bytes) :
    (.error e : Except DemuxError Packet) ∉ items.map fun m => .ok ⟨c, m⟩ := by
  intro member
  obtain ⟨m, -, same⟩ := List.mem_map.mp member
  cases same

theorem eq_of_error_mem {e last : DemuxError} {c : Channel} {items : List Bytes}
    (raised : (.error e : Except DemuxError Packet) ∈
      (items.map fun m => .ok ⟨c, m⟩) ++ [.error last]) : e = last := by
  rcases List.mem_append.mp raised with given | behind
  · exact absurd given (error_notMem_items items)
  · exact Except.error.inj (List.mem_singleton.mp behind)

theorem faults (d : Demuxer) (s : Segment) : d.Faults s := by
  obtain ⟨items, rest, cut, whole, accepts⟩ := exists_accepts d s
  constructor
  case tooLarge =>
    intro c n raised
    generalize d.accept s = r at accepts raised ⊢
    cases accepts with
    | keeps _ _ => exact absurd raised (error_notMem_items items)
    | overflows waits long =>
      cases eq_of_error_mem raised
      refine ⟨rfl, rfl, items, rest, cut, whole, rfl, waits, ?_⟩
      intro more v used ends
      exact Nat.lt_trans long (Cbor.length_lt_of_unfinished waits ends)
    | breaks _ => cases eq_of_error_mem raised
  case restarts =>
    intro e raised
    generalize d.accept s = r at accepts raised ⊢
    cases accepts with
    | keeps _ _ => exact absurd raised (error_notMem_items items)
    | overflows _ _ | breaks _ =>
      cases eq_of_error_mem raised
      refine ⟨rfl, ?_⟩
      intro between apart
      rw [buffer_acceptAll_of_ne _ apart, buffer_setBuffer]

/-- After every stream, however it is cut. The results are those of its segments, and what a
fault tells holds of each of them. -/
theorem feed_remainder (limit : Nat) (parts : List Bytes) :
    (Segment.decode ((empty limit).feed parts).2.pending = none ∧
      ((empty limit).feed parts).2.pending.length < Segment.headSize + Segment.maxPayload) ∧
    (∀ c, decodePrefix (((empty limit).feed parts).2.buffer c) = .ok none ∧
      ((empty limit).feed parts).2.buffered c ≤ limit) ∧
    ∀ before s after, (Segment.decodeAll parts.flatten).1 = before ++ s :: after →
      let d := ((empty limit).acceptAll before).2
      ((empty limit).feed parts).1 = ((empty limit).acceptAll before).1 ++
        ((d.accept s).1 ++ ((d.accept s).2.acceptAll after).1) ∧
      d.limit = limit ∧ d.Faults s := by
  have waiting : Segment.decode (empty limit).pending = none := rfl
  have start : (empty limit).Within := fun c => Nat.zero_le _
  have fit : ∀ s ∈ (Segment.decodeAll parts.flatten).1, s.payload.length ≤ Segment.maxPayload :=
    fun s member => Segment.length_le_of_mem_decodeAll member
  refine ⟨?_, ?_, ?_⟩
  · have short : Segment.decode ((empty limit).feed parts).2.pending = none := by
      rw [feed_eq waiting]
      exact Segment.decodeAll_left _
    exact ⟨short, Segment.length_lt_of_decode_eq_none short⟩
  · intro c
    obtain ⟨same, within, -⟩ := acceptAll_within start fit
    have waits : (empty limit).Unfinished := fun c => rfl
    rw [feed_eq waiting]
    exact ⟨unfinished_acceptAll waits _ c, Nat.le_trans (within c) (Nat.le_of_eq same)⟩
  · intro before s after cut d
    have results : ((empty limit).feed parts).1 =
        ((empty limit).acceptAll (before ++ s :: after)).1 := by
      rw [feed_eq waiting, ← cut]
      rfl
    rw [results, acceptAll_append]
    refine ⟨rfl, ?_, faults d s⟩
    exact (acceptAll_within start fun x member => fit x (by rw [cut]; simp [member])).1

/-- Under a limit of 3 the front of an item of 22 bytes, then a number. -/
theorem feed_remainder_overflow :
    let c : Channel := ⟨3, .responder⟩
    let s : Segment := ⟨0, c, [0x58, 20, 0, 0]⟩
    let t : Segment := ⟨0, c, [1]⟩
    (Segment.decodeAll [s.encode, t.encode].flatten).1 = [] ++ s :: [t] ∧
      .error (.messageTooLarge c 3) ∈ ((empty 3).accept s).1 ∧
      ((empty 3).accept s).2.buffer c = [] ∧
      ((empty 3).feed [s.encode, t.encode]).1 =
        [.error (.messageTooLarge c 3), .ok ⟨c, [1]⟩] := by
  intro c s t
  have kept : [s, t].map Segment.carried = [s, t] := by decide
  have cut : (Segment.decodeAll [s.encode, t.encode].flatten).1 = [] ++ s :: [t] := by
    have read := Segment.decodeAll_flatMap_encode [s, t] (by decide)
    rw [kept] at read
    exact congrArg Prod.fst read
  have raised : .error (.messageTooLarge c 3) ∈ ((empty 3).accept s).1 := List.mem_singleton.mpr rfl
  obtain ⟨results, -, told⟩ := (feed_remainder 3 [s.encode, t.encode]).2.2 [] s [t] cut
  exact ⟨cut, raised, (told.restarts _ raised).2 [] nofun, results⟩

end Demuxer
end ChainRelay
