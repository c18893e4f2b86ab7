import ChainRelay.Proofs.Wire.Delivery
import ChainRelay.Proofs.Wire.Framing
import ChainRelay.Proofs.Wire.Reassembly

/-! The limit is one on what is kept. A buffer that waits for the rest of an item is never
longer, and an item is dropped when a segment ends inside it beyond the limit. What a
segment completes is delivered, and may be longer by as much as the segment has brought. -/
namespace ChainRelay
open Cbor (decodePrefix IsItem)

namespace Leftover

variable {b : Bytes} {items : List Bytes} {left : Leftover}

theorem Drains.split_eq (run : Drains b items left) : split b = (items, left) :=
  run.splitFrom_eq (Nat.lt_succ_self b.length) []

theorem Drains.infix_of_mem (run : Drains b items left) {m : Bytes} (member : m ∈ items) :
    m <:+: b := by
  induction run with
  | @item b v used items left front _ ih =>
    rcases List.mem_cons.mp member with rfl | later
    · exact (List.take_prefix used b).isInfix
    · exact (ih later).trans (List.drop_suffix used b).isInfix
  | unfinished _ | malformed _ => cases member

end Leftover

namespace Demuxer

def Within (d : Demuxer) : Prop := ∀ c, d.buffered c ≤ d.limit

theorem within_setBuffer {d : Demuxer} (within : d.Within) {b : Bytes} (short : b.length ≤ d.limit)
    (c : Channel) : (d.setBuffer c b).Within := by
  intro other
  by_cases same : c = other
  · subst same
    rw [buffered, buffer_setBuffer]
    exact short
  · rw [buffered, buffer_setBuffer_of_ne d same]
    exact within other

theorem within_accept {d : Demuxer} (within : d.Within) (s : Segment) :
    (d.accept s).2.Within := by
  simp only [accept]
  split
  · split
    · exact within_setBuffer within (Nat.zero_le _) _
    · rename_i short
      exact within_setBuffer within (Nat.le_of_not_lt short) _
  · exact within_setBuffer within (Nat.zero_le _) _

theorem mem_items_of_accept {d : Demuxer} {s : Segment} {p : Packet}
    (delivered : .ok p ∈ (d.accept s).1) :
    p.payload ∈ (Leftover.split (d.buffer s.channel ++ s.payload)).1 := by
  have packed {items : List Bytes} (member : (.ok p : Except DemuxError Packet) ∈
      items.map fun m => .ok ⟨s.channel, m⟩) : p.payload ∈ items := by
    obtain ⟨m, inside, same⟩ := List.mem_map.mp member
    cases same
    exact inside
  simp only [accept] at delivered
  split at delivered
  · split at delivered
    · rcases List.mem_append.mp delivered with whole | fault
      · exact packed whole
      · cases List.mem_singleton.mp fault
    · exact packed delivered
  · rcases List.mem_append.mp delivered with whole | fault
    · exact packed whole
    · cases List.mem_singleton.mp fault

theorem length_le_of_accept {d : Demuxer} (within : d.Within) {s : Segment}
    (fits : s.payload.length ≤ Segment.maxPayload) {p : Packet}
    (delivered : .ok p ∈ (d.accept s).1) : p.payload.length ≤ d.limit + Segment.maxPayload := by
  obtain ⟨items, left, run⟩ := Leftover.exists_drains (d.buffer s.channel ++ s.payload)
  have member := mem_items_of_accept delivered
  rw [run.split_eq] at member
  have part := (run.infix_of_mem member).length_le
  have kept : (d.buffer s.channel).length ≤ d.limit := within s.channel
  rw [List.length_append] at part
  omega

theorem acceptAll_within {segments : List Segment} {d : Demuxer} (within : d.Within)
    (fit : ∀ s ∈ segments, s.payload.length ≤ Segment.maxPayload) :
    (d.acceptAll segments).2.limit = d.limit ∧ (d.acceptAll segments).2.Within ∧
      ∀ p, .ok p ∈ (d.acceptAll segments).1 → p.payload.length ≤ d.limit + Segment.maxPayload := by
  induction segments generalizing d with
  | nil => exact ⟨rfl, within, nofun⟩
  | cons s segments ih =>
    have same := accept_limit d s
    obtain ⟨limit, bounded, short⟩ :=
      ih (within_accept within s) fun s member => fit s (by simp [member])
    refine ⟨limit.trans same, bounded, ?_⟩
    intro p delivered
    rcases List.mem_append.mp delivered with first | later
    · exact length_le_of_accept within (fit s (by simp)) first
    · rw [← same]
      exact short p later

structure Verdict (d : Demuxer) (s : Segment) (m : Bytes) : Prop where
  /-- completed, it is delivered, however long it is -/
  whole : ∀ rest, d.buffer s.channel ++ s.payload = m ++ rest →
    (d.push s.encode).1.head? = some (.ok ⟨s.channel, m⟩)
  /-- cut short beyond the limit, it is reported and dropped -/
  tooLong : d.buffer s.channel ++ s.payload <+: m →
    (d.buffer s.channel ++ s.payload).length < m.length →
    d.limit < (d.buffer s.channel ++ s.payload).length →
    d.push s.encode = ([.error (.messageTooLarge s.channel d.limit)], d.setBuffer s.channel [])
  kept : d.buffer s.channel ++ s.payload <+: m →
    (d.buffer s.channel ++ s.payload).length < m.length →
    (d.buffer s.channel ++ s.payload).length ≤ d.limit →
    d.push s.encode = ([], d.setBuffer s.channel (d.buffer s.channel ++ s.payload))

theorem push_encode {d : Demuxer} (whole : d.pending = []) {s : Segment}
    (fits : s.payload.length ≤ Segment.maxPayload) (low : s.channel.protocol < 0x8000) :
    d.push s.encode = d.accept s := by
  have read : Segment.decodeAll (d.pending ++ s.encode) = ([s], []) := by
    have one := Segment.decodeAll_flatMap_encode [s] (by simpa using fits)
    simpa [whole, Segment.carried_eq_self low] using one
  have same : d.withPending [] = d := by
    rw [withPending, ← whole]
  have kept := accept_withPending d [] s
  rw [same] at kept
  rw [push_eq, read]
  simp only [acceptAll, List.append_nil]
  exact kept.symm

theorem verdict {d : Demuxer} (waiting : d.pending = []) {s : Segment}
    (fits : s.payload.length ≤ Segment.maxPayload) (low : s.channel.protocol < 0x8000)
    {m : Bytes} (item : IsItem m) : d.Verdict s m := by
  constructor
  case whole =>
    intro rest cut
    obtain ⟨v, first⟩ := item.decodePrefix_append rest
    obtain ⟨items, left, later⟩ := Leftover.exists_drains ((m ++ rest).drop m.length)
    have run := (Leftover.Drains.item first later).split_eq
    rw [push_encode waiting fits low]
    simp only [accept, cut, run, List.take_left]
    split
    · split <;> rfl
    · rfl
  case tooLong =>
    intro front short long
    have run := (Leftover.Drains.unfinished (item.decodePrefix_front front short)).split_eq
    rw [push_encode waiting fits low]
    simp only [accept, run, long, if_true]
    rfl
  case kept =>
    intro front short few
    have run := (Leftover.Drains.unfinished (item.decodePrefix_front front short)).split_eq
    rw [push_encode waiting fits low]
    simp only [accept, run, Nat.not_lt.mpr few, if_false]
    rfl

/-- Over every stream, however it is cut. -/
theorem feed_limit (limit : Nat) (parts : List Bytes) :
    (∀ c, ((empty limit).feed parts).2.buffered c ≤ limit) ∧
    (∀ p, .ok p ∈ ((empty limit).feed parts).1 →
      p.payload.length ≤ limit + Segment.maxPayload) ∧
    ∀ s m, s.payload.length ≤ Segment.maxPayload → s.channel.protocol < 0x8000 → IsItem m →
      ((empty limit).feed parts).2.pending = [] → Verdict ((empty limit).feed parts).2 s m := by
  have start : (empty limit).Within := fun c => Nat.zero_le _
  have waiting : Segment.decode (empty limit).pending = none := rfl
  obtain ⟨same, within, short⟩ := acceptAll_within start
    fun s member => Segment.length_le_of_mem_decodeAll (b := parts.flatten) member
  refine ⟨?_, ?_, ?_⟩
  · intro c
    rw [feed_eq waiting]
    exact Nat.le_trans (within c) (Nat.le_of_eq same)
  · intro p delivered
    rw [feed_eq waiting] at delivered
    exact short p delivered
  · intro s m fits low item whole
    exact verdict whole fits low item

/-- An item of 22 bytes under a limit of 16, in one segment. -/
theorem feed_limit_exceeded :
    let m : Bytes := 0x58 :: 20 :: List.replicate 20 0
    let s : Segment := ⟨0, ⟨3, .responder⟩, m⟩
    let d := ((empty 16).feed []).2
    16 < m.length ∧ s.payload.length ≤ Segment.maxPayload ∧ s.channel.protocol < 0x8000 ∧
      IsItem m ∧ d.pending = [] ∧ (d.push s.encode).1.head? = some (.ok ⟨s.channel, m⟩) := by
  intro m s d
  have fits : s.payload.length ≤ Segment.maxPayload := by decide
  have low : s.channel.protocol < 0x8000 := by decide
  have item : IsItem m := ⟨.bytes (List.replicate 20 0), rfl⟩
  have ruled := (feed_limit 16 []).2.2 s m fits low item rfl
  exact ⟨by decide, fits, low, item, rfl, ruled.whole [] rfl⟩

end Demuxer
end ChainRelay
