import ChainRelay.Proofs.Assoc
import ChainRelay.Proofs.Cbor.Prefix
import ChainRelay.Proofs.Wire.Segment
import ChainRelay.Wire.Demuxer

/-! Fragments of a stream. What comes out of a demultiplexer depends on the bytes
that went in and not on where they were cut, and a channel whose messages are whole
items gets exactly those, whatever the other channels carry. -/
namespace ChainRelay

namespace Demuxer

def feed (d : Demuxer) : List Bytes → List (Except DemuxError Packet) × Demuxer
  | [] => ([], d)
  | b :: rest =>
    let (first, d) := d.push b
    let (later, d) := d.feed rest
    (first ++ later, d)

def withPending (d : Demuxer) (b : Bytes) : Demuxer := { d with pending := b }

@[simp]
theorem withPending_withPending (d : Demuxer) (a b : Bytes) :
    (d.withPending a).withPending b = d.withPending b := rfl

theorem accept_withPending (d : Demuxer) (b : Bytes) (s : Segment) :
    (d.withPending b).accept s = ((d.accept s).1, (d.accept s).2.withPending b) := by
  simp only [accept, buffer, withPending]
  cases (Leftover.split ((d.buffers.lookup s.channel).getD [] ++ s.payload)).2 with
  | malformed => rfl
  | unfinished left => by_cases long : left.length > d.limit <;> simp [long, setBuffer]

def subject : Except DemuxError Packet → Channel
  | .ok p => p.channel
  | .error e => e.channel

theorem accept_local (d : Demuxer) (s : Segment) :
    (∃ b, (d.accept s).2 = d.setBuffer s.channel b) ∧
      ∀ r ∈ (d.accept s).1, subject r = s.channel := by
  have reported : ∃ b fault, d.accept s =
      ((Leftover.split (d.buffer s.channel ++ s.payload)).1.map (fun m => .ok ⟨s.channel, m⟩) ++
        fault, d.setBuffer s.channel b) ∧ ∀ r ∈ fault, subject r = s.channel := by
    simp only [accept]
    split
    · split
      · exact ⟨[], [_], rfl, fun r member => by rw [List.mem_singleton.mp member]; rfl⟩
      · exact ⟨_, [], by rw [List.append_nil], fun r member => by simp at member⟩
    · exact ⟨[], [_], rfl, fun r member => by rw [List.mem_singleton.mp member]; rfl⟩
  obtain ⟨b, fault, same, own⟩ := reported
  rw [same]
  refine ⟨⟨b, rfl⟩, fun r member => ?_⟩
  rcases List.mem_append.mp member with whole | other
  · obtain ⟨m, -, rfl⟩ := List.mem_map.mp whole
    rfl
  · exact own r other

theorem accept_limit (d : Demuxer) (s : Segment) : (d.accept s).2.limit = d.limit := by
  obtain ⟨⟨b, kept⟩, -⟩ := accept_local d s
  rw [kept]
  rfl

theorem acceptAll_withPending (d : Demuxer) (b : Bytes) (segments : List Segment) :
    (d.withPending b).acceptAll segments =
      ((d.acceptAll segments).1, (d.acceptAll segments).2.withPending b) := by
  induction segments generalizing d with
  | nil => rfl
  | cons s segments ih => simp only [acceptAll, accept_withPending, ih]

theorem acceptAll_append (d : Demuxer) (a b : List Segment) :
    d.acceptAll (a ++ b) =
      ((d.acceptAll a).1 ++ ((d.acceptAll a).2.acceptAll b).1,
        ((d.acceptAll a).2.acceptAll b).2) := by
  induction a generalizing d with
  | nil => rfl
  | cons s a ih => simp only [List.cons_append, acceptAll, ih, List.append_assoc]

theorem push_eq (d : Demuxer) (b : Bytes) :
    d.push b = ((d.acceptAll (Segment.decodeAll (d.pending ++ b)).1).1,
      (d.acceptAll (Segment.decodeAll (d.pending ++ b)).1).2.withPending
        (Segment.decodeAll (d.pending ++ b)).2) :=
  acceptAll_withPending d _ _

theorem push_pending (d : Demuxer) (b : Bytes) :
    (d.push b).2.pending = (Segment.decodeAll (d.pending ++ b)).2 := by
  rw [push_eq]
  rfl

theorem feed_eq {d : Demuxer} (waiting : Segment.decode d.pending = none) (parts : List Bytes) :
    d.feed parts = ((d.acceptAll (Segment.decodeAll (d.pending ++ parts.flatten)).1).1,
      (d.acceptAll (Segment.decodeAll (d.pending ++ parts.flatten)).1).2.withPending
        (Segment.decodeAll (d.pending ++ parts.flatten)).2) := by
  induction parts generalizing d with
  | nil =>
    rw [List.flatten_nil, List.append_nil, Segment.decodeAll_of_decode_none waiting]
    rfl
  | cons b rest ih =>
    have later := ih (d := (d.push b).2)
      (by rw [push_pending]; exact Segment.decodeAll_left _)
    have cut := Segment.decodeAll_append (d.pending ++ b) rest.flatten
    rw [List.append_assoc] at cut
    rw [push_pending, push_eq] at later
    simp only [feed, push_eq, later, List.flatten_cons, cut, acceptAll_append,
      acceptAll_withPending, withPending_withPending]

/-- Cut in two ways, a stream gives the same results and leaves the same state. -/
theorem feed_congr_flatten (limit : Nat) (parts others : List Bytes)
    (same : parts.flatten = others.flatten) :
    (empty limit).feed parts = (empty limit).feed others := by
  have waiting : Segment.decode (empty limit).pending = none := rfl
  rw [feed_eq waiting, feed_eq waiting, same]

/-- A segment whose head is cut in two, with two items and the front of a third. -/
theorem feed_two_cuttings :
    [[0, 0, 0, 1, 0], [2, 0, 3], [], [1, 2, 0x18]].flatten =
        [[0, 0, 0, 1, 0, 2, 0, 3, 1, 2, 0x18]].flatten ∧
      (empty 0).feed [[0, 0, 0, 1, 0], [2, 0, 3], [], [1, 2, 0x18]] =
        (empty 0).feed [[0, 0, 0, 1, 0, 2, 0, 3, 1, 2, 0x18]] :=
  ⟨rfl, feed_congr_flatten 0 _ _ rfl⟩

end Demuxer

namespace Cbor

def IsItem (m : Bytes) : Prop := ∃ v, decodePrefix m = .ok (some (v, m.length))

namespace IsItem

theorem length_pos {m : Bytes} (item : IsItem m) : 0 < m.length :=
  used_pos item.choose_spec

theorem decodePrefix_append {m : Bytes} (item : IsItem m) (more : Bytes) :
    ∃ v, decodePrefix (m ++ more) = .ok (some (v, m.length)) :=
  item.imp fun _ read => decodePrefix_append_of_some read more

theorem decodePrefix_front {m front : Bytes} (item : IsItem m) (cut : front <+: m)
    (short : front.length < m.length) : decodePrefix front = .ok none := by
  obtain ⟨v, read⟩ := item
  rw [List.prefix_iff_eq_take.mp cut]
  exact decodePrefix_take_of_lt read short

end IsItem
end Cbor

namespace Leftover

open Cbor (IsItem)

/-- The bytes are a front of the messages that falls short of the first. -/
def Short (left : Bytes) (messages : List Bytes) : Prop :=
  ∀ m ∈ messages.head?, left.length < m.length

theorem splitFrom_front {messages : List Bytes} (whole : ∀ m ∈ messages, IsItem m) {fuel : Nat}
    {b later : Bytes} (enough : b.length < fuel) (cut : b ++ later = messages.flatten)
    (items : List Bytes) :
    ∃ done rest left, messages = done ++ rest ∧ left ++ later = rest.flatten ∧ Short left rest ∧
      splitFrom fuel items b = (items.reverse ++ done, .unfinished left) := by
  induction messages generalizing fuel b items with
  | nil =>
    obtain ⟨rfl, rfl⟩ := List.append_eq_nil_iff.mp cut
    obtain ⟨fuel, rfl⟩ := Nat.exists_eq_succ_of_ne_zero (Nat.ne_zero_of_lt enough)
    exact ⟨[], [], [], rfl, rfl, by simp [Short], by simp [splitFrom, Cbor.decodePrefix]; rfl⟩
  | cons m messages ih =>
    obtain ⟨fuel, rfl⟩ := Nat.exists_eq_succ_of_ne_zero (Nat.ne_zero_of_lt enough)
    have first := whole m (by simp)
    rw [List.flatten_cons] at cut
    by_cases short : b.length < m.length
    · have front : b <+: m :=
        List.prefix_of_prefix_length_le ⟨later, cut⟩ (List.prefix_append m _) (Nat.le_of_lt short)
      refine ⟨[], m :: messages, b, rfl, by rw [cut, List.flatten_cons], by simpa [Short], ?_⟩
      simp only [splitFrom, first.decodePrefix_front front short, List.append_nil]
    · obtain ⟨more, rfl⟩ : m <+: b :=
        List.prefix_of_prefix_length_le ⟨messages.flatten, rfl⟩ ⟨later, cut⟩
          (Nat.le_of_not_lt short)
      rw [List.append_assoc] at cut
      have positive := first.length_pos
      rw [List.length_append] at enough
      obtain ⟨done, rest, left, same, tail, shorter, split⟩ :=
        ih (fun m member => whole m (by simp [member])) (by omega : more.length < fuel)
          (List.append_cancel_left cut) (m :: items)
      refine ⟨m :: done, rest, left, by rw [same]; rfl, tail, shorter, ?_⟩
      obtain ⟨v, read⟩ := first.decodePrefix_append more
      simp only [splitFrom, read, List.take_left, List.drop_left, split, List.reverse_cons,
        List.append_assoc, List.singleton_append]

theorem split_front {messages : List Bytes} (whole : ∀ m ∈ messages, IsItem m) {b later : Bytes}
    (cut : b ++ later = messages.flatten) :
    ∃ done rest left, messages = done ++ rest ∧ left ++ later = rest.flatten ∧ Short left rest ∧
      split b = (done, .unfinished left) :=
  splitFrom_front whole (Nat.lt_succ_self _) cut []

end Leftover

namespace Demuxer

open Cbor (IsItem)

def about (c : Channel) (results : List (Except DemuxError Packet)) :
    List (Except DemuxError Packet) :=
  results.filter fun r => subject r = c

theorem about_append (c : Channel) (a b : List (Except DemuxError Packet)) :
    about c (a ++ b) = about c a ++ about c b := List.filter_append ..

theorem buffer_setBuffer (d : Demuxer) (c : Channel) (b : Bytes) :
    (d.setBuffer c b).buffer c = b := by
  simp [setBuffer, buffer]

theorem buffer_setBuffer_of_ne (d : Demuxer) {c other : Channel} (apart : other ≠ c) (b : Bytes) :
    (d.setBuffer other b).buffer c = d.buffer c := by
  have miss : (c == other) = false := by simp [Ne.symm apart]
  simp only [setBuffer, buffer, List.lookup_cons, miss, Assoc.lookup_filter_ne apart]

theorem accept_of_ne (d : Demuxer) {s : Segment} {c : Channel} (apart : s.channel ≠ c) :
    about c (d.accept s).1 = [] ∧ (d.accept s).2.buffer c = d.buffer c := by
  obtain ⟨⟨b, kept⟩, own⟩ := accept_local d s
  refine ⟨?_, by rw [kept, buffer_setBuffer_of_ne d apart]⟩
  rw [about, List.filter_eq_nil_iff]
  intro r member
  simpa [own r member] using apart

theorem accept_of_eq {d : Demuxer} {s : Segment} {later : Bytes} {messages : List Bytes}
    (whole : ∀ m ∈ messages, IsItem m ∧ m.length ≤ d.limit)
    (cut : d.buffer s.channel ++ (s.payload ++ later) = messages.flatten) :
    ∃ done rest, messages = done ++ rest ∧
      (d.accept s).1 = done.map (fun m => .ok ⟨s.channel, m⟩) ∧
      (d.accept s).2.buffer s.channel ++ later = rest.flatten ∧
      Leftover.Short ((d.accept s).2.buffer s.channel) rest := by
  rw [← List.append_assoc] at cut
  obtain ⟨done, rest, left, rfl, tail, short, split⟩ :=
    Leftover.split_front (fun m member => (whole m member).1) cut
  have fits : ¬ left.length > d.limit := by
    cases rest with
    | nil =>
      obtain ⟨rfl, -⟩ := List.append_eq_nil_iff.mp tail
      simp
    | cons m rest =>
      have next := short m rfl
      have bound := (whole m (by simp)).2
      omega
  refine ⟨done, rest, rfl, ?_⟩
  simp only [accept, split, if_neg fits, buffer_setBuffer]
  exact ⟨trivial, tail, short⟩

theorem acceptAll_delivers {c : Channel} {segments : List Segment} {d : Demuxer}
    {messages : List Bytes} (whole : ∀ m ∈ messages, IsItem m ∧ m.length ≤ d.limit)
    (short : Leftover.Short (d.buffer c) messages)
    (cut : d.buffer c ++ (segments.filter (·.channel = c)).flatMap (·.payload) =
      messages.flatten) :
    about c (d.acceptAll segments).1 = messages.map (fun m => .ok ⟨c, m⟩) ∧
      (d.acceptAll segments).2.buffered c = 0 := by
  induction segments generalizing d messages with
  | nil =>
    rw [List.filter_nil, List.flatMap_nil, List.append_nil] at cut
    cases messages with
    | nil => exact ⟨rfl, by simp [acceptAll, buffered, cut]⟩
    | cons m messages =>
      have next := short m rfl
      rw [cut, List.flatten_cons, List.length_append] at next
      omega
  | cons s segments ih =>
    have limit := accept_limit d s
    rw [acceptAll, about_append]
    by_cases here : s.channel = c
    · subst here
      rw [List.filter_cons_of_pos (by simp), List.flatMap_cons] at cut
      obtain ⟨done, rest, rfl, first, tail, shorter⟩ := accept_of_eq whole cut
      obtain ⟨results, quiet⟩ := ih (d := (d.accept s).2)
        (fun m member => by rw [limit]; exact whole m (by simp [member])) shorter tail
      refine ⟨?_, quiet⟩
      rw [results, first, List.map_append, about, List.filter_eq_self.mpr]
      intro r member
      obtain ⟨m, -, rfl⟩ := List.mem_map.mp member
      simp [subject]
    · obtain ⟨none, kept⟩ := accept_of_ne d here
      rw [List.filter_cons_of_neg (by simpa using here)] at cut
      obtain ⟨results, quiet⟩ := ih (d := (d.accept s).2)
        (by rw [limit]; exact whole) (by rw [kept]; exact short) (by rw [kept]; exact cut)
      exact ⟨by rw [none, results, List.nil_append], quiet⟩

end Demuxer

namespace Segment

/-- The segments, cut and mixed in any way, take exactly these bytes to a channel. -/
structure Carry (c : Channel) (b : Bytes) (segments : List Segment) : Prop where
  fit : ∀ s ∈ segments, s.payload.length ≤ maxPayload
  bytes : ((segments.map carried).filter (·.channel = c)).flatMap (·.payload) = b

theorem Carry.append {c : Channel} {a b : Bytes} {first second : List Segment}
    (front : Carry c a first) (back : Carry c b second) : Carry c (a ++ b) (first ++ second) where
  fit s member := (List.mem_append.mp member).elim (front.fit s) (back.fit s)
  bytes := by
    rw [List.map_append, List.filter_append, List.flatMap_append, front.bytes, back.bytes]

theorem carry_ofMessage {c : Channel} (low : c.protocol < 0x8000) (time : UInt32) (m : Bytes) :
    Carry c m (ofMessage time c m) where
  fit s found := length_le_of_mem_ofMessage found
  bytes := by
    have own : ∀ s ∈ ofMessage time c m, s.channel = c :=
      fun s found => (address_of_mem_ofMessage found).2
    rw [map_carried_eq_self fun s found => (own s found).symm ▸ low,
      List.filter_eq_self.mpr fun s found => decide_eq_true (own s found),
      flatMap_payload_ofMessage]

theorem carry_messages {c : Channel} (low : c.protocol < 0x8000)
    (stamped : List (UInt32 × Bytes)) :
    Carry c (stamped.map (·.2)).flatten (stamped.flatMap fun p => ofMessage p.1 c p.2) := by
  induction stamped with
  | nil => exact ⟨by simp, rfl⟩
  | cons p stamped ih => exact (carry_ofMessage low p.1 p.2).append ih

end Segment

namespace Demuxer

open Cbor (IsItem)

/-- A channel gets its messages, each once and in order, however they are cut into
segments, whatever stands between these, and however the stream is fragmented. The
segments that a message is written as are one such cut. -/
theorem feed_delivers {c : Channel} (low : c.protocol < 0x8000) {limit : Nat}
    {messages : List Bytes} (whole : ∀ m ∈ messages, IsItem m ∧ m.length ≤ limit) :
    (∀ segments, Segment.Carry c messages.flatten segments →
      ∀ parts, parts.flatten = segments.flatMap Segment.encode →
        about c ((empty limit).feed parts).1 = messages.map (fun m => .ok ⟨c, m⟩) ∧
          ((empty limit).feed parts).2.buffered c = 0) ∧
    ∀ stamped : List (UInt32 × Bytes), stamped.map (·.2) = messages →
      Segment.Carry c messages.flatten (stamped.flatMap fun p => Segment.ofMessage p.1 c p.2) := by
  refine ⟨fun segments carry parts same => ?_, ?_⟩
  · have waiting : Segment.decode (empty limit).pending = none := rfl
    have read : Segment.decodeAll ((empty limit).pending ++ parts.flatten) =
        (segments.map Segment.carried, []) := by
      rw [same]
      exact Segment.decodeAll_flatMap_encode segments carry.fit
    have short : Leftover.Short ((empty limit).buffer c) messages := by
      intro m first
      exact (whole m (List.mem_of_mem_head? first)).1.length_pos
    obtain ⟨results, quiet⟩ := acceptAll_delivers (d := empty limit) whole short carry.bytes
    rw [feed_eq waiting, read]
    exact ⟨results, quiet⟩
  · rintro stamped rfl
    exact Segment.carry_messages low stamped

/-- Two messages in three segments, one shared and one empty, with another channel's
broken item between them. -/
theorem feed_shared_segments :
    (⟨2, .responder⟩ : Channel).protocol < 0x8000 ∧
      (∀ m ∈ [[0x82, 1, 2], [0x41, 7]], IsItem m ∧ m.length ≤ 3) ∧
      about ⟨2, .responder⟩ ((empty 3).feed
        [[0, 0, 0, 0, 0x80, 2, 0, 2, 0x82, 1, 0, 0, 0], [0, 0, 2, 0, 1, 0xff],
          [0, 0, 0, 0, 0x80, 2, 0, 0, 0, 0, 0, 0, 0x80, 2, 0, 3, 2, 0x41, 7]]).1 =
        [.ok ⟨⟨2, .responder⟩, [0x82, 1, 2]⟩, .ok ⟨⟨2, .responder⟩, [0x41, 7]⟩] := by
  have low : (⟨2, .responder⟩ : Channel).protocol < 0x8000 := by decide
  have whole : ∀ m ∈ ([[0x82, 1, 2], [0x41, 7]] : List Bytes), IsItem m ∧ m.length ≤ 3 := by
    intro m member
    simp only [List.mem_cons, List.not_mem_nil, or_false] at member
    rcases member with rfl | rfl
    · exact ⟨⟨.array [.unsigned 1, .unsigned 2], rfl⟩, by decide⟩
    · exact ⟨⟨.bytes [7], rfl⟩, by decide⟩
  refine ⟨low, whole, ?_⟩
  exact ((feed_delivers low whole).1
    [⟨0, ⟨2, .responder⟩, [0x82, 1]⟩, ⟨0, ⟨2, .initiator⟩, [0xff]⟩, ⟨0, ⟨2, .responder⟩, []⟩,
      ⟨0, ⟨2, .responder⟩, [2, 0x41, 7]⟩] ⟨by decide, by decide⟩ _ (by decide)).1

end Demuxer
end ChainRelay
