import ChainRelay.Proofs.Wire.Delivery

/-! Channels apart. What a demultiplexer says about a channel and what it keeps for it depend
on the payloads that reached that channel and on nothing else that was in the stream. -/
namespace ChainRelay

namespace Segment

def payloadsOn (c : Channel) (segments : List Segment) : List Bytes :=
  (segments.filter (·.channel = c)).map (·.payload)

theorem payloadsOn_cons_self (s : Segment) (segments : List Segment) :
    payloadsOn s.channel (s :: segments) = s.payload :: payloadsOn s.channel segments := by
  rw [payloadsOn, List.filter_cons_of_pos (by simp)]
  rfl

theorem payloadsOn_cons_of_ne {c : Channel} {s : Segment} (apart : s.channel ≠ c)
    (segments : List Segment) : payloadsOn c (s :: segments) = payloadsOn c segments := by
  rw [payloadsOn, List.filter_cons_of_neg (by simpa using apart)]
  rfl

def alone (c : Channel) (payloads : List Bytes) : List Segment :=
  payloads.map fun payload => ⟨0, c, payload⟩

/-- The fragments are those of a stream of segments. It may end inside a further one. -/
structure Streams (segments : List Segment) (parts : List Bytes) : Prop where
  fit : ∀ s ∈ segments, s.payload.length ≤ maxPayload
  cut : ∃ tail, decode tail = none ∧ parts.flatten = segments.flatMap encode ++ tail

theorem Streams.decodeAll_eq {segments : List Segment} {parts : List Bytes}
    (streams : Streams segments parts) :
    (decodeAll parts.flatten).1 = segments.map carried := by
  obtain ⟨tail, short, cut⟩ := streams.cut
  rw [cut, decodeAll_flatMap_encode_append streams.fit short]

end Segment

namespace Demuxer
open Segment (payloadsOn alone)

/-- One channel cannot tell the two apart. -/
structure Alike (c : Channel) (d e : Demuxer) : Prop where
  limit_eq : d.limit = e.limit
  buffer_eq : d.buffer c = e.buffer c

variable {c : Channel} {d e : Demuxer}

theorem Alike.accept (alike : Alike c d e) (time time' : UInt32) (payload : Bytes) :
    (d.accept ⟨time, c, payload⟩).1 = (e.accept ⟨time', c, payload⟩).1 ∧
      Alike c (d.accept ⟨time, c, payload⟩).2 (e.accept ⟨time', c, payload⟩).2 := by
  have kept (b : Bytes) : Alike c (d.setBuffer c b) (e.setBuffer c b) := by
    constructor
    · exact alike.limit_eq
    · rw [buffer_setBuffer, buffer_setBuffer]
  simp only [Demuxer.accept, alike.limit_eq, alike.buffer_eq]
  split
  · split
    · exact ⟨rfl, kept []⟩
    · exact ⟨rfl, kept _⟩
  · exact ⟨rfl, kept []⟩

theorem Alike.pass (alike : Alike c d e) {s : Segment} (apart : s.channel ≠ c) :
    Alike c (d.accept s).2 e := by
  constructor
  · rw [accept_limit, alike.limit_eq]
  · rw [(accept_of_ne d apart).2, alike.buffer_eq]

theorem about_accept (d : Demuxer) {s : Segment} (here : s.channel = c) :
    about c (d.accept s).1 = (d.accept s).1 := by
  apply List.filter_eq_self.mpr
  intro r member
  exact decide_eq_true (((accept_local d s).2 r member).trans here)

theorem Alike.acceptAll (alike : Alike c d e) (segments : List Segment) :
    about c (d.acceptAll segments).1 = (e.acceptAll (alone c (payloadsOn c segments))).1 ∧
      Alike c (d.acceptAll segments).2 (e.acceptAll (alone c (payloadsOn c segments))).2 := by
  induction segments generalizing d e with
  | nil => exact ⟨rfl, alike⟩
  | cons s segments ih =>
    rw [Demuxer.acceptAll, about_append]
    by_cases here : s.channel = c
    · -- both take the segment; any other is taken by the first alone
      subst here
      obtain ⟨results, after⟩ := alike.accept s.timestamp 0 s.payload
      obtain ⟨later, left⟩ := ih after
      rw [Segment.payloadsOn_cons_self, about_accept d rfl]
      exact ⟨by rw [later]; exact congrArg (· ++ _) results, left⟩
    · obtain ⟨later, left⟩ := ih (alike.pass here)
      rw [Segment.payloadsOn_cons_of_ne here, (accept_of_ne d here).1, List.nil_append]
      exact ⟨later, left⟩

theorem about_feed (limit : Nat) (c : Channel) {segments : List Segment} {parts : List Bytes}
    (streams : Segment.Streams segments parts) :
    let own := (empty limit).acceptAll (alone c (payloadsOn c (segments.map Segment.carried)))
    about c ((empty limit).feed parts).1 = own.1 ∧
      ((empty limit).feed parts).2.buffer c = own.2.buffer c := by
  intro own
  have waiting : Segment.decode (empty limit).pending = none := rfl
  have alike : Alike c (empty limit) (empty limit) := ⟨rfl, rfl⟩
  obtain ⟨results, left⟩ := alike.acceptAll (Segment.decodeAll parts.flatten).1
  rw [streams.decodeAll_eq] at results left
  have read : (Segment.decodeAll ((empty limit).pending ++ parts.flatten)).1 =
      segments.map Segment.carried := streams.decodeAll_eq
  rw [feed_eq waiting, read]
  exact ⟨results, left.buffer_eq⟩

/-- Two streams that bring a channel the same payloads, whatever else is in them and however
they are cut, get it the same results and leave it the same bytes. A protocol number that
reaches into the mode bit has lost it on the way. -/
theorem feed_isolated (limit : Nat) (c : Channel) {first second : List Segment}
    {parts others : List Bytes} (one : Segment.Streams first parts)
    (two : Segment.Streams second others)
    (same : payloadsOn c (first.map Segment.carried) = payloadsOn c (second.map Segment.carried)) :
    about c ((empty limit).feed parts).1 = about c ((empty limit).feed others).1 ∧
      ((empty limit).feed parts).2.buffer c = ((empty limit).feed others).2.buffer c ∧
      ((empty limit).feed parts).2.buffered c = ((empty limit).feed others).2.buffered c := by
  obtain ⟨results, left⟩ := about_feed limit c one
  obtain ⟨results', left'⟩ := about_feed limit c two
  rw [← same] at results' left'
  have kept := left.trans left'.symm
  exact ⟨results.trans results'.symm, kept, congrArg List.length kept⟩

/-- A number and the front of a list, alone and among broken and overlong items of the two
nearest channels. The second stream comes in four pieces and ends inside a head. -/
theorem feed_isolated_hostile :
    let c : Channel := ⟨2, .responder⟩
    let quiet : List Segment := [⟨0, c, [1]⟩, ⟨0, c, [0x82]⟩]
    let hostile : List Segment := [⟨7, ⟨2, .initiator⟩, [0xff]⟩, ⟨8, c, [1]⟩,
      ⟨9, ⟨3, .responder⟩, [0x58, 20, 0, 0]⟩, ⟨9, c, [0x82]⟩]
    let b := hostile.flatMap Segment.encode
    let parts := [b.take 5, (b.drop 5).take 9, [], b.drop 14 ++ [0, 0, 0]]
    Segment.Streams quiet [quiet.flatMap Segment.encode] ∧ Segment.Streams hostile parts ∧
      payloadsOn c (quiet.map Segment.carried) = payloadsOn c (hostile.map Segment.carried) ∧
      about c ((empty 3).feed parts).1 = [.ok ⟨c, [1]⟩] ∧
      ((empty 3).feed parts).2.buffered c = 1 := by
  intro c quiet hostile b parts
  have one : Segment.Streams quiet [quiet.flatMap Segment.encode] :=
    ⟨by decide, [], rfl, by simp⟩
  have two : Segment.Streams hostile parts := ⟨by decide, [0, 0, 0], rfl, rfl⟩
  have same : payloadsOn c (quiet.map Segment.carried) =
      payloadsOn c (hostile.map Segment.carried) := by decide
  obtain ⟨results, -, count⟩ := feed_isolated 3 c one two same
  have brought : payloadsOn c (quiet.map Segment.carried) = [[1], [0x82]] := by decide
  obtain ⟨given, left⟩ := about_feed 3 c one
  rw [brought] at given left
  refine ⟨one, two, same, ?_, ?_⟩
  · rw [← results, given]
    rfl
  · rw [← count, buffered, left]
    rfl

end Demuxer
end ChainRelay
