import ChainRelay.Cbor.Reader
import ChainRelay.Wire.Segment

/-! Messages out of a byte stream that arrives in any fragments. Whole segments
are taken from the front of the stream; each adds to the buffer of its channel,
and every complete item at the front of that buffer is a message. A buffer that
turns out malformed, or whose unfinished item has grown past the limit, is cleared
and reported. Other channels are not touched. -/
namespace ChainRelay

inductive Leftover where
  | unfinished (b : Bytes)
  | malformed
  deriving DecidableEq, Repr

namespace Leftover

def splitFrom : Nat → List Bytes → Bytes → List Bytes × Leftover
  | 0, items, b => (items.reverse, .unfinished b)
  | fuel + 1, items, b =>
    match Cbor.decodePrefix b with
    | .ok (some (_, used)) => splitFrom fuel (b.take used :: items) (b.drop used)
    | .ok none => (items.reverse, .unfinished b)
    | .error _ => (items.reverse, .malformed)

/-- The complete items at the front of a buffer, as bytes, and the leftover. There
are no more items than bytes. -/
def split (b : Bytes) : List Bytes × Leftover := splitFrom (b.length + 1) [] b

end Leftover

structure Packet where
  channel : Channel
  payload : Bytes
  deriving DecidableEq, Repr

inductive DemuxError where
  | messageTooLarge (channel : Channel) (limit : Nat)
  | malformed (channel : Channel)
  deriving DecidableEq, Repr

namespace DemuxError

def channel : DemuxError → Channel
  | messageTooLarge c _ | malformed c => c

def message : DemuxError → String
  | messageTooLarge c limit =>
    s!"message on protocol {c.protocol} ({c.mode.name}) exceeds {limit} bytes"
  | malformed c =>
    s!"malformed message on protocol {c.protocol} ({c.mode.name}): malformed cbor: "

def kind : DemuxError → String
  | messageTooLarge _ _ => "MessageTooLarge"
  | malformed _ => "Malformed"

end DemuxError

structure Demuxer where
  limit : Nat
  pending : Bytes
  buffers : List (Channel × Bytes)
  deriving Repr

namespace Demuxer

def defaultLimit : Nat := 4 * 1024 * 1024

def empty (limit : Nat) : Demuxer := ⟨limit, [], []⟩

def buffer (d : Demuxer) (c : Channel) : Bytes := (d.buffers.lookup c).getD []

def buffered (d : Demuxer) (c : Channel) : Nat := (d.buffer c).length

def setBuffer (d : Demuxer) (c : Channel) (b : Bytes) : Demuxer :=
  { d with buffers := (c, b) :: d.buffers.filter (·.1 ≠ c) }

/-- One segment: the messages that it completes on its channel, then the fault of
what it leaves there, if any. -/
def accept (d : Demuxer) (s : Segment) : List (Except DemuxError Packet) × Demuxer :=
  let (items, leftover) := Leftover.split (d.buffer s.channel ++ s.payload)
  let messages := items.map fun payload => .ok ⟨s.channel, payload⟩
  match leftover with
  | .unfinished b =>
    if b.length > d.limit then
      (messages ++ [.error (.messageTooLarge s.channel d.limit)], d.setBuffer s.channel [])
    else (messages, d.setBuffer s.channel b)
  | .malformed => (messages ++ [.error (.malformed s.channel)], d.setBuffer s.channel [])

def acceptAll (d : Demuxer) : List Segment → List (Except DemuxError Packet) × Demuxer
  | [] => ([], d)
  | s :: rest =>
    let (first, d) := d.accept s
    let (later, d) := d.acceptAll rest
    (first ++ later, d)

def push (d : Demuxer) (b : Bytes) : List (Except DemuxError Packet) × Demuxer :=
  let (segments, left) := Segment.decodeAll (d.pending ++ b)
  { d with pending := left }.acceptAll segments

end Demuxer
end ChainRelay
