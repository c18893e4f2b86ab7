import ChainRelay.Bytes

/-! All mini-protocols of a connection share one byte stream. A message is cut
into segments, each behind a head of eight bytes: timestamp (4), protocol number
with the sender's mode in the top bit (2), payload length (2), big-endian. -/
namespace ChainRelay

inductive Mode where
  | initiator
  | responder
  deriving DecidableEq, Repr, Inhabited

def Mode.opposite : Mode → Mode
  | initiator => responder
  | responder => initiator

def Mode.name : Mode → String
  | initiator => "Initiator"
  | responder => "Responder"

structure Channel where
  protocol : UInt16
  mode : Mode
  deriving DecidableEq, Repr, Inhabited

structure Segment where
  timestamp : UInt32
  channel : Channel
  payload : Bytes
  deriving DecidableEq, Repr

namespace Segment

def headSize : Nat := 8

def maxPayload : Nat := 65535

def modeBit : UInt16 := 0x8000

/-- The protocol word. A number that would reach into the mode bit loses that bit. -/
def word (c : Channel) : UInt16 :=
  (c.protocol &&& 0x7fff) ||| (match c.mode with | .initiator => 0 | .responder => modeBit)

def channelOfWord (w : UInt16) : Channel :=
  ⟨w &&& 0x7fff, if w &&& modeBit = 0 then .initiator else .responder⟩

def encode (s : Segment) : Bytes :=
  Bytes.ofNat 4 s.timestamp.toNat ++ Bytes.ofNat 2 (word s.channel).toNat ++
    Bytes.ofNat 2 s.payload.length ++ s.payload

def decode (b : Bytes) : Option (Segment × Bytes) :=
  let (top, rest) := b.splitAt headSize
  if top.length < headSize then none
  else
    let length := Bytes.toNat (top.drop 6)
    let (payload, rest) := rest.splitAt length
    if payload.length < length then none
    else
      let timestamp := UInt32.ofNat (Bytes.toNat (top.take 4))
      let w := UInt16.ofNat (Bytes.toNat ((top.drop 4).take 2))
      some (⟨timestamp, channelOfWord w, payload⟩, rest)

theorem length_lt_of_decode {b rest : Bytes} {s : Segment} (read : decode b = some (s, rest)) :
    rest.length < b.length := by
  simp only [decode, List.splitAt_eq] at read
  split at read
  · contradiction
  · split at read
    · contradiction
    · rename_i whole _
      cases Option.some.inj read
      simp only [List.length_take, headSize, Nat.not_lt] at whole
      simp only [List.length_drop, headSize]
      omega

def decodeAll (b : Bytes) : List Segment × Bytes :=
  match h : decode b with
  | none => ([], b)
  | some (s, rest) =>
    have := length_lt_of_decode h
    let (later, left) := decodeAll rest
    (s :: later, left)
termination_by b.length

/-- The payloads of a message: full ones and a last one, which is empty only for
an empty message. -/
def payloads (message : Bytes) : List Bytes :=
  if message.length ≤ maxPayload then [message]
  else message.take maxPayload :: payloads (message.drop maxPayload)
termination_by message.length
decreasing_by simp_all [maxPayload]; omega

def ofMessage (timestamp : UInt32) (channel : Channel) (message : Bytes) : List Segment :=
  (payloads message).map fun payload => ⟨timestamp, channel, payload⟩

def writeMessage (timestamp : UInt32) (channel : Channel) (message : Bytes) : Bytes :=
  (ofMessage timestamp channel message).flatMap encode

end Segment
end ChainRelay
