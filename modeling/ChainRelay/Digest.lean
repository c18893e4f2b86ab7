import ChainRelay.Bytes

/-! The 256-bit BLAKE3 digest. The input is cut into chunks of 1024 bytes, each
chunk into blocks of 64; a chunk is folded through the compression function, and
the chunk values form a binary tree whose left subtree is the largest power of
two of chunks that leaves something to the right. The last compression is marked
as the root. -/
namespace ChainRelay.Digest

abbrev Chaining := Vector UInt32 8
abbrev Words := Vector UInt32 16

def startWords : Chaining :=
  #v[0x6A09E667, 0xBB67AE85, 0x3C6EF372, 0xA54FF53A,
    0x510E527F, 0x9B05688C, 0x1F83D9AB, 0x5BE0CD19]

def schedule : Vector (Fin 16) 16 := #v[2, 6, 3, 10, 7, 0, 4, 13, 1, 11, 12, 5, 9, 14, 15, 8]

structure Flags where
  chunkStart : Bool := false
  chunkEnd : Bool := false
  parent : Bool := false
  root : Bool := false

def Flags.word (f : Flags) : UInt32 :=
  (if f.chunkStart then 1 else 0) + (if f.chunkEnd then 2 else 0) +
    (if f.parent then 4 else 0) + (if f.root then 8 else 0)

def rotateRight (x n : UInt32) : UInt32 := (x >>> n) ||| (x <<< (32 - n))

def mix (v : Words) (a b c d : Fin 16) (x y : UInt32) : Words :=
  let va := v[a] + v[b] + x
  let vd := rotateRight (v[d] ^^^ va) 16
  let vc := v[c] + vd
  let vb := rotateRight (v[b] ^^^ vc) 12
  let va := va + vb + y
  let vd := rotateRight (vd ^^^ va) 8
  let vc := vc + vd
  let vb := rotateRight (vb ^^^ vc) 7
  (((v.set a va).set b vb).set c vc).set d vd

def round (v m : Words) : Words :=
  let v := mix v 0 4 8 12 m[0] m[1]
  let v := mix v 1 5 9 13 m[2] m[3]
  let v := mix v 2 6 10 14 m[4] m[5]
  let v := mix v 3 7 11 15 m[6] m[7]
  let v := mix v 0 5 10 15 m[8] m[9]
  let v := mix v 1 6 11 12 m[10] m[11]
  let v := mix v 2 7 8 13 m[12] m[13]
  mix v 3 4 9 14 m[14] m[15]

def rounds : Nat → Words → Words → Words
  | 0, v, _ => v
  | n + 1, v, m => rounds n (round v m) (schedule.map (m[·]))

def compress (chain : Chaining) (block : Words) (counter length : Nat) (flags : Flags) : Chaining :=
  let s := startWords
  let v : Words := chain ++ (#v[s[0], s[1], s[2], s[3],
    UInt32.ofNat counter, UInt32.ofNat (counter >>> 32), UInt32.ofNat length, flags.word]
    : Chaining)
  let v := rounds 7 v block
  Vector.ofFn fun i : Fin 8 => v[i.val] ^^^ v[i.val + 8]

/-- Four bytes as a word, least significant first; absent bytes are zero. -/
def littleEndian : Bytes → UInt32
  | [] => 0
  | b :: rest => b.toUInt32 ||| (littleEndian rest <<< 8)

def blockWords (b : Bytes) : Words :=
  Vector.ofFn fun i : Fin 16 => littleEndian ((b.drop (4 * i.val)).take 4)

def chunkLoop (counter : Nat) (root : Bool) : Nat → Chaining → Bool → Bytes → Chaining
  | 0, chain, _, _ => chain
  | n + 1, chain, first, b =>
    let block := b.take 64
    let rest := b.drop 64
    if rest.isEmpty then
      compress chain (blockWords block) counter block.length
        { chunkStart := first, chunkEnd := true, root := root }
    else
      chunkLoop counter root n
        (compress chain (blockWords block) counter 64 { chunkStart := first }) false rest

def chunk (counter : Nat) (root : Bool) (b : Bytes) : Chaining :=
  chunkLoop counter root 16 startWords true b

/-- Bytes in the left subtree of an input longer than one chunk. -/
def leftSize (length : Nat) : Nat := 1024 <<< ((length - 1) / 1024).log2

/-- The value of the tree over `b`, whose first chunk is number `counter`. The
first argument bounds the height of the tree. -/
def subtree : Nat → Nat → Bool → Bytes → Chaining
  | 0, counter, root, b => chunk counter root b
  | height + 1, counter, root, b =>
    if b.length ≤ 1024 then chunk counter root b
    else
      let size := leftSize b.length
      let left := subtree height counter false (b.take size)
      let right := subtree height (counter + size / 1024) false (b.drop size)
      compress startWords (left ++ right) 0 64 { parent := true, root := root }

def wordBytes (w : UInt32) : Bytes :=
  [w.toUInt8, (w >>> 8).toUInt8, (w >>> 16).toUInt8, (w >>> 24).toUInt8]

def blake3 (b : Bytes) : Bytes :=
  (subtree (b.length.log2 + 1) 0 true b).toList.flatMap wordBytes

theorem length_blake3 (b : Bytes) : (blake3 b).length = 32 := by
  simp [blake3, wordBytes, List.length_flatMap, List.map_const']

end ChainRelay.Digest
