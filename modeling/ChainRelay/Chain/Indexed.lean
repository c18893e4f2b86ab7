import ChainRelay.Chain.Block

/-! A chain in memory: the blocks in order, and an index from hashes to places.
Filing a second block under a hash moves the index entry to it, and dropping a
block drops the entry of its hash. -/
namespace ChainRelay

structure IndexedChain where
  blocks : List StoredBlock
  index : List (BlockHash × Nat)
  deriving Repr

namespace IndexedChain

def empty : IndexedChain := ⟨[], []⟩

instance : Inhabited IndexedChain := ⟨empty⟩

def find? (c : IndexedChain) (hash : BlockHash) : Option Nat := c.index.lookup hash

def block? (c : IndexedChain) (hash : BlockHash) : Option StoredBlock := do
  c.blocks[← c.find? hash]?

def position (c : IndexedChain) (p : Point) : Option Nat := do
  let place ← c.find? (← p.hash)
  let block ← c.blocks[place]?
  if block.point.slot = p.slot then some place else none

def hasPoint (c : IndexedChain) (p : Point) : Bool := (c.position p).isSome

/-- The first block after the origin; nothing after an unknown point or the tip. -/
def nextAfter (c : IndexedChain) (p : Point) : Option Point :=
  let next := if p.isOrigin then some 0 else (c.position p).map (· + 1)
  next.bind fun place => (c.blocks[place]?).map (·.point)

def header (c : IndexedChain) (hash : BlockHash) : Option Bytes := (c.block? hash).map (·.header)

def body (c : IndexedChain) (hash : BlockHash) : Option Bytes := (c.block? hash).map (·.body)

def tip (c : IndexedChain) : Option Tip := c.blocks.getLast?.map (·.tip)

def unfile (index : List (BlockHash × Nat)) (hash : BlockHash) : List (BlockHash × Nat) :=
  index.filter (·.1 ≠ hash)

def push (c : IndexedChain) (block : StoredBlock) : IndexedChain :=
  ⟨c.blocks ++ [block], (block.hash, c.blocks.length) :: unfile c.index block.hash⟩

/-- A block that is already there changes nothing; any other must have a greater
slot than the tip. -/
def append (c : IndexedChain) (block : StoredBlock) :
    Except ChainError (AppendResult × IndexedChain) :=
  if c.hasPoint block.point then .ok (.alreadyExists, c)
  else
    match c.blocks.getLast? with
    | some last =>
      if block.point.slot ≤ last.point.slot then
        .error (.notExtending block.point.slot last.point.slot)
      else .ok (.appended, c.push block)
    | none => .ok (.appended, c.push block)

def truncate (c : IndexedChain) (keep : Nat) : Nat × IndexedChain :=
  let removed := c.blocks.drop keep
  (removed.length, ⟨c.blocks.take keep, removed.foldl (fun index b => unfile index b.hash) c.index⟩)

def rollback (c : IndexedChain) (p : Point) : Except ChainError (Nat × IndexedChain) :=
  if p.isOrigin then .ok (c.truncate 0)
  else
    match c.position p with
    | some place => .ok (c.truncate (place + 1))
    | none => .error (.notFound p)

end IndexedChain
end ChainRelay
