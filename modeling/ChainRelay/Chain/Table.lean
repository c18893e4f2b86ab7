import ChainRelay.Chain.Block

/-! A chain in a database table: one row a block, kept by slot. Slots and heights
are signed 64-bit columns, so a greater number in a statement is refused by the
database, and so is a second row with the same hash. A row's hash is always
present: a block without one is filed under the zero hash and read back with it. -/
namespace ChainRelay

structure TableChain where
  rows : List StoredBlock
  deriving Repr

namespace TableChain

def empty : TableChain := ⟨[]⟩

instance : Inhabited TableChain := ⟨empty⟩

/-- The greatest number that fits a column. -/
def maxColumn : UInt64 := 9223372036854775807

def fits (n : UInt64) : Bool := n ≤ maxColumn

def bind (n : UInt64) : Except ChainError UInt64 := if fits n then .ok n else .error .database

def rowPoint (row : StoredBlock) : Point := ⟨row.point.slot, some row.hash⟩

def rowTip (row : StoredBlock) : Tip := ⟨rowPoint row, row.blockNumber⟩

def lookup (t : TableChain) (p : Point) : Except ChainError (Option UInt64) :=
  match p.hash with
  | none => .ok none
  | some hash => do
    let slot ← bind p.slot
    return (t.rows.find? fun row => row.point.slot = slot && row.hash = hash).map (·.point.slot)

def hasPoint (t : TableChain) (p : Point) : Except ChainError Bool := do
  return (← t.lookup p).isSome

def nextAfter (t : TableChain) (p : Point) : Except ChainError (Option Point) := do
  if p.isOrigin then return t.rows.head?.map rowPoint
  else
    match ← t.lookup p with
    | none => return none
    | some slot => return (t.rows.find? fun row => slot < row.point.slot).map rowPoint

def row? (t : TableChain) (hash : BlockHash) : Option StoredBlock :=
  t.rows.find? fun row => row.hash = hash

def header (t : TableChain) (hash : BlockHash) : Option Bytes := (t.row? hash).map (·.header)

def body (t : TableChain) (hash : BlockHash) : Option Bytes := (t.row? hash).map (·.body)

def tip (t : TableChain) : Option Tip := t.rows.getLast?.map rowTip

/-- The row is added only if its numbers fit and its hash is new. -/
def insert (t : TableChain) (block : StoredBlock) : Except ChainError TableChain := do
  let _ ← bind block.point.slot
  let _ ← bind block.blockNumber
  if (t.row? block.hash).isSome then .error .database
  else return ⟨t.rows ++ [block]⟩

def append (t : TableChain) (block : StoredBlock) :
    Except ChainError (AppendResult × TableChain) := do
  if (← t.lookup block.point).isSome then return (.alreadyExists, t)
  match t.rows.getLast? with
  | some last =>
    if block.point.slot ≤ last.point.slot then
      .error (.notExtending block.point.slot last.point.slot)
    else return (.appended, ← t.insert block)
  | none => return (.appended, ← t.insert block)

def rollback (t : TableChain) (p : Point) : Except ChainError (Nat × TableChain) := do
  if p.isOrigin then return (t.rows.length, empty)
  match ← t.lookup p with
  | none => .error (.notFound p)
  | some slot =>
    let kept := t.rows.filter (·.point.slot ≤ slot)
    return (t.rows.length - kept.length, ⟨kept⟩)

end TableChain
end ChainRelay
