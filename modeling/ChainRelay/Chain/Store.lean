import ChainRelay.Chain.Database
import ChainRelay.Chain.Indexed

/-! A chain of either kind, with the calls that are made to fail. -/
namespace ChainRelay

/-- A call that fails, or a lookup that answers nothing. -/
inductive Fault where
  | hasPoint | nextAfter | header | body | tip | append | rollback
  | noHeader | noBody
  deriving DecidableEq, Repr

inductive ChainBackend where
  | indexed (chain : IndexedChain)
  | table (chain : TableChain)
  deriving Repr, Inhabited

structure ChainStore where
  backend : ChainBackend
  faults : List Fault
  deriving Repr, Inhabited

namespace ChainStore

def inMemory : ChainStore := ⟨.indexed .empty, []⟩

def inTable : ChainStore := ⟨.table .empty, []⟩

/-- Where a table is kept; a path without its directory cannot be opened. -/
inductive Location where
  | memory
  | file
  | unreachable
  deriving DecidableEq, Repr

def openTable : Location → Except ChainError ChainStore
  | .unreachable => .error .database
  | .memory | .file => do return ⟨.table (← Database.blank.connect), []⟩

def reopen (s : ChainStore) : Except ChainError ChainStore :=
  match s.backend with
  | .indexed _ => .ok s
  | .table t => do return { s with backend := .table (← (Database.holding t).connect) }

def guard {α : Type} (s : ChainStore) (fault : Fault) (answer : Except ChainError α) :
    Except ChainError α :=
  if fault ∈ s.faults then .error (.unavailable "down") else answer

def hasPoint (s : ChainStore) (p : Point) : Except ChainError Bool :=
  s.guard .hasPoint <|
    match s.backend with
    | .indexed c => .ok (c.hasPoint p)
    | .table t => t.hasPoint p

def nextAfter (s : ChainStore) (p : Point) : Except ChainError (Option Point) :=
  s.guard .nextAfter <|
    match s.backend with
    | .indexed c => .ok (c.nextAfter p)
    | .table t => t.nextAfter p

def header (s : ChainStore) (hash : BlockHash) : Except ChainError (Option Bytes) :=
  s.guard .header <|
    if .noHeader ∈ s.faults then .ok none
    else
      match s.backend with
      | .indexed c => .ok (c.header hash)
      | .table t => .ok (t.header hash)

def body (s : ChainStore) (hash : BlockHash) : Except ChainError (Option Bytes) :=
  s.guard .body <|
    if .noBody ∈ s.faults then .ok none
    else
      match s.backend with
      | .indexed c => .ok (c.body hash)
      | .table t => .ok (t.body hash)

def tip (s : ChainStore) : Except ChainError (Option Tip) :=
  s.guard .tip <|
    match s.backend with
    | .indexed c => .ok c.tip
    | .table t => .ok t.tip

def append (s : ChainStore) (block : StoredBlock) :
    Except ChainError (AppendResult × ChainStore) :=
  s.guard .append <|
    match s.backend with
    | .indexed c => do
      let (result, c) ← c.append block
      return (result, { s with backend := .indexed c })
    | .table t => do
      let (result, t) ← t.append block
      return (result, { s with backend := .table t })

def rollback (s : ChainStore) (p : Point) : Except ChainError (Nat × ChainStore) :=
  s.guard .rollback <|
    match s.backend with
    | .indexed c => do
      let (removed, c) ← c.rollback p
      return (removed, { s with backend := .indexed c })
    | .table t => do
      let (removed, t) ← t.rollback p
      return (removed, { s with backend := .table t })

/-- Append blocks in order and stop at the first that is refused; those before it
stay. -/
def appendAll (s : ChainStore) : List StoredBlock → Except ChainError Unit × ChainStore
  | [] => (.ok (), s)
  | block :: rest =>
    match s.append block with
    | .ok (_, s) => appendAll s rest
    | .error e => (.error e, s)

def walk (s : ChainStore) (limit : Nat) : Except ChainError (List Point) :=
  go limit .origin []
where
  go : Nat → Point → List Point → Except ChainError (List Point)
    | 0, _, seen => .ok seen.reverse
    | n + 1, after, seen => do
      match ← s.nextAfter after with
      | none => return seen.reverse
      | some p => go n p (p :: seen)

end ChainStore
end ChainRelay
