import ChainRelay.Chain.Table

/-! The file that a table of blocks is kept in. Its layout has versions, and the file says
which of them it has been brought to. Opening a file brings it to the current version, one
version after the other, and leaves a file that is there already as it is. -/
namespace ChainRelay

structure Database where
  /-- the versions put in place so far, once the file has been opened -/
  versions : Option (List Nat)
  blocks : Option TableChain
  deriving Repr

namespace Database

def blank : Database := ⟨none, none⟩

def holding (t : TableChain) : Database := ⟨some [1], some t⟩

def currentVersion : Nat := 1

def createBlocks (d : Database) : Except ChainError Database :=
  match d.blocks with
  | none => .ok { d with blocks := some .empty }
  | some _ => .error .database

def extend (d : Database) : Nat → Except ChainError Database
  | 1 => d.createBlocks
  | version => .error (.migration version)

def note (d : Database) (version : Nat) : Except ChainError Database :=
  let noted := d.versions.getD []
  if version ∈ noted then .error .database
  else .ok { d with versions := some (noted ++ [version]) }

/-- The versions beyond those noted are put in place in order, all or none. -/
def migrate (d : Database) : Except ChainError Database :=
  let noted := d.versions.getD []
  let version := noted.foldl max 0
  let missing := List.range' (version + 1) (currentVersion - version)
  missing.foldlM (fun d version => do (← d.extend version).note version)
    { d with versions := some noted }

def connect (d : Database) : Except ChainError TableChain := do
  match (← d.migrate).blocks with
  | some t => return t
  | none => .error .database

end Database
end ChainRelay
