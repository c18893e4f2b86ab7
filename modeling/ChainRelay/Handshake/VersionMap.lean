/-! Finite maps from version numbers, in ascending order. -/
namespace ChainRelay

structure VersionMap (α : Type) where
  entries : List (UInt64 × α)
  ascending : entries.Pairwise fun x y => x.1 < y.1
  deriving Repr

namespace VersionMap

variable {α β : Type}

def empty : VersionMap α := ⟨[], .nil⟩

instance : Inhabited (VersionMap α) := ⟨empty⟩

instance [DecidableEq α] : DecidableEq (VersionMap α) := fun a b =>
  if h : a.entries = b.entries then
    .isTrue (by cases a; cases b; cases h; rfl)
  else .isFalse fun e => h (congrArg entries e)

def insertSorted (version : UInt64) (a : α) : List (UInt64 × α) → List (UInt64 × α)
  | [] => [(version, a)]
  | e :: es =>
    if version < e.1 then (version, a) :: e :: es
    else if e.1 < version then e :: insertSorted version a es
    else (version, a) :: es

theorem mem_insertSorted {version : UInt64} {a : α} {es : List (UInt64 × α)} {e : UInt64 × α}
    (member : e ∈ insertSorted version a es) : e = (version, a) ∨ e ∈ es := by
  induction es with
  | nil => simpa [insertSorted] using member
  | cons first rest ih =>
    simp only [insertSorted] at member
    split at member
    · simpa using member
    · split at member
      · rcases List.mem_cons.mp member with same | later
        · exact .inr (by simp [same])
        · exact (ih later).imp id fun h => by simp [h]
      · rcases List.mem_cons.mp member with same | later
        · exact .inl same
        · exact .inr (by simp [later])

theorem ascending_insertSorted (version : UInt64) (a : α) {es : List (UInt64 × α)}
    (sorted : es.Pairwise fun x y => x.1 < y.1) :
    (insertSorted version a es).Pairwise fun x y => x.1 < y.1 := by
  induction es with
  | nil => simp [insertSorted]
  | cons first rest ih =>
    obtain ⟨below, tail⟩ := List.pairwise_cons.mp sorted
    simp only [insertSorted]
    split
    · rename_i before
      refine List.pairwise_cons.mpr ⟨fun e member => ?_, sorted⟩
      rcases List.mem_cons.mp member with same | later
      · exact same ▸ before
      · exact UInt64.lt_trans before (below e later)
    · split
      · rename_i after
        refine List.pairwise_cons.mpr ⟨fun e member => ?_, ih tail⟩
        rcases mem_insertSorted member with same | later
        · exact same ▸ after
        · exact below e later
      · rename_i notBefore notAfter
        have same : version = first.1 := by
          rw [UInt64.not_lt] at notBefore notAfter
          exact UInt64.le_antisymm notAfter notBefore
        exact List.pairwise_cons.mpr ⟨fun e member => same ▸ below e member, tail⟩

/-- A later entry for a version replaces the earlier one. -/
def insert (m : VersionMap α) (version : UInt64) (a : α) : VersionMap α :=
  ⟨insertSorted version a m.entries, ascending_insertSorted version a m.ascending⟩

def ofList (es : List (UInt64 × α)) : VersionMap α := es.foldl (fun m e => m.insert e.1 e.2) empty

def get? (m : VersionMap α) (version : UInt64) : Option α := m.entries.lookup version

def contains (m : VersionMap α) (version : UInt64) : Bool := (m.get? version).isSome

def versions (m : VersionMap α) : List UInt64 := m.entries.map (·.1)

def size (m : VersionMap α) : Nat := m.entries.length

def isEmpty (m : VersionMap α) : Bool := m.entries.isEmpty

def map (f : UInt64 → α → β) (m : VersionMap α) : VersionMap β :=
  ⟨m.entries.map fun e => (e.1, f e.1 e.2), List.pairwise_map.mpr m.ascending⟩

end VersionMap
end ChainRelay
