import ChainRelay.Proofs.Chain.Indexed
import ChainRelay.Proofs.Chain.Table

/-! A chain of either kind answers as its list of blocks does, and is changed only at its
end. -/
namespace ChainRelay

namespace ChainBackend

def blocks : ChainBackend → List StoredBlock
  | indexed c => c.blocks
  | table t => t.rows

def Exact : ChainBackend → Prop
  | indexed c => c.Exact
  | table t => t.Exact

/-- Which points may be asked about. A table refuses those beyond its columns. -/
def Knows : ChainBackend → Point → Prop
  | indexed _, _ => True
  | table _, p => p.hash.isSome → TableChain.fits p.slot = true

end ChainBackend

namespace ChainStore

def blocks (s : ChainStore) : List StoredBlock := s.backend.blocks

def Knows (s : ChainStore) : Point → Prop := s.backend.Knows

/-- No call is made to fail, and what is filed can be found. -/
structure Sound (s : ChainStore) : Prop where
  faults : s.faults = []
  exact : s.backend.Exact

theorem sound_inMemory : Sound inMemory := ⟨rfl, IndexedChain.exact_empty⟩

theorem sound_inTable : Sound inTable := ⟨rfl, TableChain.exact_empty⟩

@[elab_as_elim]
theorem Sound.elim {motive : (s : ChainStore) → Sound s → Prop}
    (indexed : ∀ (c : IndexedChain) (exact : c.Exact), motive ⟨.indexed c, []⟩ ⟨rfl, exact⟩)
    (table : ∀ (t : TableChain) (exact : t.Exact), motive ⟨.table t, []⟩ ⟨rfl, exact⟩)
    (s : ChainStore) (sound : Sound s) : motive s sound := by
  obtain ⟨backend, faults⟩ := s
  cases sound.faults
  cases backend with
  | indexed c => exact indexed c sound.exact
  | table t => exact table t sound.exact

variable {s : ChainStore}

theorem guard_of_no_faults (usual : s.faults = []) {α : Type} (fault : Fault)
    (answer : Except ChainError α) : s.guard fault answer = answer := by
  rw [ChainStore.guard, usual]
  rfl

theorem ask_run {α : Type} {question : ChainStore → Except ChainError α} {fault : Fault}
    {answer a : Except ChainError α} (usual : s.faults = [])
    (guarded : question s = s.guard fault answer) (same : answer = a) :
    (ask question).run s = (a, s) :=
  congrArg (·, s) (guarded.trans ((guard_of_no_faults usual fault answer).trans same))

theorem answers_indexed {c : IndexedChain} (exact : c.Exact) :
    source.Answers (fun _ => True) ⟨.indexed c, []⟩ c.blocks where
  ordered := exact.ordered
  known_of_mem _ _ := trivial
  hasPoint_of_mem b member := by
    have here : c.hasPoint b.point = true := (exact.hasPoint b.point).mpr ⟨b, member, rfl⟩
    exact ask_run rfl rfl (congrArg Except.ok here)
  hasPoint_of_not_mem p _ absent := by
    have missing : c.hasPoint p = false := by
      refine Bool.eq_false_iff.mpr fun found => ?_
      obtain ⟨b, member, same⟩ := (exact.hasPoint p).mp found
      exact absent b member same
    exact ask_run rfl rfl (congrArg Except.ok missing)
  hasPoint_of_unknown _ unknown := absurd trivial unknown
  nextAfter _ _ cut := ask_run rfl rfl (congrArg Except.ok (exact.nextAfter cut))
  header b member := by
    have stored : c.header b.hash = some b.header :=
      congrArg (Option.map StoredBlock.header) (exact.find?_hash member)
    exact ask_run rfl rfl (congrArg Except.ok stored)
  body b member := by
    have stored : c.body b.hash = some b.body :=
      congrArg (Option.map StoredBlock.body) (exact.find?_hash member)
    exact ask_run rfl rfl (congrArg Except.ok stored)
  tip := ask_run rfl rfl rfl

theorem answers_table {t : TableChain} (exact : t.Exact) :
    source.Answers (fun p => p.hash.isSome → TableChain.fits p.slot = true) ⟨.table t, []⟩
      t.rows where
  ordered := exact.ordered
  known_of_mem b member _ := exact.narrow b member
  hasPoint_of_mem b member := by
    have here : t.hasPoint b.point = .ok true := by
      rw [TableChain.hasPoint, exact.lookup_of_mem member]
      rfl
    exact ask_run rfl rfl here
  hasPoint_of_not_mem p narrow absent := by
    have missing : t.hasPoint p = .ok false := by
      rw [TableChain.hasPoint, exact.lookup_of_not_mem narrow absent]
      rfl
    exact ask_run rfl rfl missing
  hasPoint_of_unknown p wide := by
    have refused : t.hasPoint p = .error .database := by
      rw [TableChain.hasPoint, TableChain.lookup_of_wide wide]
      rfl
    exact ⟨.database, ask_run rfl rfl refused⟩
  nextAfter _ _ cut := ask_run rfl rfl (exact.nextAfter cut)
  header b member := by
    have stored : t.header b.hash = some b.header :=
      congrArg (Option.map StoredBlock.header) (exact.ordered.find?_hash member)
    exact ask_run rfl rfl (congrArg Except.ok stored)
  body b member := by
    have stored : t.body b.hash = some b.body :=
      congrArg (Option.map StoredBlock.body) (exact.ordered.find?_hash member)
    exact ask_run rfl rfl (congrArg Except.ok stored)
  tip := by
    have last : t.tip = t.rows.getLast?.map (·.tip) := by
      rw [TableChain.tip]
      refine Option.map_congr fun row top => ?_
      rw [TableChain.rowTip, exact.rowPoint (List.mem_of_getLast? top)]
      rfl
    exact ask_run rfl rfl (congrArg Except.ok last)

theorem Sound.answers (sound : Sound s) : source.Answers s.Knows s s.blocks := by
  obtain ⟨backend, faults⟩ := s
  cases sound.faults
  cases backend with
  | indexed c => exact answers_indexed sound.exact
  | table t => exact answers_table sound.exact

open Cbor (bind_eq_ok)

theorem Sound.append (sound : Sound s) {b : StoredBlock} (hash : b.point.hash.isSome)
    (fresh : ∀ a ∈ s.blocks, a.point.hash = b.point.hash → a.point = b.point)
    {r : AppendResult} {s' : ChainStore} (done : s.append b = .ok (r, s')) :
    Sound s' ∧ s'.Knows = s.Knows ∧
      ((s'.blocks = s.blocks ∧ ∃ a ∈ s.blocks, a.point = b.point) ∨
        s'.blocks = s.blocks ++ [b]) := by
  rw [ChainStore.append, guard_of_no_faults sound.faults] at done
  have exact := sound.exact
  obtain ⟨backend, faults⟩ := s
  cases backend with
  | indexed c =>
    obtain ⟨⟨result, c'⟩, appended, same⟩ := bind_eq_ok.mp done
    cases same
    obtain ⟨kept, grown⟩ := IndexedChain.Exact.append exact hash fresh appended
    exact ⟨⟨sound.faults, kept⟩, rfl, grown⟩
  | table t =>
    obtain ⟨⟨result, t'⟩, appended, same⟩ := bind_eq_ok.mp done
    cases same
    obtain ⟨kept, grown⟩ := TableChain.Exact.append exact hash appended
    exact ⟨⟨sound.faults, kept⟩, rfl, grown⟩

theorem Sound.appendAll (sound : Sound s) {l : List StoredBlock}
    (hashed : ∀ b ∈ l, b.point.hash.isSome)
    (distinct : (s.blocks ++ l).Pairwise fun a b => a.point.hash ≠ b.point.hash) {s' : ChainStore}
    (done : s.appendAll l = (.ok (), s')) : Sound s' ∧ s'.blocks = s.blocks ++ l := by
  induction l generalizing s with
  | nil =>
    cases done
    exact ⟨sound, (List.append_nil _).symm⟩
  | cons b l ih =>
    rw [ChainStore.appendAll] at done
    split at done
    · rename_i r s₁ added
      have fresh : ∀ a ∈ s.blocks, a.point.hash ≠ b.point.hash := fun a member =>
        (List.pairwise_append.mp distinct).2.2 a member b List.mem_cons_self
      obtain ⟨kept, -, ⟨-, a, member, same⟩ | grown⟩ := sound.append (hashed b List.mem_cons_self)
        (fun a member same => absurd same (fresh a member)) added
      · exact absurd (congrArg Point.hash same) (fresh a member)
      · have whole : s₁.blocks ++ l = s.blocks ++ b :: l := by
          rw [grown, List.append_assoc, List.singleton_append]
        rw [← whole] at distinct ⊢
        exact ih kept (fun a member => hashed a (List.mem_cons_of_mem b member)) distinct done
    · cases done

theorem Sound.rollback (sound : Sound s) {p : Point} {n : Nat} {s' : ChainStore}
    (done : s.rollback p = .ok (n, s')) :
    Sound s' ∧ s'.Knows = s.Knows ∧ s'.blocks <+: s.blocks := by
  rw [ChainStore.rollback, guard_of_no_faults sound.faults] at done
  have exact := sound.exact
  obtain ⟨backend, faults⟩ := s
  cases backend with
  | indexed c =>
    obtain ⟨⟨removed, c'⟩, rolled, same⟩ := bind_eq_ok.mp done
    cases same
    obtain ⟨kept, front⟩ := IndexedChain.Exact.rollback exact rolled
    exact ⟨⟨sound.faults, kept⟩, rfl, front⟩
  | table t =>
    obtain ⟨⟨removed, t'⟩, rolled, same⟩ := bind_eq_ok.mp done
    cases same
    obtain ⟨kept, front⟩ := TableChain.Exact.rollback exact rolled
    exact ⟨⟨sound.faults, kept⟩, rfl, front⟩

end ChainStore
end ChainRelay
