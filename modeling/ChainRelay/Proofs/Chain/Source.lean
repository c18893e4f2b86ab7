import ChainRelay.Chain.Source

/-! Questions to a chain, answered in turn. -/
namespace ChainRelay

variable {σ α β : Type}

namespace Lookup

theorem run_bind (x : Lookup σ α) (f : α → Lookup σ β) (w : σ) :
    (x >>= f).run w = match x.run w with
      | (.ok a, w) => (f a).run w
      | (.error e, w) => (.error e, w) := by
  change (ExceptT.bindCont f (x.run w).1) (x.run w).2 = _
  cases x.run w with
  | mk r w' => cases r <;> rfl

theorem run_bind_eq_ok {x : Lookup σ α} {f : α → Lookup σ β} {w w' : σ} {b : β} :
    (x >>= f).run w = (.ok b, w') ↔
      ∃ a v, x.run w = (.ok a, v) ∧ (f a).run v = (.ok b, w') := by
  rw [run_bind]
  cases x.run w with
  | mk r v =>
    cases r with
    | error e =>
      constructor
      · intro failed
        cases failed
      · rintro ⟨a, v, failed, -⟩
        cases failed
    | ok a =>
      constructor
      · intro answered
        exact ⟨a, v, rfl, answered⟩
      · rintro ⟨a, v, ⟨⟩, answered⟩
        exact answered

end Lookup

/-- Stored headers and bodies are no longer than a machine word can tell. -/
structure ChainSource.Bounded (chain : ChainSource σ) : Prop where
  header : ∀ {hash w b w'}, (chain.header hash).run w = (.ok (some b), w') → b.length < UInt64.size
  body : ∀ {hash w b w'}, (chain.body hash).run w = (.ok (some b), w') → b.length < UInt64.size

end ChainRelay
