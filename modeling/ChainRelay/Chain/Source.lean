import ChainRelay.Chain.Store

/-! What a server asks of a chain. An answer may fail, and may depend on and change
a state `σ`, so a source can be any backend, or one that answers at whim. -/
namespace ChainRelay

abbrev Lookup (σ α : Type) := ExceptT ChainError (StateM σ) α

structure ChainSource (σ : Type) where
  /-- is the point on the chain? The origin is no block. -/
  hasPoint : Point → Lookup σ Bool
  /-- the block that follows; the first one after the origin -/
  nextAfter : Point → Lookup σ (Option Point)
  header : BlockHash → Lookup σ (Option Bytes)
  body : BlockHash → Lookup σ (Option Bytes)
  tip : Lookup σ (Option Tip)

def ChainStore.ask {α : Type} (question : ChainStore → Except ChainError α) :
    Lookup ChainStore α :=
  fun s => (question s, s)

def ChainStore.source : ChainSource ChainStore where
  hasPoint p := ask (·.hasPoint p)
  nextAfter p := ask (·.nextAfter p)
  header hash := ask (·.header hash)
  body hash := ask (·.body hash)
  tip := ask (·.tip)

end ChainRelay
