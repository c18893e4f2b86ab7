import ChainRelay.Proofs.Chain.Store

/-! Chains whose lookups do not fail. Nothing more is asked of the answers than that they
leave the chain as it is: an index that is wrong answers too. A chain in memory is such a
chain, and so is a table for the points that its columns can hold. -/
namespace ChainRelay

variable {σ ι : Type}

/-- No lookup fails at `w`, apart from those of points that are not `known`, and none changes
the world. What follows a known point is known. -/
structure ChainSource.Unfailing (chain : ChainSource σ) (known : Point → Prop) (w : σ) : Prop where
  known_origin : known .origin
  hasPoint : ∀ p, known p → ∃ here, (chain.hasPoint p).run w = (.ok here, w)
  refused : ∀ p, ¬ known p → ∃ e, (chain.hasPoint p).run w = (.error e, w)
  nextAfter : ∀ p, known p →
    ∃ next, (chain.nextAfter p).run w = (.ok next, w) ∧ ∀ q ∈ next, known q
  header : ∀ hash, ∃ stored, (chain.header hash).run w = (.ok stored, w)
  body : ∀ hash, ∃ stored, (chain.body hash).run w = (.ok stored, w)
  tip : ∃ top, chain.tip.run w = (.ok top, w)

def ChainStore.askAmong {α : Type} (stores : ι → ChainStore)
    (question : ChainStore → Except ChainError α) : Lookup ι α :=
  fun i => (question (stores i), i)

/-- A chain that is one of several stores at each moment, and is not changed by lookups. -/
def ChainStore.among (stores : ι → ChainStore) : ChainSource ι where
  hasPoint p := askAmong stores (·.hasPoint p)
  nextAfter p := askAmong stores (·.nextAfter p)
  header hash := askAmong stores (·.header hash)
  body hash := askAmong stores (·.body hash)
  tip := askAmong stores (·.tip)

namespace TableChain

variable {t : TableChain} {p : Point}

theorem lookup_of_fits (narrow : p.hash.isSome → fits p.slot = true) :
    ∃ found, t.lookup p = .ok found := by
  obtain ⟨slot, hash⟩ := p
  cases hash with
  | none => exact ⟨none, rfl⟩
  | some hash =>
    simp only [lookup, bind_of_fits (narrow rfl), Bind.bind, Except.bind]
    exact ⟨_, rfl⟩

theorem nextAfter_of_fits (narrow : p.hash.isSome → fits p.slot = true) :
    ∃ next, t.nextAfter p = .ok next ∧ ∀ q ∈ next, ∃ row ∈ t.rows, q.slot = row.point.slot := by
  unfold nextAfter
  split
  · refine ⟨t.rows.head?.map rowPoint, rfl, fun q first => ?_⟩
    obtain ⟨row, head, rfl⟩ := Option.map_eq_some_iff.mp first
    exact ⟨row, List.mem_of_head? head, rfl⟩
  · obtain ⟨found, looked⟩ := lookup_of_fits (t := t) narrow
    cases found with
    | none => exact ⟨none, by rw [looked]; rfl, nofun⟩
    | some slot =>
      refine ⟨(t.rows.find? fun row => slot < row.point.slot).map rowPoint, by rw [looked]; rfl,
        fun q after => ?_⟩
      obtain ⟨row, found, rfl⟩ := Option.map_eq_some_iff.mp after
      exact ⟨row, List.mem_of_find?_eq_some found, rfl⟩

end TableChain

namespace ChainStore

theorem unfailing_indexed (c : IndexedChain) :
    source.Unfailing (fun _ => True) ⟨.indexed c, []⟩ where
  known_origin := trivial
  hasPoint _ _ := ⟨_, ask_run rfl rfl rfl⟩
  refused _ unknown := absurd trivial unknown
  nextAfter _ _ := ⟨_, ask_run rfl rfl rfl, fun _ _ => trivial⟩
  header _ := ⟨_, ask_run rfl rfl rfl⟩
  body _ := ⟨_, ask_run rfl rfl rfl⟩
  tip := ⟨_, ask_run rfl rfl rfl⟩

theorem unfailing_table {t : TableChain} (narrow : ∀ row ∈ t.rows, TableChain.fits row.point.slot) :
    source.Unfailing (fun p => p.hash.isSome → TableChain.fits p.slot = true) ⟨.table t, []⟩ where
  known_origin := nofun
  hasPoint p fit := by
    obtain ⟨found, looked⟩ := TableChain.lookup_of_fits (t := t) fit
    have answer : t.hasPoint p = .ok found.isSome := by
      rw [TableChain.hasPoint, looked]
      rfl
    exact ⟨_, ask_run rfl rfl answer⟩
  refused p wide := by
    have answer : t.hasPoint p = .error .database := by
      rw [TableChain.hasPoint, TableChain.lookup_of_wide wide]
      rfl
    exact ⟨_, ask_run rfl rfl answer⟩
  nextAfter p fit := by
    obtain ⟨next, answer, rows⟩ := TableChain.nextAfter_of_fits (t := t) fit
    refine ⟨next, ask_run rfl rfl answer, fun q follows _ => ?_⟩
    obtain ⟨row, member, slot⟩ := rows q follows
    rw [slot]
    exact narrow row member
  header _ := ⟨_, ask_run rfl rfl rfl⟩
  body _ := ⟨_, ask_run rfl rfl rfl⟩
  tip := ⟨_, ask_run rfl rfl rfl⟩

/-- No lookup of a store without faults fails, though its index may be wrong. -/
theorem Sound.unfailing {s : ChainStore} (sound : s.Sound) : source.Unfailing s.Knows s := by
  induction s, sound using Sound.elim with
  | indexed c _ => exact unfailing_indexed c
  | table t exact => exact unfailing_table exact.narrow

theorem askAmong_run {α : Type} {stores : ι → ChainStore} {i : ι}
    {question : ChainStore → Except ChainError α} {r : Except ChainError α}
    (answer : (ask question).run (stores i) = (r, stores i)) :
    (askAmong stores question).run i = (r, i) := by
  have same : question (stores i) = r := congrArg Prod.fst answer
  exact congrArg (·, i) same

end ChainStore

theorem ChainSource.Unfailing.among {stores : ι → ChainStore} {known : Point → Prop} {i : ι}
    (unfailing : ChainStore.source.Unfailing known (stores i)) :
    (ChainStore.among stores).Unfailing known i where
  known_origin := unfailing.known_origin
  hasPoint p fit := (unfailing.hasPoint p fit).imp fun _ => ChainStore.askAmong_run
  refused p wide := (unfailing.refused p wide).imp fun _ => ChainStore.askAmong_run
  nextAfter p fit :=
    (unfailing.nextAfter p fit).imp fun _ ⟨answer, kept⟩ => ⟨ChainStore.askAmong_run answer, kept⟩
  header hash := (unfailing.header hash).imp fun _ => ChainStore.askAmong_run
  body hash := (unfailing.body hash).imp fun _ => ChainStore.askAmong_run
  tip := unfailing.tip.imp fun _ => ChainStore.askAmong_run

theorem ChainSource.Answers.among {stores : ι → ChainStore} {known : Point → Prop} {i : ι}
    {l : List StoredBlock} (right : ChainStore.source.Answers known (stores i) l) :
    (ChainStore.among stores).Answers known i l where
  ordered := right.ordered
  known_of_mem := right.known_of_mem
  hasPoint_of_mem b member := ChainStore.askAmong_run (right.hasPoint_of_mem b member)
  hasPoint_of_not_mem p fit absent :=
    ChainStore.askAmong_run (right.hasPoint_of_not_mem p fit absent)
  hasPoint_of_unknown p wide :=
    (right.hasPoint_of_unknown p wide).imp fun _ => ChainStore.askAmong_run
  nextAfter front back cut := ChainStore.askAmong_run (right.nextAfter front back cut)
  header b member := ChainStore.askAmong_run (right.header b member)
  body b member := ChainStore.askAmong_run (right.body b member)
  tip := ChainStore.askAmong_run right.tip

end ChainRelay
