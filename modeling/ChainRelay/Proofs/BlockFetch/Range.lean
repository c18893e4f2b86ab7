import ChainRelay.Proofs.BlockFetch.Server
import ChainRelay.Proofs.Chain.Script
import ChainRelay.Proofs.Protocol.Servers

/-! What the serving side answers to a range. Over a chain that answers as its list of
blocks does, it is the blocks of the range, whole, or nothing. Over any chain at all, the
answer has one of the two shapes and costs no more bodies than a batch may have. -/
namespace ChainRelay

variable {σ α β : Type}

/-! ### A tally of the bodies looked up -/

def Lookup.tallied (cost : Nat) (question : Lookup σ α) : Lookup (σ × Nat) α :=
  fun (w, n) => ((question.run w).1, (question.run w).2, n + cost)

/-- The source, with the number of bodies that it has been asked for. -/
def ChainSource.tallied (chain : ChainSource σ) : ChainSource (σ × Nat) where
  hasPoint p := (chain.hasPoint p).tallied 0
  nextAfter p := (chain.nextAfter p).tallied 0
  header hash := (chain.header hash).tallied 0
  body hash := (chain.body hash).tallied 1
  tip := chain.tip.tallied 0

structure Lookup.Within (most : Nat) (x : Lookup σ α) (y : Lookup (σ × Nat) α) : Prop where
  run : ∀ w n, ∃ k ≤ most, y.run (w, n) = ((x.run w).1, (x.run w).2, n + k)

namespace Lookup.Within

theorem tallied (cost : Nat) (question : Lookup σ α) :
    Within cost question (question.tallied cost) := ⟨fun _ _ => ⟨cost, le_rfl, rfl⟩⟩

theorem pure {most : Nat} (a : α) : Within most (Pure.pure a : Lookup σ α) (Pure.pure a) :=
  ⟨fun _ _ => ⟨0, Nat.zero_le most, rfl⟩⟩

theorem mono {few most : Nat} {x : Lookup σ α} {y : Lookup (σ × Nat) α} (within : Within few x y)
    (le : few ≤ most) : Within most x y where
  run w n := by
    obtain ⟨k, small, ran⟩ := within.run w n
    exact ⟨k, small.trans le, ran⟩

theorem bind {a b : Nat} {x : Lookup σ α} {y : Lookup (σ × Nat) α} {f : α → Lookup σ β}
    {g : α → Lookup (σ × Nat) β} (first : Within a x y) (second : ∀ v, Within b (f v) (g v)) :
    Within (a + b) (x >>= f) (y >>= g) where
  run w n := by
    obtain ⟨k, small, ran⟩ := first.run w n
    rw [run_bind, run_bind, ran]
    cases x.run w with
    | mk r v =>
      cases r with
      | error e => exact ⟨k, by omega, rfl⟩
      | ok u =>
        obtain ⟨k', small', ran'⟩ := (second u).run v (n + k)
        exact ⟨k + k', by omega, ran'.trans (by rw [Nat.add_assoc])⟩

end Lookup.Within

namespace BlockFetch.Server
open Lookup (Within)

variable {chain : ChainSource σ}

theorem within_collectFrom (last : Point) (more : Nat) (cursor : Point) (bodies : List Bytes) :
    Within (1 + more) (collectFrom chain last more cursor bodies)
      (collectFrom chain.tallied last more cursor bodies) := by
  unfold collectFrom
  cases cursor.hash with
  | none => exact .pure none
  | some hash =>
    refine (Within.tallied 1 (chain.body hash)).bind fun stored => ?_
    cases stored with
    | none => exact .pure none
    | some body =>
      simp only
      split
      · exact .pure _
      · cases more with
        | zero => exact .pure none
        | succ more =>
          have cost : 0 + (1 + more) ≤ more + 1 := by omega
          refine Within.mono ?_ cost
          refine (Within.tallied 0 (chain.nextAfter cursor)).bind fun next => ?_
          cases next with
          | none => exact .pure none
          | some next =>
            simp only
            split
            · exact within_collectFrom last more next (body :: bodies)
            · exact .pure none

theorem within_collect (chain : ChainSource σ) (maxBatch : Nat) (range : Range) :
    Within (max maxBatch 1) (collect chain maxBatch range)
      (collect chain.tallied maxBatch range) := by
  unfold collect
  split
  · exact .pure none
  · have cost : 0 + (0 + (1 + (maxBatch - 1))) ≤ max maxBatch 1 := by omega
    refine Within.mono ?_ cost
    refine (Within.tallied 0 (chain.hasPoint range.first)).bind fun first => ?_
    cases first with
    | false => exact .pure none
    | true =>
      refine (Within.tallied 0 (chain.hasPoint range.last)).bind fun last => ?_
      cases last with
      | false => exact .pure none
      | true => exact within_collectFrom range.last (maxBatch - 1) range.first []

theorem length_of_collectFrom {last : Point} {more : Nat} {cursor : Point}
    {bodies found : List Bytes} {w w' : σ}
    (ran : (collectFrom chain last more cursor bodies).run w = (.ok (some found), w')) :
    bodies.length < found.length ∧ found.length ≤ bodies.length + 1 + more := by
  induction more generalizing cursor bodies w with
  | zero =>
    obtain ⟨hash, body, v, -, -, ⟨-, rfl⟩ | ⟨_, _, _, ⟨⟩, -⟩⟩ := collectFrom_step ran
    simp
  | succ more ih =>
    obtain ⟨hash, body, v, -, -, ⟨-, rfl⟩ | ⟨_, next, v', ⟨⟩, -, -, later⟩⟩ := collectFrom_step ran
    · simp
    · have counted := ih later
      rw [List.length_cons] at counted
      omega

theorem answer_collect (chain : ChainSource σ) (maxBatch : Nat) (range : Range) (w : σ) :
    answer ((collect chain maxBatch range).run w).1 = [.noBlocks] ∨
      ∃ bodies, bodies ≠ [] ∧ bodies.length ≤ max maxBatch 1 ∧
        answer ((collect chain maxBatch range).run w).1 =
          .startBatch :: bodies.map .block ++ [.batchDone] := by
  cases ran : (collect chain maxBatch range).run w with
  | mk r w' =>
    match r with
    | .error _ | .ok none => exact .inl rfl
    | .ok (some bodies) =>
      obtain ⟨-, _, _, -, -, walked⟩ := collectFrom_of_collect ran
      obtain ⟨some, few⟩ := length_of_collectFrom walked
      refine .inr ⟨bodies, List.ne_nil_of_length_pos some, ?_, rfl⟩
      rw [List.length_nil] at few
      omega

/-! ### Over a chain that is right -/

def span (l : List StoredBlock) (range : Range) : List StoredBlock :=
  l.filter fun b => range.first.slot ≤ b.point.slot ∧ b.point.slot ≤ range.last.slot

/-- Both ends are on the chain, in this order, and a batch may have all blocks between. -/
structure Serves (l : List StoredBlock) (maxBatch : Nat) (range : Range) : Prop where
  first : ∃ b ∈ l, b.point = range.first
  last : ∃ b ∈ l, b.point = range.last
  ordered : range.first.slot ≤ range.last.slot
  short : (span l range).length ≤ max maxBatch 1

variable {known : Point → Prop} {l : List StoredBlock} {w : σ}

theorem span_eq {front within back : List StoredBlock} {b : StoredBlock}
    (ordered : Blocks.Ordered (front ++ b :: within ++ back)) :
    span (front ++ b :: within ++ back) ⟨b.point, Blocks.reach (b :: within)⟩ = b :: within := by
  have upTo := ordered.filter_le_reach (by simp)
  have onward := (ordered.sublist (List.sublist_append_left _ back)).filter_ge_slot
  rw [Blocks.reach_append_cons] at upTo
  rw [← upTo, List.filter_filter] at onward
  simpa [span, Bool.decide_and] using onward

theorem exists_span {range : Range} (ordered : Blocks.Ordered l)
    (first : ∃ b ∈ l, b.point = range.first) (last : ∃ b ∈ l, b.point = range.last)
    (upward : range.first.slot ≤ range.last.slot) :
    ∃ front b within back, l = front ++ b :: within ++ back ∧
      range = ⟨b.point, Blocks.reach (b :: within)⟩ := by
  obtain ⟨b, member, start⟩ := first
  obtain ⟨top, member', stop⟩ := last
  obtain ⟨init, back, rfl⟩ := List.append_of_mem member'
  rw [← List.singleton_append, ← List.append_assoc] at ordered member
  rcases List.mem_append.mp member with early | late
  · obtain ⟨front, within, same⟩ := List.append_of_mem early
    refine ⟨front, b, within, back, by rw [← same]; simp, ?_⟩
    have reached : Blocks.reach (b :: within) = range.last := by
      rw [← Blocks.reach_append_cons front, ← same, Blocks.reach_concat, stop]
    rw [start, reached]
  · have above := (List.pairwise_append.mp ordered.rising).2.2 top (by simp) b late
    rw [start, stop] at above
    exact absurd upward (UInt64.not_le.mpr above)

theorem collectFrom_run (right : chain.Answers known w l) {front within back : List StoredBlock}
    {b : StoredBlock} (whole : l = front ++ b :: within ++ back) (more : Nat)
    (bodies : List Bytes) :
    (collectFrom chain (Blocks.reach (b :: within)) more b.point bodies).run w =
      (.ok (if within.length ≤ more then
        some (bodies.reverse ++ (b :: within).map (·.body)) else none), w) := by
  -- on the blocks still to come; each that is met joins those in front
  induction within generalizing front b more bodies with
  | nil =>
    have member : b ∈ l := by simp [whole]
    have here : b.point = Blocks.reach [b] := rfl
    unfold collectFrom
    simp only [right.ordered.hash_point member, Lookup.run_bind, right.body b member]
    rw [if_pos here, List.length_nil, if_pos (Nat.zero_le more), List.reverse_cons]
    rfl
  | cons next within ih =>
    have member : b ∈ l := by simp [whole]
    obtain ⟨top, held, reached⟩ := Blocks.exists_mem_reach next within
    have last : Blocks.reach (b :: next :: within) = top.point :=
      (Blocks.reach_append_cons [b] next within).trans reached.symm
    have onward : (b :: next :: within).Pairwise fun a b => a.point.slot < b.point.slot := by
      refine right.ordered.rising.sublist ?_
      rw [whole, List.append_assoc]
      exact (List.sublist_append_left _ back).trans (List.sublist_append_right front _)
    obtain ⟨below, rising⟩ := List.pairwise_cons.mp onward
    have apart : b.point ≠ top.point := fun same =>
      UInt64.ne_of_lt (below top held) (congrArg Point.slot same)
    have upTo : next.point.slot ≤ top.point.slot := by
      rcases List.mem_cons.mp held with rfl | later
      · exact UInt64.le_refl _
      · exact UInt64.le_of_lt ((List.pairwise_cons.mp rising).1 top later)
    rw [last]
    unfold collectFrom
    simp only [right.ordered.hash_point member, Lookup.run_bind, right.body b member]
    rw [if_neg apart]
    cases more with
    | zero =>
      have long : ¬ (next :: within).length ≤ 0 := Nat.not_succ_le_zero _
      rw [if_neg long]
      rfl
    | succ more =>
      have further : l = (front ++ [b]) ++ next :: within ++ back := by simp [whole]
      have found := right.nextAfter (front ++ [b]) (next :: within ++ back) (by simp [whole])
      rw [Blocks.reach_concat] at found
      simp only [Lookup.run_bind, found, List.cons_append, List.head?_cons, Option.map_some]
      rw [if_pos upTo, reached, ih further]
      simp

theorem collect_cut (right : chain.Answers known w l) {front within back : List StoredBlock}
    {b : StoredBlock} (whole : l = front ++ b :: within ++ back)
    (upward : b.point.slot ≤ (Blocks.reach (b :: within)).slot) (maxBatch : Nat) :
    (collect chain maxBatch ⟨b.point, Blocks.reach (b :: within)⟩).run w =
      (.ok (if within.length ≤ maxBatch - 1 then some ((b :: within).map (·.body)) else none),
        w) := by
  obtain ⟨top, held, reached⟩ := Blocks.exists_mem_reach b within
  have first := right.hasPoint_of_mem b (by simp [whole])
  have inside : top ∈ front ++ b :: within ++ back :=
    List.mem_append_left back (List.mem_append_right front held)
  have last := right.hasPoint_of_mem top (whole ▸ inside)
  rw [reached] at last
  unfold collect
  rw [if_neg (UInt64.not_lt.mpr upward), Lookup.run_bind, first]
  simp only [Bool.not_true, Bool.false_eq_true, if_false]
  rw [Lookup.run_bind, last]
  exact collectFrom_run right whole (maxBatch - 1) []

theorem run_denied {question : Lookup σ Bool} {r : Except ChainError Bool}
    (ran : question.run w = (r, w)) (denied : r ≠ .ok true)
    (search : Lookup σ (Option (List Bytes))) :
    (question >>= fun found => if !found then return none else search).run w =
      (r.map fun _ => none, w) := by
  rw [Lookup.run_bind, ran]
  cases r with
  | error e => rfl
  | ok found =>
    cases found with
    | false => rfl
    | true => exact absurd rfl denied

theorem answer_map_none (r : Except ChainError Bool) :
    answer (r.map fun _ => none) = [.noBlocks] := by
  cases r <;> rfl

theorem collect_run (right : chain.Answers known w l) (maxBatch : Nat) (range : Range) :
    ∃ found, (collect chain maxBatch range).run w = (found, w) ∧
      (Serves l maxBatch range → found = .ok (some ((span l range).map (·.body)))) ∧
      (¬ Serves l maxBatch range → answer found = [.noBlocks]) := by
  by_cases upward : range.first.slot ≤ range.last.slot
  · rcases right.hasPoint_run range.first with ⟨first, held⟩ | ⟨absent, r, ran, denied, -⟩
    · rcases right.hasPoint_run range.last with ⟨last, -⟩ | ⟨absent, r, ran, denied, -⟩
      · obtain ⟨front, b, within, back, rfl, rfl⟩ := exists_span right.ordered first last upward
        have cut := span_eq right.ordered
        have size : (b :: within).length ≤ max maxBatch 1 ↔ within.length ≤ maxBatch - 1 := by
          rw [List.length_cons]
          omega
        refine ⟨_, collect_cut right rfl upward maxBatch, fun serves => ?_, fun refused => ?_⟩
        · have short := serves.short
          rw [cut] at short ⊢
          rw [if_pos (size.mp short)]
        · have long : ¬ within.length ≤ maxBatch - 1 := fun short =>
            refused ⟨first, last, upward, by rw [cut]; exact size.mpr short⟩
          rw [if_neg long]
          rfl
      · unfold collect
        rw [if_neg (UInt64.not_lt.mpr upward)]
        refine ⟨_, ?_, fun serves => ?_, fun _ => answer_map_none r⟩
        · rw [Lookup.run_bind, held]
          exact run_denied ran denied _
        · obtain ⟨b, member, same⟩ := serves.last
          exact absurd same (absent b member)
    · unfold collect
      rw [if_neg (UInt64.not_lt.mpr upward)]
      refine ⟨_, run_denied ran denied _, fun serves => ?_, fun _ => answer_map_none r⟩
      obtain ⟨b, member, same⟩ := serves.first
      exact absurd same (absent b member)
  · unfold collect
    rw [if_pos (UInt64.not_le.mp upward)]
    exact ⟨.ok none, rfl, fun serves => absurd serves.ordered upward, fun _ => rfl⟩

/-! ### A server that is asked -/

theorem keeps_maxBatch (maxBatch : Nat) :
    (conduct chain).Keeps fun _ s => s.maxBatch = maxBatch where
  ask _ _ same := same
  take := by
    intro _ m s _ w same _ _ _
    cases m with
    | requestRange range => exact same
    | _ => exact same
  give _ same _ _ _ := same
  call same := same
  reset same := same

theorem consume_requestRange (chain : ChainSource σ) {s : Server} (idle : s.state = .idle)
    (range : Range) (w : σ) : (kind chain).consume (.requestRange range) s w =
      .ok ({ s with
          state := .busy
          replies := s.replies ++ answer ((collect chain s.maxBatch range).run w).1 },
        ((collect chain s.maxBatch range).run w).2) := by
  obtain ⟨state, maxBatch, replies⟩ := s
  cases idle
  rfl

/-- An idle server, whatever it has been through, takes in a range. It says the blocks of the
range in one batch if its chain has both ends and a batch may have all of them, and
otherwise that it has none. Whatever its chain answers, it says one or the other, and looks
up no more bodies than a batch may have. -/
theorem serves_range {maxBatch : Nat} {w₀ : σ} {log : List (Note Message Empty)}
    {h : Handle Server} (run : (conduct chain).Run (.new (.new maxBatch), w₀) log (h, w))
    (idle : h.agent.state = .idle) (range : Range) :
    ∃ s w', (kind chain).consume (.requestRange range) h.agent w = .ok (s, w') ∧
      (((kind chain).drain s).2.replies = [] ∧
        (kind chain).takeNext ((kind chain).drain s).2 = none) ∧
      (∀ known l, chain.Answers known w l → w' = w ∧
        (Serves l maxBatch range → ((kind chain).drain s).1 =
          .startBatch :: (span l range).map (fun b => .block b.body) ++ [.batchDone]) ∧
        (¬ Serves l maxBatch range → ((kind chain).drain s).1 = [.noBlocks])) ∧
      (((kind chain).drain s).1 = [.noBlocks] ∨
        ∃ bodies, bodies ≠ [] ∧ bodies.length ≤ max maxBatch 1 ∧
          ((kind chain).drain s).1 = .startBatch :: bodies.map .block ++ [.batchDone]) ∧
      ∀ n, ∃ k ≤ max maxBatch 1,
        (kind chain.tallied).consume (.requestRange range) h.agent (w, n) =
          .ok (s, w', n + k) := by
  obtain ⟨due, -⟩ := replier.run trivial rfl rfl run
  have batch : h.agent.maxBatch = maxBatch := (keeps_maxBatch maxBatch).run run rfl
  have accepted := consume_requestRange chain idle range w
  obtain ⟨live, lacks, next, moved, same⟩ := AgentKind.consume_eq_ok accepted
  have spent : h.agent.replies = [] := due.quiet replier lacks
  have asked := replier.take w due.sane spent live lacks moved
  have here : (conduct chain).kind = kind chain := rfl
  rw [here, ← same, spent, batch, List.nil_append] at asked
  rw [spent, batch, List.nil_append] at accepted
  obtain ⟨said, left, stopped⟩ := replier.drainFor _ asked (Nat.le_succ _)
  refine ⟨_, _, accepted, ⟨left, stopped⟩, ?_, ?_, ?_⟩
  · intro known l right
    obtain ⟨found, ran, whole, nothing⟩ := collect_run right maxBatch range
    rw [ran] at said ⊢
    refine ⟨rfl, fun serves => said.trans ?_, fun refused => said.trans (nothing refused)⟩
    change answer found = _
    rw [whole serves, answer, List.map_map]
    rfl
  · rcases answer_collect chain maxBatch range w with none | ⟨bodies, some, few, batch⟩
    · exact .inl (said.trans none)
    · exact .inr ⟨bodies, some, few, said.trans batch⟩
  · intro n
    obtain ⟨k, few, ran⟩ := (within_collect chain maxBatch range).run w n
    refine ⟨k, few, ?_⟩
    rw [consume_requestRange _ idle, batch, ran, spent, List.nil_append]

open ChainStore (firstBlock otherBlock) in
/-- Of three blocks the first two are as many as a batch may have, and all three are not. -/
theorem serves_range_inMemory :
    let last : StoredBlock := ⟨⟨9, some ⟨List.replicate 32 2, rfl⟩⟩, 3, [0x82], [8]⟩
    let w := (ChainStore.inMemory.appendAll [firstBlock, otherBlock 5, last]).2
    let h : Handle Server := .new (.new 2)
    let c := conduct ChainStore.source
    c.Run (h, w) [] (h, w) ∧ h.agent.state = .idle ∧
      (∃ s w', c.kind.consume (.requestRange ⟨firstBlock.point, (otherBlock 5).point⟩) h.agent w =
          .ok (s, w') ∧ (c.kind.drain s).1 = [.startBatch, .block [], .block [7], .batchDone]) ∧
      ∃ s w', c.kind.consume (.requestRange ⟨firstBlock.point, last.point⟩) h.agent w =
          .ok (s, w') ∧ (c.kind.drain s).1 = [.noBlocks] := by
  intro last w h c
  let l := [firstBlock, otherBlock 5, last]
  have grown : w.Sound ∧ w.blocks = l :=
    ChainStore.sound_inMemory.appendAll (by decide) (by decide) (Prod.ext rfl rfl)
  have right : ChainStore.source.Answers w.Knows w l := grown.2 ▸ grown.1.answers
  have run : c.Run (h, w) [] (h, w) := .nil
  refine ⟨run, rfl, ?_, ?_⟩
  · obtain ⟨s, w', accepted, -, exact, -⟩ :=
      serves_range run rfl ⟨firstBlock.point, (otherBlock 5).point⟩
    have serves : Serves l 2 ⟨firstBlock.point, (otherBlock 5).point⟩ :=
      ⟨⟨firstBlock, by simp [l], rfl⟩, ⟨otherBlock 5, by simp [l], rfl⟩, by decide, by decide⟩
    exact ⟨s, w', accepted, (exact _ l right).2.1 serves⟩
  · obtain ⟨s, w', accepted, -, exact, -⟩ := serves_range run rfl ⟨firstBlock.point, last.point⟩
    have refused : ¬ Serves l 2 ⟨firstBlock.point, last.point⟩ := fun serves =>
      absurd serves.short (by decide)
    exact ⟨s, w', accepted, (exact _ l right).2.2 refused⟩

end BlockFetch.Server
end ChainRelay
