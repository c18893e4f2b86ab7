import ChainRelay.BlockFetch.Server
import ChainRelay.Proofs.BlockFetch.Codec
import ChainRelay.Proofs.Chain.Source

/-! What the serving side collects for a range, and that it can be written. -/
namespace ChainRelay.BlockFetch.Server

variable {σ : Type} {chain : ChainSource σ}

theorem collectFrom_step {last : Point} {more : Nat} {cursor : Point} {bodies found : List Bytes}
    {w w' : σ} (ran : (collectFrom chain last more cursor bodies).run w = (.ok (some found), w')) :
    ∃ hash body v, cursor.hash = some hash ∧ (chain.body hash).run w = (.ok (some body), v) ∧
      ((cursor = last ∧ found = (body :: bodies).reverse) ∨
        ∃ fewer next v', more = fewer + 1 ∧ (chain.nextAfter cursor).run v = (.ok (some next), v') ∧
          next.slot ≤ last.slot ∧
          (collectFrom chain last fewer next (body :: bodies)).run v' =
            (.ok (some found), w')) := by
  obtain ⟨slot, hash⟩ := cursor
  cases hash with
  | none =>
    unfold collectFrom at ran
    cases ran
  | some hash =>
    unfold collectFrom at ran
    obtain ⟨stored, v, answered, rest⟩ := Lookup.run_bind_eq_ok.mp ran
    cases stored with
    | none => cases rest
    | some body =>
      refine ⟨hash, body, v, rfl, answered, ?_⟩
      simp only at rest
      split at rest
      · rename_i here
        cases rest
        exact .inl ⟨here, rfl⟩
      · cases more with
        | zero => cases rest
        | succ fewer =>
          obtain ⟨after, v', asked, later⟩ := Lookup.run_bind_eq_ok.mp rest
          cases after with
          | none => cases later
          | some next =>
            simp only at later
            split at later
            · rename_i within
              exact .inr ⟨fewer, next, v', rfl, asked, within, later⟩
            · cases later

theorem length_lt_of_collectFrom (bounded : chain.Bounded) {last : Point} {more : Nat}
    {cursor : Point} {bodies found : List Bytes} {w w' : σ}
    (held : ∀ b ∈ bodies, b.length < UInt64.size)
    (ran : (collectFrom chain last more cursor bodies).run w = (.ok (some found), w')) :
    ∀ b ∈ found, b.length < UInt64.size := by
  -- the induction is on the blocks that may still follow
  induction more generalizing cursor bodies w with
  | zero =>
    obtain ⟨hash, body, v, -, answered, ⟨-, rfl⟩ | ⟨_, _, _, ⟨⟩, -⟩⟩ := collectFrom_step ran
    intro b member
    rcases List.mem_cons.mp (List.mem_reverse.mp member) with rfl | older
    · exact bounded.body answered
    · exact held b older
  | succ more ih =>
    obtain ⟨hash, body, v, -, answered, rest⟩ := collectFrom_step ran
    have longer : ∀ b ∈ body :: bodies, b.length < UInt64.size := by
      intro b member
      rcases List.mem_cons.mp member with rfl | older
      · exact bounded.body answered
      · exact held b older
    rcases rest with ⟨-, rfl⟩ | ⟨_, next, v', ⟨⟩, -, -, later⟩
    · intro b member
      exact longer b (List.mem_reverse.mp member)
    · exact ih longer later

theorem collectFrom_of_collect {maxBatch : Nat} {range : Range} {found : List Bytes} {w w' : σ}
    (ran : (collect chain maxBatch range).run w = (.ok (some found), w')) :
    range.first.slot ≤ range.last.slot ∧
      ∃ v v', (chain.hasPoint range.first).run w = (.ok true, v) ∧
        (chain.hasPoint range.last).run v = (.ok true, v') ∧
        (collectFrom chain range.last (maxBatch - 1) range.first []).run v' =
          (.ok (some found), w') := by
  unfold collect at ran
  split at ran
  · cases ran
  · rename_i ordered
    obtain ⟨firstHeld, v, first, rest⟩ := Lookup.run_bind_eq_ok.mp ran
    cases firstHeld with
    | false => cases rest
    | true =>
      obtain ⟨lastHeld, v', last, walk⟩ := Lookup.run_bind_eq_ok.mp rest
      cases lastHeld with
      | false => cases walk
      | true => exact ⟨UInt64.not_lt.mp ordered, v, v', first, last, walk⟩

theorem fits_answer (bounded : chain.Bounded) {maxBatch : Nat} {range : Range} {w w' : σ}
    {bodies : Except ChainError (Option (List Bytes))}
    (ran : (collect chain maxBatch range).run w = (bodies, w')) : ∀ m ∈ answer bodies, m.Fits := by
  cases bodies with
  | error e => simp [answer, Message.Fits]
  | ok found =>
    cases found with
    | none => simp [answer, Message.Fits]
    | some found =>
      obtain ⟨-, v, v', -, -, walk⟩ := collectFrom_of_collect ran
      have short := length_lt_of_collectFrom bounded (by simp) walk
      intro m member
      simp only [answer, List.cons_append, List.mem_cons, List.mem_append, List.mem_map,
        List.not_mem_nil, or_false] at member
      rcases member with rfl | ⟨b, held, rfl⟩ | rfl
      · trivial
      · exact short b held
      · trivial

end ChainRelay.BlockFetch.Server
