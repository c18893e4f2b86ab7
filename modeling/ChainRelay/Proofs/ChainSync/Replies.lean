import ChainRelay.Proofs.ChainSync.Server

/-! What a call adds to the replies of a chain-sync server, over a chain that may answer
anything. A search gets one answer, a request gets an update or the promise of one, and a
notification adds an update only for a client that waits for it. -/
namespace ChainRelay.ChainSync

def Message.updates : Message → Bool
  | .rollForward _ _ | .rollBackward _ _ => true
  | _ => false

namespace Server

variable {σ : Type} (chain : ChainSource σ)

theorem updates_nextUpdate {s : Server} {w : σ} {m : Message}
    (made : (nextUpdate chain s w).1 = .ok (some m)) : m.updates = true := by
  unfold nextUpdate at made
  split at made
  · cases made
  · split at made
    · cases made
    · split at made
      · cases made
      · cases made
        rfl
    · split at made
      · cases made
        rfl
      · split at made
        · cases made
        · cases made
        · cases made
          rfl

theorem received_findIntersect_eq (points : List Point) (s : Server) (w : σ) :
    ∃ reply sent owesRollback tipWaiting,
      (received chain (.findIntersect points) s w).1 =
        { s with sent, owesRollback, tipWaiting, replies := s.replies ++ [reply] } ∧
      ((∃ p t, reply = .intersectFound p t) ∨ ∃ t, reply = .intersectNotFound t) ∧
      (tipWaiting = true → s.tipWaiting = true) := by
  simp only [received, findIntersect]
  split
  · exact ⟨_, _, _, _, rfl, .inl ⟨_, _, rfl⟩, by rintro ⟨⟩⟩
  · exact ⟨_, _, _, _, rfl, .inr ⟨_, rfl⟩, id⟩

theorem received_requestNext_eq (s : Server) (w : σ) :
    ∃ reply sent owesRollback tipWaiting,
      (received chain .requestNext s w).1 =
        { s with sent, owesRollback, tipWaiting, replies := s.replies ++ [reply] } ∧
      (reply = .awaitReply ∨ reply.updates = true ∧ tipWaiting = s.tipWaiting) := by
  obtain ⟨sent, owesRollback, frame⟩ := nextUpdate_frame chain s w
  simp only [received, requestNext]
  split
  · exact ⟨_, _, _, _, rfl, .inl rfl⟩
  · split
    · rename_i update t v found
      rw [found] at frame
      obtain rfl : t = _ := frame
      exact ⟨_, _, _, _, rfl, .inr ⟨updates_nextUpdate chain (congrArg Prod.fst found), rfl⟩⟩
    · rename_i r t v _ found
      rw [found] at frame
      obtain rfl : t = _ := frame
      exact ⟨_, _, _, _, rfl, .inl rfl⟩

theorem notifyNewBlock_eq (s : Server) (w : σ) :
    ∃ sent owesRollback, (notifyNewBlock chain s w).1 = { s with sent, owesRollback } ∨
      s.tipWaiting = true ∧ s.hasAgency = true ∧ ∃ update : Message, update.updates = true ∧
        (notifyNewBlock chain s w).1 =
          { s with sent, owesRollback, tipWaiting := false, replies := s.replies ++ [update] } := by
  obtain ⟨sent, owesRollback, frame⟩ := nextUpdate_frame chain s w
  unfold notifyNewBlock
  split
  · rename_i turn
    obtain ⟨waits, holds⟩ := Bool.and_eq_true_iff.mp turn
    split
    · rename_i update t v found
      rw [found] at frame
      obtain rfl : t = _ := frame
      exact ⟨sent, owesRollback, .inr ⟨waits, holds, update,
        updates_nextUpdate chain (congrArg Prod.fst found), rfl⟩⟩
    · rename_i r t v _ found
      rw [found] at frame
      obtain rfl : t = _ := frame
      exact ⟨sent, owesRollback, .inl rfl⟩
  · exact ⟨s.sent, s.owesRollback, .inl rfl⟩

theorem received_adds (m : Message) (s : Server) (w : σ) :
    (received chain m s w).1.state = s.state ∧ s.replies <+: (received chain m s w).1.replies := by
  cases m with
  | findIntersect points =>
    obtain ⟨reply, sent, owesRollback, tipWaiting, same, -⟩ :=
      received_findIntersect_eq chain points s w
    rw [same]
    exact ⟨rfl, List.prefix_append _ _⟩
  | requestNext =>
    obtain ⟨reply, sent, owesRollback, tipWaiting, same, -⟩ := received_requestNext_eq chain s w
    rw [same]
    exact ⟨rfl, List.prefix_append _ _⟩
  | _ => exact ⟨rfl, List.prefix_rfl⟩

theorem notifyNewBlock_adds (s : Server) (w : σ) :
    (notifyNewBlock chain s w).1.state = s.state ∧
      s.replies <+: (notifyNewBlock chain s w).1.replies := by
  obtain ⟨sent, owesRollback, same | ⟨-, -, update, -, same⟩⟩ := notifyNewBlock_eq chain s w
  · rw [same]
    exact ⟨rfl, List.prefix_rfl⟩
  · rw [same]
    exact ⟨rfl, List.prefix_append _ _⟩

end Server
end ChainRelay.ChainSync
