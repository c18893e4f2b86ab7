import ChainRelay.ChainSync.Server
import ChainRelay.Proofs.Chain.Source
import ChainRelay.Proofs.ChainSync.Codec

/-! What the serving side does to itself. Looking for an update touches only the points
given and the debt of a roll back, and what comes of it can be written. -/
namespace ChainRelay.ChainSync.Server

variable {σ : Type} (chain : ChainSource σ)

theorem commonAncestor_frame (s : Server) (w : σ) :
    ∃ sent, (commonAncestor chain s w).2.1 = { s with sent } := by
  simp only [commonAncestor]
  split
  · exact ⟨_, rfl⟩
  · exact ⟨_, rfl⟩
  · exact ⟨_, rfl⟩

theorem nextUpdate_frame (s : Server) (w : σ) :
    ∃ sent owesRollback, (nextUpdate chain s w).2.1 = { s with sent, owesRollback } := by
  have same : ∃ sent owesRollback, s = { s with sent, owesRollback } := ⟨_, _, rfl⟩
  simp only [nextUpdate]
  split
  · exact same
  · split
    · exact same
    · have kept := commonAncestor_frame chain { s with owesRollback := false }
      split
      · rename_i found
        obtain ⟨sent, frame⟩ := kept _
        rw [found] at frame
        exact ⟨sent, false, frame⟩
      · rename_i found
        obtain ⟨sent, frame⟩ := kept _
        rw [found] at frame
        exact ⟨sent, false, frame⟩
    · split
      · exact ⟨_, _, rfl⟩
      · split
        · exact same
        · exact same
        · exact ⟨_, _, rfl⟩

variable {chain}

theorem fits_contentAt (bounded : chain.Bounded) {flavor : Flavor} {p : Point}
    {content : HeaderContent} {w w' : σ}
    (found : (contentAt chain flavor p).run w = (.ok content, w')) : content.Fits := by
  obtain ⟨slot, hash⟩ := p
  cases hash with
  | none => cases found
  | some hash =>
    cases flavor with
    | blocks =>
      obtain ⟨stored, v, answered, rest⟩ := Lookup.run_bind_eq_ok.mp found
      cases stored with
      | none => cases rest
      | some b =>
        cases rest
        exact ⟨bounded.body answered, nofun⟩
    | headers =>
      obtain ⟨stored, v, answered, rest⟩ := Lookup.run_bind_eq_ok.mp found
      cases stored with
      | none => cases rest
      | some b =>
        cases decoded : HeaderContent.decode b with
        | error e =>
          simp only [decoded] at rest
          cases rest
        | ok read =>
          simp only [decoded] at rest
          cases rest
          exact HeaderContent.fits_of_decode decoded (bounded.header answered)

theorem fits_following (bounded : chain.Bounded) {flavor : Flavor} {p next : Point}
    {content : HeaderContent} {w w' : σ}
    (found : (following chain flavor p).run w = (.ok (some (next, content)), w')) :
    content.Fits := by
  obtain ⟨after, v, -, rest⟩ := Lookup.run_bind_eq_ok.mp found
  cases after with
  | none => cases rest
  | some q =>
    obtain ⟨c, v', inner, same⟩ := Lookup.run_bind_eq_ok.mp rest
    cases same
    exact fits_contentAt bounded inner

theorem fits_nextUpdate (bounded : chain.Bounded) {s : Server} {w : σ} {m : Message}
    (made : (nextUpdate chain s w).1 = .ok (some m)) : m.Fits := by
  simp only [nextUpdate] at made
  split at made
  · cases made
  · split at made
    · cases made
    · split at made
      · cases made
      · cases made
        trivial
    · split at made
      · cases made
        trivial
      · split at made
        · cases made
        · cases made
        · rename_i found
          cases made
          exact fits_following bounded found

theorem requestNext_frame (chain : ChainSource σ) (s : Server) (w : σ) :
    ∃ sent owesRollback tipWaiting,
      (requestNext chain s w).2.1 = { s with sent, owesRollback, tipWaiting } := by
  obtain ⟨sent, owesRollback, frame⟩ := nextUpdate_frame chain s w
  simp only [requestNext]
  split
  · exact ⟨_, _, _, rfl⟩
  · split
    · rename_i found
      rw [found] at frame
      exact ⟨sent, owesRollback, s.tipWaiting, frame⟩
    · rename_i r t v _ found
      rw [found] at frame
      exact ⟨sent, owesRollback, true, by rw [show t = _ from frame]⟩

theorem findIntersect_frame (chain : ChainSource σ) (candidates : List Point) (s : Server) (w : σ) :
    ∃ sent owesRollback tipWaiting,
      (findIntersect chain candidates s w).2.1 = { s with sent, owesRollback, tipWaiting } := by
  simp only [findIntersect]
  split
  · exact ⟨_, _, _, rfl⟩
  · exact ⟨_, _, _, rfl⟩

theorem fits_requestNext (bounded : chain.Bounded) (s : Server) (w : σ) :
    (requestNext chain s w).1.Fits := by
  simp only [requestNext]
  split
  · trivial
  · split
    · rename_i found
      exact fits_nextUpdate bounded (congrArg Prod.fst found)
    · trivial

theorem fits_findIntersect (candidates : List Point) (s : Server) (w : σ) :
    (findIntersect chain candidates s w).1.Fits := by
  simp only [findIntersect]
  split
  · trivial
  · trivial

theorem received_frame (bounded : chain.Bounded) (m : Message) (s : Server) (w : σ) :
    ∃ sent owesRollback tipWaiting answer, (∀ a ∈ answer, a.Fits) ∧
      (received chain m s w).1 =
        { s with sent, owesRollback, tipWaiting, replies := s.replies ++ answer } := by
  cases m with
  | findIntersect points =>
    obtain ⟨sent, owesRollback, tipWaiting, frame⟩ :=
      findIntersect_frame chain points s w
    refine ⟨sent, owesRollback, tipWaiting, [(findIntersect chain points s w).1], ?_, ?_⟩
    · simpa using fits_findIntersect points s w
    · simp only [received, enqueue, frame]
  | requestNext =>
    obtain ⟨sent, owesRollback, tipWaiting, frame⟩ := requestNext_frame chain s w
    refine ⟨sent, owesRollback, tipWaiting, [(requestNext chain s w).1], ?_, ?_⟩
    · simpa using fits_requestNext bounded s w
    · simp only [received, enqueue, frame]
  | _ => exact ⟨s.sent, s.owesRollback, s.tipWaiting, [], by simp, by simp [received]⟩

theorem notifyNewBlock_frame (bounded : chain.Bounded) (s : Server) (w : σ) :
    ∃ sent owesRollback tipWaiting answer, (∀ a ∈ answer, a.Fits) ∧
      (notifyNewBlock chain s w).1 =
        { s with sent, owesRollback, tipWaiting, replies := s.replies ++ answer } := by
  obtain ⟨sent, owesRollback, frame⟩ := nextUpdate_frame chain s w
  simp only [notifyNewBlock]
  split
  · split
    · rename_i update t v found
      rw [found] at frame
      have fits : update.Fits := fits_nextUpdate bounded (congrArg Prod.fst found)
      refine ⟨sent, owesRollback, false, [update], by simpa using fits, ?_⟩
      simp only [enqueue, show t = _ from frame]
    · rename_i r t v _ found
      rw [found] at frame
      exact ⟨sent, owesRollback, s.tipWaiting, [], by simp, by simp [show t = _ from frame]⟩
  · exact ⟨s.sent, s.owesRollback, s.tipWaiting, [], by simp, by simp⟩

end ChainRelay.ChainSync.Server
