import ChainRelay.Proofs.ChainSync.Client
import ChainRelay.Proofs.Protocol.History

/-! Sending a client elsewhere. Its new search is kept until it may send again, unless the
answer to what it asked before comes in between and sets a search, or an end to searching, of
its own. A roll forward does not, and neither does a roll back to the cursor. -/
namespace ChainRelay.ChainSync

namespace Client

inductive Sought (c : Client) : List Point → Client → Prop
  | resetTo (p : Point) : Sought c [p] (c.resetTo p)
  | setCandidates {points : List Point} (some : points ≠ []) :
      Sought c points (c.setCandidates points)

inductive Hears : Client → List Message → Client → Prop
  | nil {c : Client} : Hears c [] c
  | cons {c c' c'' : Client} {m : Message} {ms : List Message}
      (taken : (kind Unit).consume m c () = .ok (c', ())) (later : Hears c' ms c'') :
      Hears c (m :: ms) c''

/-- The message does not touch the search of a client. -/
def Spares (c : Client) (points : List Point) : Message → Prop
  | .intersectFound _ tip => c.followTip = true ∧ points = [tip.point]
  | .intersectNotFound _ => False
  | .rollBackward p _ => c.cursor = some p ∨ points = [p]
  | _ => True

structure Searching (points : List Point) (c : Client) : Prop where
  live : c.doneRequested = false
  unmet : c.intersected = false
  candidates_eq : c.candidates = points
  points_ne : points ≠ []

variable {c c₀ c' : Client} {points : List Point} {m : Message} {ms : List Message}

theorem Sought.searching (live : c.doneRequested = false) (sought : c.Sought points c₀) :
    Searching points c₀ := by
  cases sought with
  | resetTo p => exact ⟨live, rfl, rfl, by simp⟩
  | setCandidates some => exact ⟨live, rfl, rfl, some⟩

theorem Searching.produce_eq (searching : Searching points c) :
    c.produce = some (.findIntersect points) := by
  have asks : points.isEmpty = false := by
    rw [List.isEmpty_eq_false_iff]
    exact searching.points_ne
  simp [produce, searching.live, searching.unmet, searching.candidates_eq, asks]

theorem Searching.produce_received (searching : Searching points c) (m : Message) :
    (c.received m).produce = some (.findIntersect points) ↔ c.Spares points m := by
  have asks := searching.produce_eq
  cases m with
  | rollForward header tip =>
    have kept : (c.received (.rollForward header tip)).produce = c.produce := by
      simp only [received, forward, report]
      cases header.point <;> rfl
    rw [kept]
    exact iff_of_true asks trivial
  | rollBackward p tip =>
    by_cases there : c.cursor = some p
    · have kept : (c.received (.rollBackward p tip)).produce = c.produce := by
        simp only [received, backward, report, produce, if_pos there]
      rw [kept]
      exact iff_of_true asks (.inl there)
    · have turned : (c.received (.rollBackward p tip)).produce = some (.findIntersect [p]) := by
        simp [received, backward, report, produce, if_neg there, searching.live]
      rw [turned, Spares, or_iff_right there]
      simp [eq_comm]
  | intersectFound p tip =>
    cases follow : c.followTip with
    | true =>
      have turned : (c.received (.intersectFound p tip)).produce =
          some (.findIntersect [tip.point]) := by
        simp [received, found, report, produce, follow, searching.live, searching.unmet]
      rw [turned, Spares, and_iff_right follow]
      simp [eq_comm]
    | false =>
      have met : (c.received (.intersectFound p tip)).produce = some .requestNext := by
        simp [received, found, report, produce, follow, searching.live]
      rw [met, Spares, follow]
      simp
  | intersectNotFound tip =>
    have silent : (c.received (.intersectNotFound tip)).produce = none := by
      simp [received, report, produce, searching.live, searching.unmet]
    rw [silent]
    simp [Spares]
  | awaitReply | requestNext | findIntersect _ | done => exact iff_of_true asks trivial

theorem Searching.withState (searching : Searching points c) (next : State) :
    Searching points { c with state := next } :=
  ⟨searching.live, searching.unmet, searching.candidates_eq, searching.points_ne⟩

theorem Searching.awaitReply (searching : Searching points c) :
    Searching points (c.received .awaitReply) :=
  ⟨searching.live, searching.unmet, searching.candidates_eq, searching.points_ne⟩

theorem Hears.of_turn (heard : Hears c ms c') (turn : (kind Unit).hasAgency c = true) :
    ms = [] ∧ c' = c := by
  cases heard with
  | nil => exact ⟨rfl, rfl⟩
  | cons taken _ =>
    obtain ⟨-, lacks, -⟩ := AgentKind.consume_eq_ok taken
    rw [turn] at lacks
    cases lacks

theorem idle_of_move {s next : State} (waits : s ≠ .idle) (moved : s.move m = some next) :
    m = .awaitReply ∨ next = .idle := by
  cases s with
  | idle => exact absurd rfl waits
  | intersect | canAwait | mustReply =>
    cases m with
    | awaitReply => exact .inl rfl
    | _ =>
      cases moved
      all_goals exact .inr rfl
  | done => cases moved

/-- A client that has been sent elsewhere makes the new search when it next may send, exactly
if no message that it takes in until then touches that search. -/
theorem produce_sought (live : c.doneRequested = false) (sought : c.Sought points c₀)
    (heard : c₀.Hears ms c') (turn : (kind Unit).hasAgency c' = true) :
    c'.produce = some (.findIntersect points) ↔ ∀ m ∈ ms, c₀.Spares points m := by
  have searching := sought.searching live
  clear sought
  induction heard with
  | nil => exact iff_of_true searching.produce_eq nofun
  | @cons c₁ c₂ c₃ m ms taken later ih =>
    obtain ⟨-, lacks, next, moved, same⟩ := AgentKind.consume_eq_ok taken
    have reached : c₂ = ({ c₁ with state := next } : Client).received m := congrArg Prod.fst same
    have waits : c₁.state ≠ .idle := by
      intro idle
      change Role.client.holds c₁.state.agency = false at lacks
      rw [idle] at lacks
      cases lacks
    rcases idle_of_move waits moved with rfl | rfl
    · -- a promise: the search stands, and the answer is still to come
      have kept : Searching points c₂ := reached ▸ (searching.withState next).awaitReply
      have spared : ∀ m, c₂.Spares points m ↔ c₁.Spares points m := by
        intro m
        subst reached
        exact Iff.rfl
      rw [List.forall_mem_cons, and_iff_right (show c₁.Spares points .awaitReply from trivial)]
      exact (ih turn kept).trans (forall₂_congr fun m _ => spared m)
    · -- any other answer gives the turn back, so it is the last that is taken in
      have returned : (kind Unit).hasAgency c₂ = true := by
        have idle : c₂.state = .idle := reached ▸ (received_frame m _).1
        change Role.client.holds c₂.state.agency = true
        rw [idle]
        rfl
      obtain ⟨rfl, rfl⟩ := later.of_turn returned
      subst reached
      rw [List.forall_mem_singleton]
      exact (searching.withState .idle).produce_received m

/-- A client is sent elsewhere while its first search is out: the answer wins, and it goes on
from the origin. Sent there while an update is out, it makes the new search. -/
theorem produce_sought_overtaken :
    let p : Point := ⟨20, some .zero⟩
    let tip : Tip := ⟨p, 1⟩
    let header : HeaderContent := .byronMain 0 []
    ∃ searching met waiting forward, (kind Unit).takeNext (new [.origin]) =
        some (.findIntersect [.origin], searching) ∧
      (searching.resetTo p).Hears [.intersectFound .origin tip] met ∧
      met.produce = some .requestNext ∧ met.produce ≠ some (.findIntersect [p]) ∧
      (kind Unit).takeNext met = some (.requestNext, waiting) ∧
      (waiting.resetTo p).Hears [.awaitReply, .rollForward header tip] forward ∧
      forward.produce = some (.findIntersect [p]) := by
  intro p tip header
  let searching : Client := { new [.origin] with state := .intersect }
  let met := ({ searching.resetTo p with state := .idle } : Client).received
    (.intersectFound .origin tip)
  have first : (searching.resetTo p).Hears [.intersectFound .origin tip] met := .cons rfl .nil
  let waiting : Client := { met with state := .canAwait }
  let promised := ({ waiting.resetTo p with state := .mustReply } : Client).received .awaitReply
  let forward := ({ promised with state := .idle } : Client).received (.rollForward header tip)
  have second : (waiting.resetTo p).Hears [.awaitReply, .rollForward header tip] forward :=
    .cons rfl (.cons rfl .nil)
  refine ⟨searching, met, waiting, forward, rfl, first, rfl, ?_, rfl, second, ?_⟩
  · rw [Ne, produce_sought rfl (.resetTo p) first rfl]
    intro spared
    cases (spared _ (List.mem_singleton.mpr rfl)).1
  · rw [produce_sought rfl (.resetTo p) second rfl]
    simp [Spares]

end Client
end ChainRelay.ChainSync
