import ChainRelay.Proofs.ChainSync.Client
import ChainRelay.Proofs.ChainSync.Codec
import ChainRelay.Proofs.ChainSync.Update

/-! Where the replies of a server lead. The point given last is always the one that the
latest reply names, if it names one, and an intersection is followed by a roll back. -/
namespace ChainRelay.ChainSync
open Blocks (Holds Follows)

namespace Message

def meets : Message → Bool
  | intersectFound _ _ | intersectNotFound _ => true
  | _ => false

def Settled (m : Message) : Prop := m.carried.goal = m.goal

end Message

/-! ### What a history owes -/

def owing (due : Bool) : Message → Bool
  | .intersectFound _ _ => true
  | .intersectNotFound _ => due
  | _ => false

def owed (replies : List Message) : Bool := replies.foldl owing false

/-- After an intersection has been found, the first other reply is a roll back. -/
def RollsBackFirst (replies : List Message) : Prop :=
  ∀ before p t between reply after,
    replies = before ++ .intersectFound p t :: (between ++ reply :: after) →
    (∀ m ∈ between, m.meets = true) → reply.meets = false → ∃ q u, reply = .rollBackward q u

theorem owed_of_found (before : List Message) (p : Point) (t : Tip) {between : List Message}
    (searching : ∀ m ∈ between, m.meets = true) :
    owed (before ++ .intersectFound p t :: between) = true := by
  have kept : between.foldl owing true = true := by
    induction between with
    | nil => rfl
    | cons m between ih =>
      have still : owing true m = true := by
        have meets := searching m (by simp)
        cases m with
        | intersectFound _ _ | intersectNotFound _ => rfl
        | _ => cases meets
      rw [List.foldl_cons, still]
      exact ih fun m member => searching m (by simp [member])
  rw [owed, List.foldl_append, List.foldl_cons]
  exact kept

theorem RollsBackFirst.append {replies : List Message} (first : RollsBackFirst replies)
    {reply : Option Message} (due : owed replies = true →
      ∀ m ∈ reply, m.meets = true ∨ ∃ q u, m = .rollBackward q u) :
    RollsBackFirst (replies ++ reply.toList) := by
  cases reply with
  | none => simpa using first
  | some m =>
    intro before p t between reply after cut searching other
    rcases after.eq_nil_or_concat with rfl | ⟨init, last, rfl⟩
    · -- the new reply is the one asked about
      have parts : replies ++ [m] = (before ++ .intersectFound p t :: between) ++ [reply] := by
        simpa using cut
      obtain ⟨rfl, same⟩ := List.append_inj' parts rfl
      cases same
      rcases due (owed_of_found before p t searching) m rfl with meets | back
      · rw [other] at meets
        cases meets
      · exact back
    · have parts : replies ++ [m] =
          (before ++ .intersectFound p t :: (between ++ reply :: init)) ++ [last] := by
        simpa using cut
      exact first before p t between reply init (List.append_inj' parts rfl).1 searching other

/-! ### What a server says -/

structure Computed where
  reply : Message
  last : Option Point
  blocks : List StoredBlock

/-- A roll forward carries the block after the point given last, and a roll back goes to a
point of the chain. -/
structure Computed.Justified (flavor : Flavor) (e : Computed) : Prop where
  forward : ∀ {content t}, e.reply = .rollForward content t → ∃ p b, e.last = some p ∧
    Holds e.blocks p ∧ Follows e.blocks p b ∧ b.content flavor = .ok content ∧
      content.point = .ok b.point
  backward : ∀ {p t}, e.reply = .rollBackward p t → Holds e.blocks p

theorem placed_of_holds {l : List StoredBlock} (ordered : Blocks.Ordered l) {p : Point}
    (held : Holds l p) : p.Placed := by
  rcases held with rfl | ⟨b, member, rfl⟩
  · exact .inl rfl
  · exact .inr (ordered.hashed b member)

theorem carried_of_holds {l : List StoredBlock} (ordered : Blocks.Ordered l) {p : Point}
    (held : Holds l p) : p.carried = p :=
  (placed_of_holds ordered held).carried_eq

namespace Server

theorem record_getLast? {s : Server} (wide : 1 ≤ s.window) (p : Point) :
    (s.record p).sent.getLast? = some p := by
  have kept : ¬ (s.sent ++ [p]).length ≤ (s.sent ++ [p]).length - s.window := by
    rw [List.length_append, List.length_singleton]
    omega
  rw [record, List.getLast?_drop, if_neg kept, List.getLast?_concat]

namespace Answer

variable {l : List StoredBlock} {s : Server} {reply : Option Message} {sent : List Point}
  {owesRollback : Bool}

theorem settled (ordered : Blocks.Ordered l) (answer : Answer l s reply sent owesRollback) :
    ∀ m ∈ reply, m.Settled := by
  cases answer with
  | silent => nofun
  | found held | rollBack held _ _ =>
    rintro m ⟨⟩
    exact congrArg some (carried_of_holds ordered held)
  | await _ | notFound | rollForward _ _ _ _ _ =>
    rintro m ⟨⟩
    rfl

theorem last (wide : 1 ≤ s.window) (answer : Answer l s reply sent owesRollback) :
    sent.getLast? = (reply.bind Message.goal).or s.lastSent := by
  cases answer with
  | silent | await _ | found _ | notFound => rfl
  | rollBack _ top _ => exact top
  | rollForward _ _ _ _ point =>
    rw [record_getLast? wide, Option.bind_some, Message.goal, point]
    rfl

theorem given {known : Point → Prop} (known_of_mem : ∀ b ∈ l, known b.point)
    (answer : Answer l s reply sent owesRollback) (before : ∀ p ∈ s.sent, p = .origin ∨ known p) :
    ∀ p ∈ sent, p = .origin ∨ known p := by
  cases answer with
  | silent | await _ | notFound => exact before
  | found held =>
    intro p member
    rw [List.mem_singleton.mp member]
    rcases held with start | ⟨b, here, same⟩
    · exact .inl start
    · exact .inr (same ▸ known_of_mem b here)
  | rollBack _ _ older =>
    intro p member
    rcases older p member with start | old
    · exact .inl start
    · exact before p old
  | rollForward _ _ follows _ _ =>
    intro p member
    rcases List.mem_append.mp (List.mem_of_mem_drop member) with old | new
    · exact before p old
    · rw [List.mem_singleton.mp new]
      exact .inr (known_of_mem _ follows.mem)

theorem justified (answer : Answer l s reply sent owesRollback) :
    ∀ m ∈ reply, Computed.Justified s.flavor ⟨m, s.lastSent, l⟩ := by
  cases answer with
  | silent => nofun
  | await _ | found _ | notFound =>
    rintro m ⟨⟩
    exact ⟨nofun, nofun⟩
  | rollBack held _ _ =>
    rintro m ⟨⟩
    refine ⟨nofun, fun same => ?_⟩
    cases same
    exact held
  | rollForward _ reached follows read point =>
    rintro m ⟨⟩
    refine ⟨fun same => ?_, nofun⟩
    cases same
    exact ⟨_, _, reached, follows.holds, follows, read, point⟩

theorem rollsBack (answer : Answer l s reply sent owesRollback)
    (owes : s.owesRollback = true ∧ s.lastSent ≠ none) :
    ∀ m ∈ reply, m.meets = true ∨ ∃ p t, m = .rollBackward p t := by
  cases answer with
  | silent => nofun
  | await settled =>
    rcases settled with unset | free
    · exact absurd unset owes.2
    · rw [owes.1] at free
      cases free
  | found _ | notFound =>
    rintro m ⟨⟩
    exact .inl rfl
  | rollBack _ _ _ =>
    rintro m ⟨⟩
    exact .inr ⟨_, _, rfl⟩
  | rollForward free _ _ _ _ =>
    rw [owes.1] at free
    cases free

theorem owes (answer : Answer l s reply sent owesRollback) {due : Bool}
    (known : due = true → s.owesRollback = true ∧ s.lastSent ≠ none)
    (still : reply.toList.foldl owing due = true) : owesRollback = true ∧ sent.getLast? ≠ none := by
  cases answer with
  | silent | notFound => exact known still
  | found _ => exact ⟨rfl, nofun⟩
  | await _ | rollBack _ _ _ | rollForward _ _ _ _ _ => cases still

end Answer
end Server

end ChainRelay.ChainSync
