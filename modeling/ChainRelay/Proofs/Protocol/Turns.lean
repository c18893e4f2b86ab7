import ChainRelay.Protocol.Basic

/-! Two sides of a protocol joined by two links. The items on a link are read as
messages that one side may send, each allowed in its turn. As long as every message is
sent in turn, one link is empty and the other leads the state of the side that it
reaches to the state of the side that it comes from. -/
namespace ChainRelay

namespace Role

def peer : Role → Role
  | client => server
  | server => client

@[simp]
theorem peer_peer (r : Role) : r.peer.peer = r := by cases r <;> rfl

theorem ne_nobody_of_holds {r : Role} {g : Agency} (holds : r.holds g = true) : g ≠ .nobody := by
  cases r <;> cases g <;> simp_all [Role.holds]

theorem holds_of_peer {r : Role} {g : Agency} (holds : r.peer.holds g = true) :
    r.holds g = false := by
  cases r <;> cases g <;> simp_all [Role.holds, peer]

end Role

namespace Protocol

variable {State Message L : Type} {p : Protocol State Message} {Reads : L → Message → Prop}
  {role : Role}

def Carries (p : Protocol State Message) (Reads : L → Message → Prop) (role : Role) :
    State → List L → State → Prop
  | s, [], t => s = t
  | s, b :: bs, t => ∃ m next, role.holds (p.agency s) = true ∧ Reads b m ∧
      p.move s m = some next ∧ Carries p Reads role next bs t

theorem Carries.append {s t u : State} {as bs : List L} (first : p.Carries Reads role s as t)
    (second : p.Carries Reads role t bs u) : p.Carries Reads role s (as ++ bs) u := by
  induction as generalizing s with
  | nil =>
    cases first
    exact second
  | cons b as ih =>
    obtain ⟨m, next, holds, read, moved, later⟩ := first
    exact ⟨m, next, holds, read, moved, ih later⟩

theorem Carries.eq_nil {s t : State} {bs : List L} (run : p.Carries Reads role s bs t)
    (lacks : role.holds (p.agency s) = false) : bs = [] ∧ s = t := by
  cases bs with
  | nil => exact ⟨rfl, run⟩
  | cons b bs =>
    obtain ⟨m, next, holds, -⟩ := run
    rw [lacks] at holds
    cases holds

/-- One side's view: its own state, the other's, what it has sent and what it will
get. -/
def Aligned (p : Protocol State Message) (Reads : L → Message → Prop) (role : Role)
    (own other : State) (out inward : List L) : Prop :=
  (inward = [] ∧ p.Carries Reads role other out own) ∨
    (out = [] ∧ p.Carries Reads role.peer own inward other)

namespace Aligned

variable {own other : State} {out inward : List L}

theorem symm (aligned : p.Aligned Reads role own other out inward) :
    p.Aligned Reads role.peer other own inward out := by
  rw [Aligned, Role.peer_peer]
  exact Or.symm aligned

theorem send {next : State} {bs : List L} (aligned : p.Aligned Reads role own other out inward)
    (sent : p.Carries Reads role own bs next) :
    p.Aligned Reads role next other (out ++ bs) inward := by
  rcases aligned with ⟨quiet, ahead⟩ | ⟨rfl, behind⟩
  · exact .inl ⟨quiet, ahead.append sent⟩
  · cases bs with
    | nil =>
      cases sent
      exact .inr ⟨rfl, behind⟩
    | cons b bs =>
      obtain ⟨m, after, holds, -⟩ := id sent
      obtain ⟨rfl, rfl⟩ := behind.eq_nil (Role.holds_of_peer (by rwa [Role.peer_peer]))
      exact .inl ⟨rfl, sent⟩

theorem receive {b : L} (aligned : p.Aligned Reads role own other out (b :: inward)) :
    ∃ m next, role.peer.holds (p.agency own) = true ∧ Reads b m ∧ p.move own m = some next ∧
      p.Aligned Reads role next other out inward := by
  rcases aligned with ⟨⟨⟩, -⟩ | ⟨quiet, m, next, holds, read, moved, later⟩
  exact ⟨m, next, holds, read, moved, .inr ⟨quiet, later⟩⟩

theorem out_eq_nil {b : L} (aligned : p.Aligned Reads role own other out (b :: inward)) :
    out = [] := by
  rcases aligned with ⟨⟨⟩, -⟩ | ⟨silent, -⟩
  exact silent

theorem quiet (aligned : p.Aligned Reads role own other out inward)
    (turn : role.holds (p.agency own) = true) : inward = [] := by
  rcases aligned with ⟨rfl, -⟩ | ⟨-, behind⟩
  · rfl
  · exact (behind.eq_nil (Role.holds_of_peer (by rwa [Role.peer_peer]))).1

theorem carries (aligned : p.Aligned Reads role own other out []) :
    p.Carries Reads role other out own := by
  rcases aligned with ⟨-, ahead⟩ | ⟨rfl, same⟩
  · exact ahead
  · exact Eq.symm same

end Aligned
end Protocol
end ChainRelay
