import ChainRelay.Proofs.Connection.Binding
import ChainRelay.Proofs.Session.Trial

/-! Which handles an attempt leaves bound when it fails. Until the handshake has succeeded it is
freed again with every failure. An agent that cannot be bound then fails the attempt as well, but
this way out frees nothing: the handshake and the agents before that one stay bound to a closed
connection, and the next attempt finds its handshake taken. -/
namespace ChainRelay.Session

open Board (Moved)

variable {σ : Type} (chain : ChainSource σ) (config : SessionConfig) {crew : Crew} {l : Link}
  {b b' : Board σ}

/-- An attempt on a board. Without a stream nothing is touched. -/
def Trial.play (crew : Crew) (t : Trial) (l : Link) (b : Board σ) :
    Except SessionError Agreed × Link × Board σ :=
  match t with
  | reached arrivals ending => Attempt.run chain config crew arrivals ending l b
  | unreachable _ | unanswered => (t.result config, l, b)

/-- An agent could not be bound, and what was bound before it stays so. -/
structure Stranded (crew : Crew) (connection : Nat) (b b' : Board σ) (before : List Nat)
    (taken : Nat) : Prop where
  agents_eq : ∃ after, crew.agents = before ++ taken :: after
  /-- it is bound elsewhere, or has been bound a moment ago -/
  why : b.connectionAt taken ≠ none ∨ taken ∈ crew.handshake :: before
  free : ∀ place ∈ crew.handshake :: before, b.connectionAt place = none
  moved : Moved (crew.handshake :: before) (some connection) b b'

namespace Attempt

theorem moved_abandon (l : Link) (b : Board σ) :
    Moved [crew.handshake] none b (abandon chain crew l b).2 :=
  (Board.moved_hangUp chain l.id b none).trans (Board.moved_unbind chain crew.handshake _)

theorem start_of_unbound (onBoard : crew.handshake < b.handles.length)
    (loose : b.connectionAt crew.handshake = none) (l : Link) :
    ∃ l' b', start chain crew l b = (.ok (), l', b') ∧ l'.id = l.id ∧
      Moved [crew.handshake] (some l.id) b b' := by
  have reset := Board.moved_reset chain crew.handshake b
  obtain ⟨l', b', bound, same, moved⟩ := Link.bind_of_unbound chain
    ((reset none).length_eq.symm ▸ onBoard)
    (((reset none).at_of_not_mem List.not_mem_nil).trans loose) l
  refine ⟨l', b', ?_, same, (reset _).trans moved⟩
  rw [start, bound]

theorem start_of_bound (bound : b.connectionAt crew.handshake ≠ none) (l : Link) :
    ∃ name l' b', start chain crew l b = (.error (.agent (.alreadyBound name)), l', b') ∧
      Moved [crew.handshake] none b b' := by
  have reset := Board.moved_reset chain crew.handshake b
  obtain ⟨name, l', b', refused, moved⟩ := Link.bind_of_bound chain
    (((reset none).at_of_not_mem List.not_mem_nil).symm ▸ bound) l
  refine ⟨name, (abandon chain crew l' b').1, (abandon chain crew l' b').2, ?_, ?_⟩
  · rw [start, refused]
  · exact ((reset none).trans (moved none)).trans (moved_abandon chain l' b')

def hear (arrivals : List Bytes) (l : Link) (b : Board σ) : Link × Board σ :=
  arrivals.foldl (fun (l, b) bytes => (l.receive chain bytes b).2) (l, b)

theorem moved_hear (arrivals : List Bytes) (l : Link) (b : Board σ) (target : Option Nat) :
    Moved [] target b (hear chain arrivals l b).2 ∧ (hear chain arrivals l b).1.id = l.id := by
  induction arrivals generalizing l b with
  | nil => exact ⟨.refl b target, rfl⟩
  | cons bytes rest ih =>
    obtain ⟨moved, same⟩ := ih (l.receive chain bytes b).2.1 (l.receive chain bytes b).2.2
    exact ⟨(Link.moved_receive chain bytes l b target).trans moved, same⟩

theorem run_of_unbound (onBoard : crew.handshake < b.handles.length)
    (loose : b.connectionAt crew.handshake = none) (arrivals : List Bytes) (ending : Ending)
    (l : Link) :
    ∃ l' b', run chain config crew arrivals ending l b = conclude chain config crew ending l' b' ∧
      l'.id = l.id ∧ Moved [crew.handshake] (some l.id) b b' := by
  obtain ⟨l₁, b₁, started, same, bound⟩ := start_of_unbound chain onBoard loose l
  obtain ⟨heard, still⟩ := moved_hear chain arrivals l₁ b₁ (some l.id)
  refine ⟨(hear chain arrivals l₁ b₁).1, (hear chain arrivals l₁ b₁).2, ?_, still.trans same,
    bound.trans heard⟩
  rw [run, started]
  rfl

theorem run_of_bound (bound : b.connectionAt crew.handshake ≠ none) (arrivals : List Bytes)
    (ending : Ending) (l : Link) :
    ∃ name l' b', run chain config crew arrivals ending l b =
        (.error (.agent (.alreadyBound name)), l', b') ∧ Moved [crew.handshake] none b b' := by
  obtain ⟨name, l', b', failed, moved⟩ := start_of_bound chain bound l
  refine ⟨name, l', b', ?_, moved⟩
  rw [run, failed]

theorem conclude_cases {l₁ : Link} {b₁ : Board σ} (ending : Ending)
    (onBoard : ∀ place ∈ crew.places, place < b.handles.length)
    (loose : b.connectionAt crew.handshake = none)
    (bound : Moved [crew.handshake] (some l.id) b b₁) (same : l₁.id = l.id) :
    (∃ agreed l' b', ending.verdict config = .ok agreed ∧
      conclude chain config crew ending l₁ b₁ = (.ok agreed, l', b') ∧ crew.places.Nodup ∧
      ∀ place ∈ crew.places, b.connectionAt place = none) ∨
    (∃ e l' b', ending.verdict config = .error e ∧
      conclude chain config crew ending l₁ b₁ = (.error e, l', b') ∧
      Moved [crew.handshake] none b b') ∨
    (∃ agreed name l' b' before taken, ending.verdict config = .ok agreed ∧
      conclude chain config crew ending l₁ b₁ = (.error (.agent (.alreadyBound name)), l', b') ∧
      l'.isOpen = false ∧ Stranded crew l.id b b' before taken) := by
  unfold conclude
  cases verdict : ending.verdict config with
  | error e =>
    refine .inr (.inl ⟨e, _, _, rfl, rfl, ?_⟩)
    exact bound.replaced (moved_abandon chain l₁ b₁) (by simp)
  | ok agreed =>
    have onBoard₁ : ∀ place ∈ crew.agents, place < b₁.handles.length := by
      intro place member
      rw [bound.length_eq]
      exact onBoard place (List.mem_cons_of_mem _ member)
    have cases := Link.bindAll_cases chain (l := l₁) onBoard₁
    generalize l₁.bindAll chain crew.agents b₁ = r at cases ⊢
    obtain ⟨result, l₂, b₂⟩ := r
    rcases cases with ⟨rfl, nodup, free, -⟩ |
      ⟨before, taken, after, name, split, rfl, free, why, moved⟩
    · obtain ⟨apart, free⟩ := bound.free_before loose free
      exact .inl ⟨agreed, l₂, b₂, rfl, rfl, List.nodup_cons.mpr ⟨apart, nodup⟩, free⟩
    · rw [same] at moved
      have closed := Board.moved_hangUp chain l₂.id b₂ (some l.id)
      refine .inr (.inr ⟨agreed, name, _, _, before, taken, rfl, rfl, rfl, ⟨after, split⟩,
        bound.bound_before why, (bound.free_before loose free).2, ?_⟩)
      have all := (bound.trans moved).trans closed
      rwa [List.append_nil] at all

end Attempt

theorem Trial.play_cases (onBoard : ∀ place ∈ crew.places, place < b.handles.length) (t : Trial)
    (l : Link) :
    (∃ agreed l' b', t.result config = .ok agreed ∧
      t.play chain config crew l b = (.ok agreed, l', b') ∧ crew.places.Nodup ∧
      ∀ place ∈ crew.places, b.connectionAt place = none) ∨
    (∃ e l' b' freed, t.play chain config crew l b = (.error e, l', b') ∧
      (∀ place ∈ freed, place = crew.handshake) ∧ Moved freed none b b' ∧
      (b.connectionAt crew.handshake = none → t.result config = .error e)) ∨
    (∃ agreed name l' b' before taken, t.result config = .ok agreed ∧
      t.play chain config crew l b = (.error (.agent (.alreadyBound name)), l', b') ∧
      l'.isOpen = false ∧ Stranded crew l.id b b' before taken) := by
  cases t with
  | unreachable detail | unanswered =>
    exact .inr (.inl ⟨_, l, b, [], rfl, by simp, .refl b none, fun _ => rfl⟩)
  | reached arrivals ending =>
    by_cases loose : b.connectionAt crew.handshake = none
    · obtain ⟨l₁, b₁, run, same, bound⟩ := Attempt.run_of_unbound chain config
        (onBoard _ List.mem_cons_self) loose arrivals ending l
      rw [play, run, result]
      rcases Attempt.conclude_cases chain config ending onBoard loose bound same with
        well | ⟨e, l₂, b₂, ends, done, freed⟩ | stranded
      · exact .inl well
      · exact .inr (.inl ⟨e, l₂, b₂, _, done, by simp, freed, fun _ => ends⟩)
      · exact .inr (.inr stranded)
    · obtain ⟨name, l₂, b₂, run, freed⟩ :=
        Attempt.run_of_bound chain config loose arrivals ending l
      exact .inr (.inl ⟨_, l₂, b₂, _, run, by simp, freed, fun free => absurd free loose⟩)

section Stranded

variable {connection taken : Nat} {before : List Nat}
  (stranded : Stranded crew connection b b' before taken) (apart : crew.places.Nodup)

include stranded apart

theorem Stranded.fresh : taken ∉ crew.handshake :: before := by
  obtain ⟨after, split⟩ := stranded.agents_eq
  intro twice
  rw [Crew.places, split, ← List.cons_append] at apart
  exact (List.nodup_append.mp apart).2.2 taken twice taken List.mem_cons_self rfl

theorem Stranded.bound_before : b.connectionAt taken ≠ none :=
  stranded.why.resolve_right (stranded.fresh apart)

theorem Stranded.not_free (loose : ∀ place ∈ crew.places, b.connectionAt place = none) :
    False := by
  obtain ⟨after, split⟩ := stranded.agents_eq
  exact stranded.bound_before apart (loose taken (by simp [Crew.places, split]))

end Stranded

/-- A trial's result is that of its attempt, if all handles are free and none stands twice. -/
theorem Trial.play_result (onBoard : ∀ place ∈ crew.places, place < b.handles.length)
    (loose : ∀ place ∈ crew.places, b.connectionAt place = none) (apart : crew.places.Nodup)
    (t : Trial) (l : Link) : (t.play chain config crew l b).1 = t.result config := by
  rcases t.play_cases chain config onBoard l with ⟨agreed, l', b', ends, done, -⟩ |
    ⟨e, l', b', freed, done, -, -, ends⟩ | ⟨agreed, name, l', b', before, taken, -, -, -, stranded⟩
  · rw [done, ends]
  · rw [done, ends (loose _ List.mem_cons_self)]
  · exact (stranded.not_free apart loose).elim

/-! ### Sessions that no attempt brings back -/

/-- An agent is bound that the session has to bind, or stands there twice. -/
def Hopeless (crew : Crew) (b : Board σ) : Prop :=
  crew.places.Nodup → ∃ place ∈ crew.agents, place ≠ crew.handshake ∧ b.connectionAt place ≠ none

theorem Stranded.hopeless {connection taken : Nat} {before : List Nat}
    (stranded : Stranded crew connection b b' before taken) : Hopeless crew b' := by
  intro apart
  obtain ⟨after, split⟩ := stranded.agents_eq
  have fresh := stranded.fresh apart
  refine ⟨taken, by simp [split], fun own => fresh (own ▸ List.mem_cons_self), ?_⟩
  rw [stranded.moved.at_of_not_mem fresh]
  exact stranded.bound_before apart

theorem Hopeless.play (hopeless : Hopeless crew b)
    (onBoard : ∀ place ∈ crew.places, place < b.handles.length) (t : Trial) (l : Link) :
    ∃ e l' b', t.play chain config crew l b = (.error e, l', b') ∧
      b'.handles.length = b.handles.length ∧ Hopeless crew b' := by
  rcases t.play_cases chain config onBoard l with ⟨agreed, l', b', -, -, apart, free⟩ |
    ⟨e, l', b', freed, done, own, moved, -⟩ |
    ⟨agreed, name, l', b', before, taken, -, done, -, stranded⟩
  · obtain ⟨place, member, -, bound⟩ := hopeless apart
    exact absurd (free place (List.mem_cons_of_mem _ member)) bound
  · refine ⟨e, l', b', done, moved.length_eq, fun apart => ?_⟩
    obtain ⟨place, member, other, bound⟩ := hopeless apart
    refine ⟨place, member, other, ?_⟩
    rwa [moved.at_of_not_mem fun among => other (own place among)]
  · exact ⟨_, l', b', done, stranded.moved.length_eq, stranded.hopeless⟩

def Trial.playAll (crew : Crew) :
    List (Trial × Link) → Board σ → List (Except SessionError Agreed) × Board σ
  | [], b => ([], b)
  | (t, l) :: rest, b =>
    let (result, _, b) := t.play chain config crew l b
    let (results, b) := playAll crew rest b
    (result :: results, b)

theorem Hopeless.playAll (hopeless : Hopeless crew b)
    (onBoard : ∀ place ∈ crew.places, place < b.handles.length) (attempts : List (Trial × Link)) :
    ∀ result ∈ (Trial.playAll chain config crew attempts b).1, ∃ e, result = .error e := by
  induction attempts generalizing b with
  | nil => simp [Trial.playAll]
  | cons attempt rest ih =>
    obtain ⟨t, l⟩ := attempt
    obtain ⟨e, l', b', done, length_eq, still⟩ := hopeless.play chain config onBoard t l
    have later := ih still (by simpa only [length_eq] using onBoard)
    rw [Trial.playAll, done]
    exact List.forall_mem_cons.mpr ⟨⟨e, rfl⟩, later⟩

/-- A failed attempt binds no handle that was free, unless it fails of an agent that could not be
bound once the handshake had succeeded. Then the handshake and the agents before that one are bound
to a closed connection, the next attempt that reaches the peer fails of that, whatever it hears,
and as long as nobody else frees an agent, none of those that follow succeeds. -/
theorem Trial.leaves_bound {t : Trial} {e : SessionError} {l' : Link}
    (onBoard : ∀ place ∈ crew.places, place < b.handles.length)
    (failed : t.play chain config crew l b = (.error e, l', b')) :
    (∀ place, b'.connectionAt place = b.connectionAt place ∨
      place = crew.handshake ∧ b'.connectionAt place = none) ∨
    ∃ agreed name before taken, t.result config = .ok agreed ∧
      e = .agent (.alreadyBound name) ∧ l'.isOpen = false ∧
      Stranded crew l.id b b' before taken ∧
      (∀ next arrivals ending, ∃ name,
        ((reached arrivals ending).play chain config crew next b').1 =
          .error (.agent (.alreadyBound name))) ∧
      ∀ attempts, ∀ result ∈ (playAll chain config crew attempts b').1, ∃ e, result = .error e := by
  rcases t.play_cases chain config onBoard l with ⟨agreed, l₂, b₂, -, done, -⟩ |
    ⟨e₂, l₂, b₂, freed, done, own, moved, -⟩ |
    ⟨agreed, name, l₂, b₂, before, taken, ends, done, closed, stranded⟩
  · cases done.symm.trans failed
  · cases done.symm.trans failed
    refine .inl fun place => ?_
    by_cases among : place ∈ freed
    · exact .inr ⟨own place among, moved.at_of_mem among⟩
    · exact .inl (moved.at_of_not_mem among)
  · cases done.symm.trans failed
    have held : b'.connectionAt crew.handshake ≠ none := by
      rw [stranded.moved.at_of_mem List.mem_cons_self]
      nofun
    have onBoard' : ∀ place ∈ crew.places, place < b'.handles.length := by
      simpa only [stranded.moved.length_eq] using onBoard
    refine .inr ⟨agreed, name, before, taken, ends, rfl, closed, stranded, ?_, ?_⟩
    · intro next arrivals ending
      obtain ⟨name, l₃, b₃, again, -⟩ :=
        Attempt.run_of_bound chain config held arrivals ending next
      exact ⟨name, congrArg Prod.fst again⟩
    · exact stranded.hopeless.playAll chain config onBoard'

/-- An agent that is registered twice: the peer has accepted, and handshake and agent are held by
connection 7. -/
theorem Trial.leaves_bound_registeredTwice :
    let crew : Crew := ⟨0, [1, 1]⟩
    let b : Board ChainStore := ⟨[.handshake (.new (.new .client (.nodeToNode 42))),
      .keepAliveClient (.new .new)], .inMemory, [], []⟩
    let data : VersionData := ⟨42, false, 0, false⟩
    let accept := Segment.writeMessage 0 ⟨Handshake.number, .responder⟩
      [0x83, 1, 14, 0x84, 0x18, 0x2a, 0xf4, 0, 0xf4]
    let t : Trial := .reached [accept] (.outcome (.accepted 14 data))
    let after := t.play ChainStore.source .standard crew (.new 7 1000) b
    (∃ name, after.1 = .error (.agent (.alreadyBound name))) ∧
      b.connectionAt 0 = none ∧ after.2.2.connectionAt 0 = some 7 ∧
      b.connectionAt 1 = none ∧ after.2.2.connectionAt 1 = some 7 ∧
      ∀ attempts, ∀ result ∈ (playAll ChainStore.source .standard crew attempts after.2.2).1,
        ∃ e, result = .error e := by
  intro crew b data accept t after
  have nothing : after.1.toOption = none := by decide +kernel
  have held : after.2.2.connectionAt 0 = some 7 := by decide +kernel
  have alsoHeld : after.2.2.connectionAt 1 = some 7 := by decide +kernel
  cases result : after.1 with
  | ok agreed =>
    rw [result] at nothing
    cases nothing
  | error e =>
    have run : t.play ChainStore.source .standard crew (.new 7 1000) b =
        (.error e, after.2.1, after.2.2) := Prod.ext result rfl
    rcases Trial.leaves_bound ChainStore.source .standard (by decide) run with
      untouched | ⟨-, name, -, -, -, rfl, -, -, -, hopeless⟩
    · rcases untouched 1 with same | ⟨own, -⟩
      · rw [alsoHeld] at same
        cases same
      · cases own
    · exact ⟨⟨name, rfl⟩, rfl, held, rfl, alsoHeld, hopeless⟩

end ChainRelay.Session
