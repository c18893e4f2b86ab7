import ChainRelay.Proofs.Connection.Queue

/-! Which handles are bound, and to which connection. Only binding and unbinding change that, each
at its own place; a connection that closes keeps the handles that are bound to it. -/
namespace ChainRelay

variable {σ A State Message Event : Type}

theorem Handle.bind_of_bound (k : AgentKind σ A State Message Event) {h : Handle A} {old : Line}
    (bound : h.line = some old) (line : Line) :
    (h.bind k line).1 = .error (.alreadyBound k.protocol.name) ∧
      (h.bind k line).2.2.line = some old := by
  rw [bind, bound]
  exact ⟨rfl, bound⟩

namespace AnyHandle

variable (chain : ChainSource σ) (x : AnyHandle)

theorem bind_of_unbound (loose : x.line = none) (line : Line) :
    (x.bind chain line).1.1 = .ok () ∧ (x.bind chain line).2.line = some line := by
  cases x with
  | handshake h => exact Handle.bind_of_unbound (Handshake.Party.kind σ) loose line
  | chainSyncClient h => exact Handle.bind_of_unbound (ChainSync.Client.kind σ) loose line
  | chainSyncServer h => exact Handle.bind_of_unbound (ChainSync.Server.kind chain) loose line
  | blockFetchClient h => exact Handle.bind_of_unbound (BlockFetch.Client.kind σ) loose line
  | blockFetchServer h => exact Handle.bind_of_unbound (BlockFetch.Server.kind chain) loose line
  | keepAliveClient h => exact Handle.bind_of_unbound (KeepAlive.Client.kind σ) loose line
  | keepAliveServer h => exact Handle.bind_of_unbound (KeepAlive.Server.kind σ) loose line

theorem bind_of_bound {old : Line} (bound : x.line = some old) (line : Line) :
    ∃ name, (x.bind chain line).1.1 = .error (.alreadyBound name) ∧
      (x.bind chain line).2.line = some old := by
  cases x with
  | handshake h => exact ⟨_, Handle.bind_of_bound (Handshake.Party.kind σ) bound line⟩
  | chainSyncClient h => exact ⟨_, Handle.bind_of_bound (ChainSync.Client.kind σ) bound line⟩
  | chainSyncServer h => exact ⟨_, Handle.bind_of_bound (ChainSync.Server.kind chain) bound line⟩
  | blockFetchClient h => exact ⟨_, Handle.bind_of_bound (BlockFetch.Client.kind σ) bound line⟩
  | blockFetchServer h => exact ⟨_, Handle.bind_of_bound (BlockFetch.Server.kind chain) bound line⟩
  | keepAliveClient h => exact ⟨_, Handle.bind_of_bound (KeepAlive.Client.kind σ) bound line⟩
  | keepAliveServer h => exact ⟨_, Handle.bind_of_bound (KeepAlive.Server.kind σ) bound line⟩

theorem unbind_line : (x.unbind chain).line = none := by
  cases x <;> rfl

theorem reset_line : (x.reset chain).line = x.line := by
  cases x <;> rfl

theorem closeLine_connection :
    (x.closeLine chain).line.map (·.connection) = x.line.map (·.connection) := by
  have closed :
      (x.closeLine chain).line = x.line.map fun line => { line with isOpen := false } := by
    cases x <;> rfl
  rw [closed, Option.map_map]
  rfl

end AnyHandle

/-- From one board to the other the handles at these places have been moved to this connection, or
to none, and all others are where they were. -/
structure Board.Moved (places : List Nat) (target : Option Nat) (b b' : Board σ) : Prop where
  length_eq : b'.handles.length = b.handles.length
  connectionAt_eq : ∀ place,
    b'.connectionAt place = if place ∈ places then target else b.connectionAt place

namespace Board

variable {b b₁ b₂ : Board σ} {places others : List Nat} {target last : Option Nat} {place : Nat}

namespace Moved

theorem refl (b : Board σ) (target : Option Nat) : Moved [] target b b :=
  ⟨rfl, fun _ => by simp⟩

theorem of_same (length_eq : b₁.handles.length = b.handles.length)
    (same : ∀ place, b₁.connectionAt place = b.connectionAt place) (target : Option Nat) :
    Moved [] target b b₁ :=
  ⟨length_eq, fun place => by simp [same]⟩

theorem trans (first : Moved places target b b₁) (later : Moved others target b₁ b₂) :
    Moved (places ++ others) target b b₂ where
  length_eq := later.length_eq.trans first.length_eq
  connectionAt_eq place := by
    rw [later.connectionAt_eq, first.connectionAt_eq]
    by_cases again : place ∈ others
    · simp [again]
    · simp [again]

theorem replaced (first : Moved places target b b₁) (later : Moved others last b₁ b₂)
    (covered : ∀ place ∈ places, place ∈ others) : Moved others last b b₂ where
  length_eq := later.length_eq.trans first.length_eq
  connectionAt_eq place := by
    rw [later.connectionAt_eq, first.connectionAt_eq]
    by_cases again : place ∈ others
    · simp [again]
    · have before : place ∉ places := fun member => again (covered place member)
      simp [again, before]

theorem at_of_mem (moved : Moved places target b b₁) (member : place ∈ places) :
    b₁.connectionAt place = target := by
  rw [moved.connectionAt_eq, if_pos member]

theorem at_of_not_mem (moved : Moved places target b b₁) (other : place ∉ places) :
    b₁.connectionAt place = b.connectionAt place := by
  rw [moved.connectionAt_eq, if_neg other]

theorem free_before {connection : Nat} (moved : Moved [place] (some connection) b b₁)
    (loose : b.connectionAt place = none) (free : ∀ other ∈ others, b₁.connectionAt other = none) :
    place ∉ others ∧ ∀ other ∈ place :: others, b.connectionAt other = none := by
  have apart : place ∉ others := by
    intro member
    have bound := moved.at_of_mem (List.mem_singleton_self place)
    rw [free place member] at bound
    cases bound
  refine ⟨apart, List.forall_mem_cons.mpr ⟨loose, fun other member => ?_⟩⟩
  have distinct : other ∉ [place] := by simpa using ne_of_mem_of_not_mem member apart
  rw [← moved.at_of_not_mem distinct]
  exact free other member

theorem bound_before {taken : Nat} (moved : Moved [place] target b b₁)
    (why : b₁.connectionAt taken ≠ none ∨ taken ∈ others) :
    b.connectionAt taken ≠ none ∨ taken ∈ place :: others := by
  by_cases own : taken = place
  · exact .inr (own ▸ List.mem_cons_self)
  · rw [moved.at_of_not_mem (by simpa using own)] at why
    exact why.imp_right (List.mem_cons_of_mem _)

end Moved

variable (chain : ChainSource σ)

theorem moved_reset (place : Nat) (b : Board σ) (target : Option Nat) :
    Moved [] target b (b.reset chain place) :=
  .of_same (List.length_modify _ _ _) (connectionAt_modify (AnyHandle.reset_line chain)) target

theorem moved_deliver (payload : Bytes) (place : Nat) (b : Board σ) (target : Option Nat) :
    Moved [] target b (b.deliver chain place payload) := by
  apply Moved.of_same
  · unfold deliver operate
    split
    · rfl
    · exact List.length_set
  · exact connectionAt_operate fun w x => AnyHandle.stays_deliver chain payload w x

theorem moved_hangUp (connection : Nat) (b : Board σ) (target : Option Nat) :
    Moved [] target b (b.hangUp chain connection) := by
  apply Moved.of_same
  · exact List.length_map _
  · intro place
    rw [connectionAt, connectionAt, hangUp, List.getElem?_map]
    cases b.handles[place]? with
    | none => rfl
    | some x =>
      change Option.map _ (if _ then x.closeLine chain else x).line = x.line.map _
      split
      · exact x.closeLine_connection chain
      · rfl

theorem moved_unbind (place : Nat) (b : Board σ) : Moved [place] none b (b.unbind chain place) := by
  constructor
  · exact List.length_modify _ _ _
  · intro other
    rw [connectionAt, unbind, modify, List.getElem?_modify]
    by_cases same : place = other
    · subst same
      cases b.handles[place]? <;> simp [AnyHandle.unbind_line]
    · have apart : other ∉ [place] := by simpa using Ne.symm same
      rw [if_neg apart, connectionAt]
      simp [same]

theorem moved_note {x : AnyHandle} (here : b.handles[place]? = some x) (e : Effects AnyEvent)
    (x' : AnyHandle) :
    Moved [place] (x'.line.map (·.connection)) b (b.note place e x') := by
  constructor
  · exact List.length_set
  · intro other
    by_cases same : other = place
    · subst same
      rw [connectionAt_of_handle (handles_note e here x'), if_pos (List.mem_singleton_self _)]
    · have apart : other ∉ [place] := by simpa using same
      rw [connectionAt_note_of_ne e x' (Ne.symm same), if_neg apart]

theorem bind_of_unbound (onBoard : place < b.handles.length) (loose : b.connectionAt place = none)
    (connection : Nat) (isOpen : Bool) :
    (b.bind chain place connection isOpen).1 = .ok () ∧
      Moved [place] (some connection) b (b.bind chain place connection isOpen).2 := by
  obtain ⟨x, here⟩ : ∃ x, b.handles[place]? = some x := ⟨_, List.getElem?_eq_getElem onBoard⟩
  rw [connectionAt_of_handle here] at loose
  obtain ⟨done, line⟩ := x.bind_of_unbound chain (Option.map_eq_none_iff.mp loose)
    ⟨connection, (x.role chain).outbound, isOpen⟩
  have moved := moved_note here (x.bind chain ⟨connection, (x.role chain).outbound, isOpen⟩).1.2
    (x.bind chain ⟨connection, (x.role chain).outbound, isOpen⟩).2
  rw [line] at moved
  rw [bind, here]
  exact ⟨done, moved⟩

theorem bind_of_bound (bound : b.connectionAt place ≠ none) (connection : Nat) (isOpen : Bool) :
    (∃ name, (b.bind chain place connection isOpen).1 = .error (.alreadyBound name)) ∧
      ∀ target, Moved [] target b (b.bind chain place connection isOpen).2 := by
  cases here : b.handles[place]? with
  | none =>
    rw [connectionAt, here] at bound
    exact absurd rfl bound
  | some x =>
    rw [connectionAt_of_handle here] at bound
    obtain ⟨old, has⟩ := Option.ne_none_iff_exists'.mp (fun none => bound (congrArg _ none))
    obtain ⟨name, refused, line⟩ :=
      x.bind_of_bound chain has ⟨connection, (x.role chain).outbound, isOpen⟩
    have moved := moved_note here (x.bind chain ⟨connection, (x.role chain).outbound, isOpen⟩).1.2
      (x.bind chain ⟨connection, (x.role chain).outbound, isOpen⟩).2
    rw [line] at moved
    rw [bind, here]
    refine ⟨⟨name, refused⟩, fun target => .of_same moved.length_eq (fun other => ?_) target⟩
    by_cases same : other = place
    · subst same
      rw [moved.at_of_mem (List.mem_singleton_self _), connectionAt_of_handle here, has]
    · exact moved.at_of_not_mem (by simpa using same)

end Board

namespace Link

variable (chain : ChainSource σ) {b : Board σ} {l : Link} {place : Nat}

theorem moved_receive (bytes : Bytes) (l : Link) (b : Board σ) (target : Option Nat) :
    Board.Moved [] target b (l.receive chain bytes b).2.2 := by
  apply receive_keeps chain (P := fun b' => Board.Moved [] target b b') _ bytes l (.refl b target)
  intro b' place payload moved
  exact moved.trans (Board.moved_deliver chain payload place b' target)

theorem bind_of_unbound (onBoard : place < b.handles.length) (loose : b.connectionAt place = none)
    (l : Link) :
    ∃ l' b', l.bind chain place b = (.ok (), l', b') ∧ l'.id = l.id ∧
      Board.Moved [place] (some l.id) b b' := by
  obtain ⟨done, moved⟩ := Board.bind_of_unbound chain onBoard loose (l.route chain place b).id
    (l.route chain place b).isOpen
  have same : some (l.route chain place b).id = some l.id :=
    congrArg some (route_id chain place b l)
  rw [same] at moved
  exact ⟨_, _, Prod.ext done rfl, route_id chain place b l, moved⟩

theorem bind_of_bound (bound : b.connectionAt place ≠ none) (l : Link) :
    ∃ name l' b', l.bind chain place b = (.error (.alreadyBound name), l', b') ∧
      ∀ target, Board.Moved [] target b b' := by
  obtain ⟨⟨name, refused⟩, moved⟩ := Board.bind_of_bound chain bound (l.route chain place b).id
    (l.route chain place b).isOpen
  exact ⟨name, _, _, Prod.ext refused rfl, moved⟩

/-- All of the places are bound, or those before one that is bound already or stands there twice. -/
theorem bindAll_cases {places : List Nat} (onBoard : ∀ place ∈ places, place < b.handles.length) :
    ((l.bindAll chain places b).1 = .ok () ∧ places.Nodup ∧
      (∀ place ∈ places, b.connectionAt place = none) ∧
      Board.Moved places (some l.id) b (l.bindAll chain places b).2.2) ∨
    (∃ before taken after name, places = before ++ taken :: after ∧
      (l.bindAll chain places b).1 = .error (.alreadyBound name) ∧
      (∀ place ∈ before, b.connectionAt place = none) ∧
      (b.connectionAt taken ≠ none ∨ taken ∈ before) ∧
      Board.Moved before (some l.id) b (l.bindAll chain places b).2.2) := by
  induction places generalizing l b with
  | nil => exact .inl ⟨rfl, .nil, by simp, .refl b _⟩
  | cons place places ih =>
    rw [bindAll]
    by_cases loose : b.connectionAt place = none
    · obtain ⟨l', b', bound, same, moved⟩ :=
        bind_of_unbound chain (onBoard place List.mem_cons_self) loose l
      rw [bound, ← same]
      rw [← same] at moved
      have onBoard' : ∀ other ∈ places, other < b'.handles.length := by
        intro other member
        rw [moved.length_eq]
        exact onBoard other (List.mem_cons_of_mem _ member)
      rcases ih (l := l') onBoard' with ⟨done, nodup, unbound, rest⟩ |
          ⟨before, taken, after, name, rfl, refused, unbound, why, rest⟩
      · obtain ⟨apart, free⟩ := moved.free_before loose unbound
        exact .inl ⟨done, List.nodup_cons.mpr ⟨apart, nodup⟩, free, moved.trans rest⟩
      · exact .inr ⟨place :: before, taken, after, name, rfl, refused,
          (moved.free_before loose unbound).2, moved.bound_before why, moved.trans rest⟩
    · obtain ⟨name, l', b', refused, moved⟩ := bind_of_bound chain loose l
      rw [refused]
      exact .inr ⟨[], place, places, name, rfl, rfl, by simp, .inl loose, moved _⟩

end Link
end ChainRelay
