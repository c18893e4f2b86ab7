import ChainRelay.Connection.Link

/-! What is queued on a connection. A handle sends on the line that it is bound to and
stays on it, so what is queued on a connection only grows, and only by what the handles
bound to that connection do. -/
namespace ChainRelay

variable {σ A State Message Event : Type}

/-- What an operation on a handle does not do: change the line, or send without one. -/
structure Stays (line : Option Line) (sent : List Packet) (line' : Option Line) : Prop where
  line_eq : line' = line
  silent : line = none → sent = []

theorem Stays.refl (line : Option Line) : Stays line [] line := ⟨rfl, fun _ => rfl⟩

namespace Handle

variable (k : AgentKind σ A State Message Event)

theorem sendOne_of_unbound {h : Handle A} (loose : h.line = none) :
    sendOne k h = (.ok none, h) := by
  rw [sendOne, loose]

theorem sendOne_line (h : Handle A) : (sendOne k h).2.line = h.line := by
  unfold sendOne
  split
  · split
    · rfl
    · split <;> rfl
  · rfl

theorem stays_pumpFor (fuel : Nat) (h : Handle A) :
    Stays h.line (pumpFor k fuel h).1 (pumpFor k fuel h).2.line := by
  induction fuel generalizing h with
  | zero => exact .refl _
  | succ fuel ih =>
    have same := sendOne_line k h
    unfold pumpFor
    split
    · rename_i packet h' step
      rw [step] at same
      refine ⟨(ih h').line_eq.trans same, fun loose => ?_⟩
      rw [sendOne_of_unbound k loose] at step
      cases step
    · rename_i h' step
      rw [step] at same
      exact ⟨same, fun _ => rfl⟩

theorem stays_pump (h : Handle A) : Stays h.line (pump k h).1 (pump k h).2.line :=
  stays_pumpFor k _ h

theorem stays_receive (m : Message) (h : Handle A) (w : σ) :
    Stays h.line (receive k m h w).2.1.sent (receive k m h w).2.2.1.line := by
  unfold receive
  split
  · exact .refl _
  · rename_i agent w' _
    exact stays_pump k { h with agent }

theorem stays_deliver (payload : Bytes) (h : Handle A) (w : σ) :
    Stays h.line (deliver k payload h w).1.sent (deliver k payload h w).2.1.line := by
  unfold deliver
  split
  · exact .refl _
  · exact stays_receive k _ h w

theorem bind_of_unbound {h : Handle A} (loose : h.line = none) (line : Line) :
    (bind k line h).1 = .ok () ∧ (bind k line h).2.2.line = some line := by
  rw [bind, loose]
  exact ⟨rfl, (stays_pump k { h with line := some line }).line_eq⟩

end Handle

namespace AnyHandle

variable (chain : ChainSource σ)

theorem stays_deliver (payload : Bytes) (w : σ) (x : AnyHandle) :
    Stays x.line (x.deliver chain payload w).1.1.sent (x.deliver chain payload w).2.line := by
  cases x with
  | handshake h => exact Handle.stays_deliver (Handshake.Party.kind σ) payload h w
  | chainSyncClient h => exact Handle.stays_deliver (ChainSync.Client.kind σ) payload h w
  | chainSyncServer h => exact Handle.stays_deliver (ChainSync.Server.kind chain) payload h w
  | blockFetchClient h => exact Handle.stays_deliver (BlockFetch.Client.kind σ) payload h w
  | blockFetchServer h => exact Handle.stays_deliver (BlockFetch.Server.kind chain) payload h w
  | keepAliveClient h => exact Handle.stays_deliver (KeepAlive.Client.kind σ) payload h w
  | keepAliveServer h => exact Handle.stays_deliver (KeepAlive.Server.kind σ) payload h w

theorem sealListeners_line (x : AnyHandle) : (x.sealListeners chain).line = x.line := by
  cases x <;> rfl

end AnyHandle

namespace Board

variable {b : Board σ} {place connection : Nat}

def queued (connection : Nat) (b : Board σ) : List Packet :=
  (b.sent.filter fun s => s.connection = connection).map (·.packet)

def connectionAt (place : Nat) (b : Board σ) : Option Nat :=
  (b.handles[place]?).bind fun x => x.line.map (·.connection)

theorem connectionAt_of_handle {x : AnyHandle} (here : b.handles[place]? = some x) :
    b.connectionAt place = x.line.map (·.connection) := by
  rw [connectionAt, here]
  rfl

theorem queued_note (e : Effects AnyEvent) (x : AnyHandle) :
    (b.note place e x).queued connection = b.queued connection ++
      if (x.line.map (·.connection)).getD 0 = connection then e.sent else [] := by
  rw [queued, note, List.filter_append, List.map_append]
  congr 1
  split
  · rename_i same
    rw [List.filter_eq_self.mpr (by simp [same]), List.map_map]
    exact List.map_id _
  · rename_i apart
    rw [List.filter_eq_nil_iff.mpr (by simp [apart])]
    rfl

theorem handles_note (e : Effects AnyEvent) {x : AnyHandle} (here : b.handles[place]? = some x)
    (x' : AnyHandle) : (b.note place e x').handles[place]? = some x' :=
  List.getElem?_set_self (List.getElem?_eq_some_iff.mp here).1

theorem handles_note_of_ne (e : Effects AnyEvent) (x : AnyHandle) {other : Nat}
    (apart : place ≠ other) : (b.note place e x).handles[other]? = b.handles[other]? :=
  List.getElem?_set_ne apart

theorem connectionAt_note_of_ne (e : Effects AnyEvent) (x : AnyHandle) {other : Nat}
    (apart : place ≠ other) : (b.note place e x).connectionAt other = b.connectionAt other := by
  rw [connectionAt, handles_note_of_ne e x apart, connectionAt]

section Operate

variable {f : σ → AnyHandle → (Effects AnyEvent × σ) × AnyHandle}

theorem operate_of_handle {x : AnyHandle} (here : b.handles[place]? = some x) :
    b.operate place f =
      { b with world := (f b.world x).1.2 }.note place (f b.world x).1.1 (f b.world x).2 := by
  rw [operate, here]

theorem handles_operate {x : AnyHandle} (here : b.handles[place]? = some x) :
    (b.operate place f).handles[place]? = some (f b.world x).2 := by
  rw [operate_of_handle here]
  exact handles_note (b := { b with world := (f b.world x).1.2 }) _ here _

theorem handles_operate_of_ne {other : Nat} (apart : place ≠ other) :
    (b.operate place f).handles[other]? = b.handles[other]? := by
  cases here : b.handles[place]? with
  | none => rw [operate, here]
  | some x =>
    rw [operate_of_handle here]
    exact handles_note_of_ne _ _ apart

theorem queued_prefix_operate :
    b.queued connection <+: (b.operate place f).queued connection := by
  cases here : b.handles[place]? with
  | none =>
    have kept : b.operate place f = b := by rw [operate, here]
    exact kept.symm ▸ List.prefix_rfl
  | some x =>
    rw [operate_of_handle here, queued_note]
    exact List.prefix_append _ _

variable (stays : ∀ w x, Stays (AnyHandle.line x) (f w x).1.1.sent (f w x).2.line)
include stays

theorem connectionAt_operate (other : Nat) :
    (b.operate place f).connectionAt other = b.connectionAt other := by
  by_cases same : place = other
  · subst same
    cases here : b.handles[place]? with
    | none => rw [operate, here]
    | some x =>
      rw [connectionAt_of_handle (handles_operate here), connectionAt_of_handle here,
        (stays b.world x).line_eq]
  · rw [connectionAt, handles_operate_of_ne same, connectionAt]

theorem queued_operate {x : AnyHandle} (here : b.handles[place]? = some x) :
    (b.operate place f).queued connection = b.queued connection ++
      if x.line.map (·.connection) = some connection then (f b.world x).1.1.sent else [] := by
  have kept := stays b.world x
  rw [operate_of_handle here, queued_note, kept.line_eq]
  change b.queued connection ++ _ = _
  cases bound : x.line with
  | none => simp [kept.silent bound]
  | some line => simp

theorem queued_operate_of_apart (apart : b.connectionAt place ≠ some connection) :
    (b.operate place f).queued connection = b.queued connection := by
  cases here : b.handles[place]? with
  | none => rw [operate, here]
  | some x =>
    rw [connectionAt_of_handle here] at apart
    rw [queued_operate stays here, if_neg apart, List.append_nil]

end Operate

variable (chain : ChainSource σ)

theorem queued_prefix_bind (isOpen : Bool) (target : Nat) :
    b.queued connection <+: (b.bind chain place target isOpen).2.queued connection := by
  unfold bind
  split
  · exact List.prefix_rfl
  · rw [queued_note]
    exact List.prefix_append _ _

theorem connectionAt_modify {f : AnyHandle → AnyHandle} (same : ∀ x, (f x).line = x.line)
    (other : Nat) : (b.modify place f).connectionAt other = b.connectionAt other := by
  rw [connectionAt, modify, List.getElem?_modify]
  cases here : b.handles[other]? with
  | none => rw [connectionAt, here]; rfl
  | some x =>
    rw [connectionAt_of_handle here]
    change (if place = other then f x else x).line.map _ = _
    split
    · rw [same]
    · rfl

theorem queued_unbindAll (places : List Nat) :
    (b.unbindAll chain places).queued connection = b.queued connection := by
  rw [unbindAll]
  induction places generalizing b with
  | nil => rfl
  | cons place places ih => exact ih

variable (connection) in
theorem sealAll_unseen (places : List Nat) (b : Board σ) :
    (b.sealAll chain places).queued connection = b.queued connection ∧
      ∀ other, (b.sealAll chain places).connectionAt other = b.connectionAt other := by
  rw [sealAll]
  induction places generalizing b with
  | nil => exact ⟨rfl, fun _ => rfl⟩
  | cons place places ih =>
    obtain ⟨quiet, there⟩ := ih (b.modify place (·.sealListeners chain))
    refine ⟨quiet, fun other => (there other).trans ?_⟩
    exact connectionAt_modify (AnyHandle.sealListeners_line chain) other

end Board

namespace Link

variable (chain : ChainSource σ)

theorem route_id (place : Nat) (b : Board σ) (l : Link) : (l.route chain place b).id = l.id := by
  unfold route
  split <;> rfl

theorem foldl_route_id (b : Board σ) (places : List Nat) (l : Link) :
    (places.foldl (fun l place => l.route chain place b) l).id = l.id := by
  induction places generalizing l with
  | nil => rfl
  | cons place places ih => exact (ih _).trans (route_id chain place b l)

theorem receive_keeps {P : Board σ → Prop}
    (kept : ∀ b place payload, P b → P (b.deliver chain place payload)) (bytes : Bytes) (l : Link)
    {b : Board σ} (holds : P b) : P (l.receive chain bytes b).2.2 := by
  change P (List.foldl _ b (l.demuxer.push bytes).1)
  generalize (l.demuxer.push bytes).1 = items
  induction items generalizing b with
  | nil => exact holds
  | cons item items ih =>
    apply ih
    cases item with
    | error e => exact holds
    | ok packet =>
      change P (l.dispatch chain packet b)
      unfold dispatch
      split
      · exact holds
      · exact kept _ _ _ holds

theorem bindAll_keeps {P : Board σ → Prop}
    (kept : ∀ b place connection isOpen, P b → P (b.bind chain place connection isOpen).2)
    (places : List Nat) (l : Link) {b : Board σ} (holds : P b) :
    P (l.bindAll chain places b).2.2 := by
  induction places generalizing l b with
  | nil => exact holds
  | cons place places ih =>
    have bound : P (l.bind chain place b).2.2 := kept _ _ _ _ holds
    unfold bindAll
    split
    · rename_i l' b' step
      rw [step] at bound
      exact ih l' bound
    · rename_i e l' b' step
      rw [step] at bound
      exact bound

end Link
end ChainRelay
