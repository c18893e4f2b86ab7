import ChainRelay.Proofs.ChainSync.Lookups

/-! What a server remembers of the points that it gave its client, and how far back a
reorganisation takes the client. The server keeps the newest points, as many as its window
holds, and goes back over those that have gone to the first that stands. -/
namespace ChainRelay.ChainSync

def Message.advances (k : Nat) : Message → Nat
  | .rollForward _ _ => k + 1
  | .intersectFound _ _ | .rollBackward _ _ => 0
  | _ => k

def forwards (said : List Message) : Nat := said.foldl Message.advances 0

theorem forwards_concat (said : List Message) (m : Message) :
    forwards (said ++ [m]) = m.advances (forwards said) := by
  simp [forwards]

theorem forwards_append_idles {said quiet : List Message} (idle : ∀ m ∈ quiet, m.idles = true) :
    forwards (said ++ quiet) = forwards said := by
  refine foldl_append_idles (fun k m still => ?_) idle 0
  cases m with
  | awaitReply | intersectNotFound _ => rfl
  | _ => cases still

/-! ### The newest of a list -/

section
variable {α : Type} {l kept : List α}

theorem suffix_rtake {n : Nat} (part : l <:+ kept) (short : l.length ≤ n) : l <:+ kept.rtake n := by
  refine List.suffix_of_suffix_length_le part (List.drop_suffix _ _) ?_
  have within := part.length_le
  simp only [List.rtake, List.length_drop]
  omega

theorem length_rtake (l : List α) (n : Nat) : (l.rtake n).length = min n l.length := by
  simp only [List.rtake, List.length_drop]
  omega

theorem rtake_concat_suffix {window k : Nat} (wide : 1 ≤ window)
    (recent : l.rtake (min window (k + 1)) <:+ kept) (a : α) :
    (l ++ [a]).rtake (min window (k + 1 + 1)) <:+ (kept ++ [a]).rtake window := by
  obtain ⟨n, rfl⟩ : ∃ n, window = n + 1 := ⟨window - 1, by omega⟩
  have one_more : min (n + 1) (k + 1 + 1) = min n (k + 1) + 1 := by omega
  rw [one_more, List.rtake_concat_succ, List.rtake_concat_succ, List.suffix_append_self_iff]
  have fewer : (l.rtake (min n (k + 1))).length ≤ min n (k + 1) := by
    rw [length_rtake]
    exact Nat.min_le_left _ _
  refine suffix_rtake (List.IsSuffix.trans ?_ recent) (by omega)
  exact suffix_rtake (List.drop_suffix _ _) (by omega)

end

namespace Server

variable {σ : Type} {chain : ChainSource σ} {known : Point → Prop} {w : σ}

/-! ### Where the client has been -/

/-- Where a message puts the client. A roll forward puts it at the block that the chain names
after the point given last. -/
def leadsTo (chain : ChainSource σ) (s : Server) (w : σ) : Message → Option Point
  | .intersectFound p _ | .rollBackward p _ => some p
  | .rollForward _ _ => do
    let last ← s.lastSent
    let next ← ((chain.nextAfter last).run w).1.toOption
    next
  | _ => none

/-- The points that the client was given since the server was made or reset, oldest first. -/
def positions (chain : ChainSource σ) (log : List (Entry σ Server Message Empty)) : List Point :=
  (Conduct.sinceReset log).filterMap fun e => e.note.queued?.bind (leadsTo chain e.agent e.world)

theorem positions_append {log : List (Entry σ Server Message Empty)} {s : Server}
    {notes : List (Note Message Empty)} (on : ∀ n ∈ notes, n.isReset = false) :
    positions chain (log ++ Conduct.entries s w notes) =
      positions chain log ++ (notes.filterMap Note.queued?).filterMap (leadsTo chain s w) := by
  rw [positions, Conduct.sinceReset_append on, List.filterMap_append, Conduct.entries,
    List.filterMap_map, List.filterMap_filterMap]
  rfl

theorem leadsTo_idles {s : Server} {quiet : List Message} (idle : ∀ m ∈ quiet, m.idles = true) :
    quiet.filterMap (leadsTo chain s w) = [] := by
  refine List.filterMap_eq_nil_iff.mpr fun m member => ?_
  have still := idle m member
  cases m with
  | awaitReply | intersectNotFound _ => rfl
  | _ => cases still

/-- What a server has of the points that its client was given, the last `k` of them by roll
forwards. -/
structure Remembers (window : Nat) (points : List Point) (k : Nat) (s : Server) : Prop where
  width : s.window = window
  bounded : s.sent.length ≤ window
  recent : points.rtake (min window (k + 1)) <:+ s.sent
  own : ∀ p ∈ s.sent, p = .origin ∨ p ∈ points

variable {window k : Nat} {points : List Point} {s s' : Server}

theorem Remembers.anchored (before : Remembers window points k s) (wide : 1 ≤ window) {p : Point}
    (width : s'.window = s.window) (bounded : s'.sent.length ≤ window) (led : s'.lastSent = some p)
    (old : ∀ q ∈ s'.sent, q ∈ s.sent ∨ q = p) : Remembers window (points ++ [p]) 0 s' where
  width := width.trans before.width
  bounded := bounded
  recent := by
    obtain ⟨older, kept⟩ := List.getLast?_eq_some_iff.mp led
    have one : min window (0 + 1) = 0 + 1 := by omega
    rw [one, List.rtake_concat_succ, List.rtake_zero, kept]
    exact List.suffix_append older [p]
  own q member := by
    rcases old q member with there | rfl
    · exact (before.own q there).imp_right (List.mem_append_left [p])
    · exact .inr (List.mem_append_right points (List.mem_singleton_self q))

theorem Remembers.record (before : Remembers window points k s) (wide : 1 ≤ window) (p : Point) :
    Remembers window (points ++ [p]) (k + 1) (s.record p) where
  width := before.width
  bounded := by
    change ((s.sent ++ [p]).rtake s.window).length ≤ window
    rw [before.width, length_rtake]
    exact Nat.min_le_left _ _
  recent := by
    change _ <:+ (s.sent ++ [p]).rtake s.window
    rw [before.width]
    exact rtake_concat_suffix wide before.recent p
  own q member := by
    rcases List.mem_append.mp (List.mem_of_mem_drop member) with old | new
    · exact (before.own q old).imp_right (List.mem_append_left [p])
    · exact .inr (List.mem_append_right points new)

theorem Remembers.moves (unfailing : chain.Unfailing known w) (wide : 1 ≤ window)
    (given : ∀ p ∈ s.sent, known p) (before : Remembers window points k s) {m : Message} {v : σ}
    (sought : nextUpdate chain s w = (.ok (some m), s', v)) :
    ∃ p, leadsTo chain s w m = some p ∧ Remembers window (points ++ [p]) (m.advances k) s' ∧
      (Truthful chain s.flavor w → m.goal = some p) := by
  have outcome := nextUpdate_outcome chain s w
  rw [sought] at outcome
  cases outcome with
  | @forked _ p older _ _ _ _ _ _ dropped _ =>
    have part : (p :: older).reverse <+: s.sent := prefix_of_dropped dropped
    have led : ((p :: older).reverse).getLast? = some p := by simp
    exact ⟨_, rfl, before.anchored wide rfl (part.length_le.trans before.bounded) led
      fun q member => .inl (part.subset member), fun _ => rfl⟩
  | adrift _ _ _ _ =>
    exact ⟨_, rfl, before.anchored wide rfl wide rfl
      fun q member => .inr (List.mem_singleton.mp member), fun _ => rfl⟩
  | confirmed reached _ _ _ =>
    exact ⟨_, rfl, before.anchored wide rfl before.bounded reached fun q => .inl, fun _ => rfl⟩
  | @forward last next content t _ _ _ reached on _ found told =>
    obtain ⟨rfl, -⟩ := stands_of_onChain unfailing on
    have fit := given last (List.mem_of_getLast? reached)
    obtain ⟨rfl, -, after⟩ := next_of_following unfailing fit found
    refine ⟨next, ?_, before.record wide next, fun truthful => ?_⟩
    · simp [leadsTo, reached, after, Except.toOption]
    · rw [Message.goal, truthful last _ _ _ _ on found]
      rfl

/-! ### A run -/

structure Recalls (chain : ChainSource σ) (known : Point → Prop) (window : Nat)
    (log : List (Entry σ Server Message Empty)) (s : Server) : Prop where
  fit : ∀ p ∈ s.sent, known p
  remembers : Remembers window (positions chain log) (forwards (Conduct.spoken log)) s
  /-- the client can tell the points from what it has been sent -/
  told : (∀ e ∈ log, Truthful chain e.agent.flavor e.world) →
    positions chain log = (Conduct.spoken log).filterMap Message.goal

variable {log : List (Entry σ Server Message Empty)} {notes : List (Note Message Empty)}

theorem Recalls.place (before : Recalls chain known window log s) (state : State)
    (tipWaiting : Bool) (replies : List Message) :
    Recalls chain known window log { s with state, tipWaiting, replies } :=
  have ⟨width, bounded, recent, own⟩ := before.remembers
  ⟨before.fit, ⟨width, bounded, recent, own⟩, before.told⟩

theorem Recalls.idles (before : Recalls chain known window log s)
    (on : ∀ n ∈ notes, n.isReset = false)
    (quiet : ∀ m ∈ notes.filterMap Note.queued?, m.idles = true) :
    Recalls chain known window (log ++ Conduct.entries s w notes) s where
  fit := before.fit
  remembers := by
    rw [positions_append on, Conduct.spoken_append on, leadsTo_idles quiet, List.append_nil,
      forwards_append_idles quiet]
    exact before.remembers
  told truthful := by
    have silent : (notes.filterMap Note.queued?).filterMap Message.goal = [] :=
      List.filterMap_eq_nil_iff.mpr fun m member => Message.goal_of_idles (quiet m member)
    rw [positions_append on, Conduct.spoken_append on, leadsTo_idles quiet, List.filterMap_append,
      silent, before.told fun e member => truthful e (List.mem_append_left _ member)]

theorem Recalls.queues (before : Recalls chain known window log s)
    (on : ∀ n ∈ notes, n.isReset = false) {m : Message} {p : Point}
    (said : notes.filterMap Note.queued? = [m]) (leads : leadsTo chain s w m = some p)
    (goal : Truthful chain s.flavor w → m.goal = some p) (fit : ∀ p ∈ s'.sent, known p)
    (after : Remembers window (positions chain log ++ [p])
      (m.advances (forwards (Conduct.spoken log))) s') :
    Recalls chain known window (log ++ Conduct.entries s w notes) s' where
  fit := fit
  remembers := by
    rw [positions_append on, Conduct.spoken_append on, said, forwards_concat]
    simpa [leads] using after
  told truthful := by
    have member : .queued m ∈ notes := Note.queued_mem (said ▸ List.mem_singleton_self m)
    have now : Truthful chain s.flavor w :=
      truthful ⟨s, w, .queued m⟩ (List.mem_append_right log (List.mem_map_of_mem member))
    rw [positions_append on, Conduct.spoken_append on, said,
      List.filterMap_append, before.told fun e member => truthful e (List.mem_append_left _ member)]
    simp [leads, goal now]

theorem Recalls.shift (wide : 1 ≤ window) (unfailing : chain.Unfailing known w)
    (before : Recalls chain known window log s) (shift : Shift chain s w notes s') :
    Recalls chain known window (log ++ Conduct.entries s w notes) s' := by
  have fit := known_shift unfailing before.fit shift
  cases shift with
  | stays on quiet => exact before.idles on quiet
  | @begins _ p _ _ on said _ =>
    have anchored : Remembers window (positions chain log ++ [p]) 0
        { s with sent := [p], owesRollback := true } :=
      before.remembers.anchored wide rfl wide rfl fun q member =>
        .inr (List.mem_singleton.mp member)
    exact before.queues on said rfl (fun _ => rfl) fit anchored
  | @fails state _ _ _ on quiet _ sought none =>
    rw [unmoved_unfailing (s := { s with state }) unfailing before.fit sought none]
    exact (before.idles on quiet).place state s.tipWaiting s.replies
  | @moves m state _ _ on said _ sought =>
    obtain ⟨p, leads, after, goal⟩ := Remembers.moves (s := { s with state }) unfailing wide
      before.fit (before.place state s.tipWaiting s.replies).remembers sought
    exact before.queues on said leads goal fit after
  | resets cut =>
    subst cut
    refine ⟨nofun, ?_, fun _ => ?_⟩
    · rw [positions, Conduct.sinceReset_reset, Conduct.spoken_reset]
      exact ⟨before.remembers.width, Nat.zero_le window, by simp, nofun⟩
    · rw [positions, Conduct.sinceReset_reset, Conduct.spoken_reset]
      rfl

theorem recalls_of_recorded {flavor : Flavor} {w₀ : σ} {t : Handle Server × σ} (wide : 1 ≤ window)
    (recorded : (conduct chain).Recorded (.new (.new flavor window), w₀) log t)
    (always : ∀ e ∈ log, chain.Unfailing known e.world) :
    Recalls chain known window log t.1.agent := by
  refine upheld (I := Recalls chain known window) recorded always ?start ?place ?shift
  case start =>
    have fresh : positions chain [] = [] := rfl
    refine ⟨nofun, ⟨Nat.max_eq_left wide, Nat.zero_le window, ?_, nofun⟩, fun _ => rfl⟩
    rw [fresh, List.rtake_nil]
    exact List.nil_suffix
  case place => exact fun state tipWaiting replies before => before.place state tipWaiting replies
  case shift =>
    intro log s w notes s' before shift noted fair
    obtain ⟨n, member⟩ := List.exists_mem_of_ne_nil notes noted
    exact before.shift wide (fair ⟨s, w, n⟩ (List.mem_map_of_mem member)) shift

/-! ### A reorganisation -/

theorem rollsBackTo_of_gone (unfailing : chain.Unfailing known w) {older newest : List Point}
    (kept : s.sent = older ++ newest) (some : newest ≠ []) (gone : ∀ p ∈ newest, Gone chain w p)
    (stands : ∀ p ∈ older.getLast?, Stands chain w p) :
    RollsBackTo chain s w (older.getLast?.getD .origin) := by
  obtain ⟨init, last, rfl⟩ := newest.eq_nil_or_concat.resolve_left some
  have reached : s.lastSent = .some last := by simp [lastSent, kept]
  have off : (onChain chain last).run w = (.ok false, w) := gone last (by simp)
  have placed : s.lastSent ≠ none := by
    rw [reached]
    nofun
  obtain ⟨t, told⟩ := tip_unfailing unfailing
  have skipped : dropOffChain chain s.sent.reverse w = dropOffChain chain older.reverse w := by
    rw [kept, List.reverse_append]
    exact dropOffChain_gone (fun p member => gone p (List.mem_reverse.mp member)) _
  rcases older.eq_nil_or_concat with rfl | ⟨front, q, rfl⟩
  · have dropped : dropOffChain chain s.sent.reverse w = (.ok (), [], w) := skipped
    have sought : nextUpdate chain s w = (.ok (.some (.rollBackward .origin t)),
        { s with sent := [.origin], owesRollback := false }, w) := by
      simp only [nextUpdate, reached, off, commonAncestor, dropped, told]
    exact rollsBackTo_of_nextUpdate placed rfl sought
  · have dropped : dropOffChain chain s.sent.reverse w = (.ok (), q :: front.reverse, w) := by
      rw [skipped, List.concat_eq_append, List.reverse_append]
      exact dropOffChain_stands (stands q (by simp)) _
    have sought : nextUpdate chain s w = (.ok (.some (.rollBackward q t)),
        { s with sent := (q :: front.reverse).reverse, owesRollback := false }, w) := by
      simp only [nextUpdate, reached, off, commonAncestor, dropped, told]
    have led := rollsBackTo_of_nextUpdate placed (by simp [lastSent]) sought
    simpa using led

theorem mem_of_rollBackward {p : Point} {t : Tip} {v : σ}
    (sought : nextUpdate chain s w = (.ok (some (.rollBackward p t)), s', v)) :
    p = .origin ∨ p ∈ s.sent := by
  have outcome := nextUpdate_outcome chain s w
  rw [sought] at outcome
  cases outcome with
  | forked _ _ dropped _ => exact .inr ((prefix_of_dropped dropped).subset (by simp))
  | adrift _ _ _ _ => exact .inl rfl
  | confirmed reached _ _ _ => exact .inr (List.mem_of_getLast? reached)

/-- A server remembers the newest points that it gave its client, as many as there have been
roll forwards since the last roll back or intersection and one more, or as its window holds.
When the newest of them have gone it rolls back to the one before them, and when all have gone,
to the origin. It never rolls back to another point. The points are those that the client can
tell from the headers, if these are right. -/
theorem rolls_back_no_further (chain : ChainSource σ) {flavor : Flavor} {w₀ : σ}
    {t : Handle Server × σ} (wide : 1 ≤ window)
    (recorded : (conduct chain).Recorded (.new (.new flavor window), w₀) log t)
    (always : ∀ e ∈ log, chain.Unfailing known e.world) (now : chain.Unfailing known t.2) :
    ((positions chain log).rtake (min window (forwards (Conduct.spoken log) + 1)) <:+
        t.1.agent.sent ∧ t.1.agent.sent.length ≤ window) ∧
    (∀ older q newest, positions chain log = older ++ q :: newest → newest ≠ [] →
      newest.length < min window (forwards (Conduct.spoken log) + 1) →
      (∀ p ∈ newest, ¬ Stands chain t.2 p) → Stands chain t.2 q →
      RollsBackTo chain t.1.agent t.2 q) ∧
    (t.1.agent.sent ≠ [] → (∀ p ∈ t.1.agent.sent, ¬ Stands chain t.2 p) →
      RollsBackTo chain t.1.agent t.2 .origin) ∧
    (∀ notes u p tip, (conduct chain).Step t notes u → .queued (.rollBackward p tip) ∈ notes →
      p = .origin ∨ p ∈ positions chain log) ∧
    ((∀ e ∈ log, Truthful chain e.agent.flavor e.world) →
      positions chain log = (Conduct.spoken log).filterMap Message.goal) := by
  obtain ⟨fit, ⟨-, bounded, recent, own⟩, told⟩ := recalls_of_recorded wide recorded always
  have gone : ∀ {p}, p ∈ t.1.agent.sent → ¬ Stands chain t.2 p → Gone chain t.2 p :=
    fun member off => (stands_or_gone now (fit _ member)).resolve_left off
  refine ⟨⟨recent, bounded⟩, ?_, ?_, ?_, told⟩
  · intro older q newest given some short off stands
    have part : q :: newest <:+ t.1.agent.sent := by
      refine (suffix_rtake ?_ ?_).trans recent
      · rw [given]
        exact List.suffix_append older _
      · exact short
    obtain ⟨front, kept⟩ := part
    have split : t.1.agent.sent = (front ++ [q]) ++ newest := by simp [← kept]
    have led := rollsBackTo_of_gone now split some
      (fun p member => gone (by simp [split, member]) (off p member)) (by simpa using stands)
    simpa using led
  · intro some off
    have all : t.1.agent.sent = [] ++ t.1.agent.sent := rfl
    exact rollsBackTo_of_gone now all some (fun p member => gone member (off p member)) nofun
  · intro notes u p tip step answer
    obtain ⟨state, s', v, sought⟩ := (turn_of_act step.act).rolledBack answer
    exact (mem_of_rollBackward sought).elim .inl (own p)

open Moment (lower upper)

def climbed (window : Nat) (m : Moment) :
    List (Entry Moment Server Message Empty) × Handle Server × Moment :=
  (conduct (ChainStore.among reorganised)).follow (.new (.new .headers window), .grown)
    (opening lower.point ++ [.change m])

theorem recorded_climbed (window : Nat) (m : Moment) :
    (conduct (ChainStore.among reorganised)).Recorded (.new (.new .headers window), .grown)
      (climbed window m).1 (climbed window m).2 :=
  Conduct.recorded_follow _ _

/-- The second block is replaced. A window of two points has the one before it, and a window of
one point has not. -/
theorem rolls_back_no_further_replaced :
    RollsBackTo (ChainStore.among reorganised) (climbed 2 .replaced).2.1.agent
        (climbed 2 .replaced).2.2 lower.point ∧
      RollsBackTo (ChainStore.among reorganised) (climbed 1 .replaced).2.1.agent
        (climbed 1 .replaced).2.2 .origin := by
  obtain ⟨given, forward, kept, two, one⟩ :
      positions (ChainStore.among reorganised) (climbed 2 .replaced).1 =
        [lower.point, lower.point, upper.point] ∧
      forwards (Conduct.spoken (climbed 2 .replaced).1) = 1 ∧
      (climbed 1 .replaced).2.1.agent.sent = [upper.point] ∧
      (climbed 2 .replaced).2.2 = .replaced ∧ (climbed 1 .replaced).2.2 = .replaced := by
    decide +kernel
  obtain ⟨-, back, -⟩ := rolls_back_no_further (ChainStore.among reorganised) (by decide)
    (recorded_climbed 2 .replaced) (fun e _ => unfailing_reorganised e.world)
    (unfailing_reorganised _)
  obtain ⟨-, -, adrift, -⟩ := rolls_back_no_further (ChainStore.among reorganised) (by decide)
    (recorded_climbed 1 .replaced) (fun e _ => unfailing_reorganised e.world)
    (unfailing_reorganised _)
  rw [two, given, forward] at back
  rw [one, kept] at adrift
  rw [two, one]
  refine ⟨back [lower.point] lower.point [upper.point] rfl nofun (by decide) ?_
    stands_replaced, adrift nofun ?_⟩
  · simpa using fun on : Stands _ _ _ => on.not_gone gone_replaced
  · simpa using fun on : Stands _ _ _ => on.not_gone gone_replaced

end Server
end ChainRelay.ChainSync
