import ChainRelay.ChainSync.Server
import ChainRelay.Proofs.Cbor.Shape
import ChainRelay.Proofs.Chain.Blocks

/-! What the serving side says over a chain that answers rightly. An update leads on from
the point given last, or back to a point of the chain, and the point given last is then
where it leads. -/
namespace ChainRelay

def StoredBlock.content (b : StoredBlock) : ChainSync.Flavor → Except Cbor.Error HeaderContent
  | .headers => HeaderContent.decode b.header
  | .blocks => .ok (.block b.body)

/-- The block can be sent, and the receiver can tell where it sits. -/
def StoredBlock.Serves (flavor : ChainSync.Flavor) (b : StoredBlock) : Prop :=
  ∃ content, b.content flavor = .ok content ∧ content.point = .ok b.point

theorem StoredBlock.Serves.hash {flavor : ChainSync.Flavor} {b : StoredBlock}
    (serves : b.Serves flavor) : b.point.hash.isSome := by
  obtain ⟨content, -, point⟩ := serves
  obtain ⟨slot, -, hashed⟩ := Cbor.bind_eq_ok.mp point
  obtain ⟨hash, -, same⟩ := Cbor.bind_eq_ok.mp hashed
  rw [← Except.ok.inj same]
  rfl

namespace ChainSync.Server
open Blocks (Holds Follows)

variable {σ : Type} {chain : ChainSource σ} {known : Point → Prop} {w : σ}
  {l : List StoredBlock}

theorem tip_run (right : chain.Answers known w l) : ∃ t, tip chain w = (t, w) := by
  rw [tip, right.tip]
  cases l.getLast? with
  | none => exact ⟨_, rfl⟩
  | some b => exact ⟨_, rfl⟩

theorem hasPoint_run (right : chain.Answers known w l) {p : Point} (block : p ≠ .origin) :
    ∃ r, (chain.hasPoint p).run w = (r, w) ∧ (r = .ok true → Holds l p) ∧
      (known p → r = .ok true ∨ r = .ok false ∧ ¬ Holds l p) := by
  rcases right.hasPoint_run p with ⟨⟨b, member, rfl⟩, ran⟩ | ⟨absent, r, ran, denied, told⟩
  · exact ⟨_, ran, fun _ => .inr ⟨b, member, rfl⟩, fun _ => .inl rfl⟩
  · have off : ¬ Holds l p := fun held =>
      held.elim block fun ⟨b, member, same⟩ => absent b member same
    exact ⟨r, ran, fun held => absurd held denied, fun asked => .inr ⟨told asked, off⟩⟩

theorem contains_run (right : chain.Answers known w l) (p : Point) :
    ∃ r, (contains chain p).run w = (r, w) ∧ (r = .ok true → Holds l p) := by
  rw [contains]
  split
  · rename_i start
    refine ⟨.ok (l.getLast?.map (·.tip)).isSome, ?_, fun _ => .inl (Point.isOrigin_iff.mp start)⟩
    rw [Lookup.run_bind, right.tip]
    rfl
  · rename_i block
    obtain ⟨r, ran, held, -⟩ := hasPoint_run right fun same => block (Point.isOrigin_iff.mpr same)
    exact ⟨r, ran, held⟩

theorem onChain_run (right : chain.Answers known w l) {p : Point} (given : p = .origin ∨ known p) :
    (Holds l p ∧ (onChain chain p).run w = (.ok true, w)) ∨
      (¬ Holds l p ∧ (onChain chain p).run w = (.ok false, w)) := by
  rw [onChain]
  split
  · rename_i start
    exact .inl ⟨.inl (Point.isOrigin_iff.mp start), rfl⟩
  · rename_i block
    have apart : p ≠ .origin := fun same => block (Point.isOrigin_iff.mpr same)
    obtain ⟨r, ran, held, told⟩ := hasPoint_run right apart
    rcases told (given.resolve_left apart) with rfl | ⟨rfl, off⟩
    · exact .inl ⟨held rfl, ran⟩
    · exact .inr ⟨off, ran⟩

theorem firstContained_run (right : chain.Answers known w l) (candidates : List Point) :
    ∃ r, firstContained chain candidates w = (r, w) ∧ ∀ p ∈ r, Holds l p := by
  induction candidates with
  | nil => exact ⟨none, rfl, nofun⟩
  | cons p rest ih =>
    obtain ⟨r, ran, held⟩ := contains_run right p
    simp only [firstContained, ran]
    cases r with
    | error e => exact ⟨none, rfl, nofun⟩
    | ok found =>
      cases found with
      | false => exact ih
      | true =>
        refine ⟨some p, rfl, fun q same => ?_⟩
        cases same
        exact held rfl

theorem dropOffChain_run (right : chain.Answers known w l) {points : List Point}
    (given : ∀ p ∈ points, p = .origin ∨ known p) :
    ∃ kept, dropOffChain chain points w = (.ok (), kept, w) ∧ kept <:+ points ∧
      ∀ p ∈ kept.head?, Holds l p := by
  induction points with
  | nil => exact ⟨[], rfl, List.suffix_rfl, nofun⟩
  | cons p older ih =>
    rcases onChain_run right (given p (by simp)) with ⟨held, ran⟩ | ⟨-, ran⟩
    · refine ⟨p :: older, by simp only [dropOffChain, ran], List.suffix_rfl, fun q same => ?_⟩
      cases same
      exact held
    · obtain ⟨kept, dropped, part, held⟩ := ih fun q member => given q (by simp [member])
      exact ⟨kept, by simp only [dropOffChain, ran, dropped], part.trans (List.suffix_cons p older),
        held⟩

theorem commonAncestor_run (right : chain.Answers known w l) {s : Server}
    (given : ∀ p ∈ s.sent, p = .origin ∨ known p) :
    ∃ p sent, commonAncestor chain s w = (.ok p, { s with sent }, w) ∧ Holds l p ∧
      sent.getLast? = some p ∧ ∀ q ∈ sent, q = .origin ∨ q ∈ s.sent := by
  obtain ⟨kept, dropped, part, held⟩ :=
    dropOffChain_run right fun p member => given p (List.mem_reverse.mp member)
  simp only [commonAncestor, dropped]
  cases kept with
  | nil => exact ⟨.origin, [.origin], rfl, .inl rfl, rfl, by simp⟩
  | cons p older =>
    refine ⟨p, (p :: older).reverse, rfl, held p rfl, by simp, fun q member => .inr ?_⟩
    exact List.mem_reverse.mp (part.subset (List.mem_reverse.mp member))

theorem contentAt_run (right : chain.Answers known w l) {b : StoredBlock} (member : b ∈ l)
    {flavor : Flavor} {content : HeaderContent} (read : b.content flavor = .ok content) :
    (contentAt chain flavor b.point).run w = (.ok content, w) := by
  have hash := right.ordered.hash_point member
  cases flavor with
  | headers =>
    have decoded : HeaderContent.decode b.header = .ok content := read
    simp only [contentAt, hash, Lookup.run_bind, right.header b member, decoded]
    rfl
  | blocks =>
    cases read
    simp only [contentAt, hash, Lookup.run_bind, right.body b member]
    rfl

theorem following_run (right : chain.Answers known w l) {flavor : Flavor}
    (serves : ∀ b ∈ l, b.Serves flavor) {p : Point} (held : Holds l p) :
    (following chain flavor p).run w = (.ok none, w) ∨
      ∃ b content, Follows l p b ∧ b.content flavor = .ok content ∧ content.point = .ok b.point ∧
        (following chain flavor p).run w = (.ok (some (b.point, content)), w) := by
  obtain ⟨front, back, cut, rfl⟩ := held.exists_front
  have next := right.nextAfter front back cut
  rw [following, Lookup.run_bind, next]
  cases back with
  | nil => exact .inl rfl
  | cons b back =>
    have member : b ∈ l := by simp [cut]
    obtain ⟨content, read, point⟩ := serves b member
    refine .inr ⟨b, content, ⟨front, back, cut, rfl⟩, read, point, ?_⟩
    simp only [List.head?_cons, Option.map_some, Lookup.run_bind, contentAt_run right member read]
    rfl

/-- What the server says, if anything, with the points that it then counts as given and
whether it owes a roll back. -/
inductive Answer (l : List StoredBlock) (s : Server) : Option Message → List Point → Bool → Prop
  | silent : Answer l s none s.sent s.owesRollback
  | await (settled : s.lastSent = none ∨ s.owesRollback = false) :
      Answer l s (some .awaitReply) s.sent s.owesRollback
  | found {p : Point} {t : Tip} (held : Holds l p) :
      Answer l s (some (.intersectFound p t)) [p] true
  | notFound {t : Tip} : Answer l s (some (.intersectNotFound t)) s.sent s.owesRollback
  | rollBack {p : Point} {t : Tip} {sent : List Point} (held : Holds l p)
      (last : sent.getLast? = some p) (older : ∀ q ∈ sent, q = .origin ∨ q ∈ s.sent) :
      Answer l s (some (.rollBackward p t)) sent false
  | rollForward {last : Point} {b : StoredBlock} {content : HeaderContent} {t : Tip}
      (settled : s.owesRollback = false) (reached : s.lastSent = some last)
      (follows : Follows l last b) (read : b.content s.flavor = .ok content)
      (point : content.point = .ok b.point) :
      Answer l s (some (.rollForward content t)) (s.record b.point).sent false

theorem findIntersect_run (right : chain.Answers known w l) (candidates : List Point) (s : Server) :
    ∃ m sent owesRollback tipWaiting, findIntersect chain candidates s w =
      (m, { s with sent, owesRollback, tipWaiting }, w) ∧
        Answer l s (some m) sent owesRollback := by
  obtain ⟨r, ran, held⟩ := firstContained_run right candidates
  obtain ⟨t, told⟩ := tip_run right
  cases r with
  | none => exact ⟨_, _, _, _, by simp only [findIntersect, ran, told]; rfl, .notFound⟩
  | some p => exact ⟨_, _, _, _, by simp only [findIntersect, ran, told]; rfl, .found (held p rfl)⟩

theorem nextUpdate_run (right : chain.Answers known w l) {s : Server}
    (given : ∀ p ∈ s.sent, p = .origin ∨ known p) (serves : ∀ b ∈ l, b.Serves s.flavor) :
    (nextUpdate chain s w = (.ok none, s, w) ∧ (s.lastSent = none ∨ s.owesRollback = false)) ∨
      ∃ m sent owesRollback, nextUpdate chain s w =
        (.ok (some m), { s with sent, owesRollback }, w) ∧
          Answer l s (some m) sent owesRollback := by
  obtain ⟨t, told⟩ := tip_run right
  cases reached : s.lastSent with
  | none => exact .inl ⟨by simp only [nextUpdate, reached], .inl rfl⟩
  | some last =>
    have member : last ∈ s.sent := List.mem_of_getLast? reached
    rcases onChain_run right (given last member) with ⟨held, ran⟩ | ⟨-, ran⟩
    · cases owes : s.owesRollback with
      | true =>
        refine .inr ⟨_, s.sent, false, ?_, .rollBack (t := t) held reached fun q sent => .inr sent⟩
        simp only [nextUpdate, reached, ran, owes, told, if_true]
      | false =>
        rcases following_run right serves held with
          none | ⟨b, content, follows, read, point, next⟩
        · refine .inl ⟨?_, .inr rfl⟩
          simp only [nextUpdate, reached, ran, owes, none, Bool.false_eq_true, if_false]
        · refine .inr ⟨_, _, _, ?_, .rollForward (t := t) owes reached follows read point⟩
          simp only [nextUpdate, reached, ran, owes, next, told, Bool.false_eq_true, if_false,
            record]
    · obtain ⟨p, sent, common, held, top, older⟩ :=
        commonAncestor_run right (s := { s with owesRollback := false }) given
      refine .inr ⟨_, sent, false, ?_, .rollBack (t := t) held top older⟩
      simp only [nextUpdate, reached, ran, common, told]

def Replied (l : List StoredBlock) (s s' : Server) : Prop :=
  ∃ reply sent owesRollback tipWaiting, Answer l s reply sent owesRollback ∧
    s' = { s with sent, owesRollback, tipWaiting, replies := s.replies ++ reply.toList }

theorem replied_nothing (s : Server) : Replied l s s :=
  ⟨none, s.sent, s.owesRollback, s.tipWaiting, .silent, by simp⟩

theorem received_run (right : chain.Answers known w l) {s : Server}
    (given : ∀ p ∈ s.sent, p = .origin ∨ known p) (serves : ∀ b ∈ l, b.Serves s.flavor)
    (m : Message) : ∃ s', received chain m s w = (s', w) ∧ Replied l s s' := by
  cases m with
  | findIntersect points =>
    obtain ⟨reply, sent, owesRollback, tipWaiting, ran, answer⟩ := findIntersect_run right points s
    refine ⟨_, ?_, some reply, sent, owesRollback, tipWaiting, answer, rfl⟩
    simp only [received, ran, enqueue, Option.toList_some]
  | requestNext =>
    cases reached : s.lastSent with
    | none =>
      refine ⟨_, ?_, _, _, _, s.tipWaiting, .await (.inl reached), rfl⟩
      simp only [received, requestNext, reached, Option.isNone_none, if_true, enqueue,
        Option.toList_some]
    | some last =>
      have begun : s.lastSent.isNone = false := by
        rw [reached]
        rfl
      rcases nextUpdate_run right given serves with ⟨ran, settled⟩ |
        ⟨update, sent, owesRollback, ran, answer⟩
      · refine ⟨_, ?_, _, _, _, true, .await settled, rfl⟩
        simp only [received, requestNext, begun, ran, enqueue, Option.toList_some,
          Bool.false_eq_true, if_false]
      · refine ⟨_, ?_, _, _, _, s.tipWaiting, answer, rfl⟩
        simp only [received, requestNext, begun, ran, enqueue, Option.toList_some,
          Bool.false_eq_true, if_false]
  | _ => exact ⟨s, rfl, replied_nothing s⟩

theorem notifyNewBlock_run (right : chain.Answers known w l) {s : Server}
    (given : ∀ p ∈ s.sent, p = .origin ∨ known p) (serves : ∀ b ∈ l, b.Serves s.flavor) :
    ∃ s', notifyNewBlock chain s w = (s', w) ∧ Replied l s s' := by
  rw [notifyNewBlock]
  split
  · rcases nextUpdate_run right given serves with ⟨ran, -⟩ |
      ⟨update, sent, owesRollback, ran, answer⟩
    · exact ⟨s, by simp only [ran], replied_nothing s⟩
    · refine ⟨_, ?_, some update, sent, owesRollback, false, answer, rfl⟩
      simp only [ran, enqueue, Option.toList_some]
  · exact ⟨s, rfl, replied_nothing s⟩

end ChainSync.Server
end ChainRelay
