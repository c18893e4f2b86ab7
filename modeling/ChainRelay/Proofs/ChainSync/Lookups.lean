import ChainRelay.Proofs.Chain.Unfailing
import ChainRelay.Proofs.ChainSync.Outcome
import ChainRelay.Proofs.ChainSync.Stall

/-! What a server finds when it looks a point up. Over a chain whose lookups do not fail each
point that a client may have been given stands or has gone, and the search for one to go back
to ends at the newest that stands. -/
namespace ChainRelay.ChainSync.Server

variable {σ : Type} {chain : ChainSource σ} {known : Point → Prop} {w : σ}

/-! ### The search for a point to go back to -/

theorem suffix_of_dropped {points kept : List Point} {r : Except ChainError Unit} {v : σ}
    (dropped : dropOffChain chain points w = (r, kept, v)) : kept <:+ points := by
  induction points generalizing w with
  | nil =>
    cases dropped
    exact List.suffix_rfl
  | cons p older ih =>
    rw [dropOffChain] at dropped
    split at dropped
    · cases dropped
      exact List.suffix_rfl
    · exact (ih dropped).trans (List.suffix_cons p older)
    · cases dropped
      exact List.suffix_rfl

theorem prefix_of_dropped {sent kept : List Point} {r : Except ChainError Unit} {v : σ}
    (dropped : dropOffChain chain sent.reverse w = (r, kept, v)) : kept.reverse <+: sent := by
  simpa using List.reverse_prefix.mpr (suffix_of_dropped dropped)

theorem ne_nil_of_broken {points kept : List Point} {e : ChainError} {v : σ}
    (broken : dropOffChain chain points w = (.error e, kept, v)) : kept ≠ [] := by
  induction points generalizing w with
  | nil => cases broken
  | cons p older ih =>
    rw [dropOffChain] at broken
    split at broken
    · cases broken
    · exact ih broken
    · cases broken
      exact List.cons_ne_nil p older

theorem dropOffChain_answered {points : List Point} {I : σ → Prop}
    (answers : ∀ v, I v → ∀ p ∈ points, ∃ here u, (onChain chain p).run v = (.ok here, u) ∧ I u)
    (up : I w) {e : ChainError} {kept : List Point} {v : σ} :
    dropOffChain chain points w ≠ (.error e, kept, v) := by
  induction points generalizing w with
  | nil =>
    intro failed
    cases failed
  | cons p older ih =>
    obtain ⟨here, u, ran, still⟩ := answers w up p (by simp)
    rw [dropOffChain, ran]
    cases here with
    | true =>
      intro failed
      cases failed
    | false => exact ih (fun v up q later => answers v up q (by simp [later])) still

/-! ### A chain whose lookups do not fail -/

/-- The point is on the chain, or it is the origin. -/
def Stands (chain : ChainSource σ) (w : σ) (p : Point) : Prop :=
  (onChain chain p).run w = (.ok true, w)

def Gone (chain : ChainSource σ) (w : σ) (p : Point) : Prop :=
  (onChain chain p).run w = (.ok false, w)

theorem Stands.not_gone {p : Point} (stands : Stands chain w p) : ¬ Gone chain w p := by
  intro gone
  cases stands.symm.trans gone

theorem stands_origin (chain : ChainSource σ) (w : σ) : Stands chain w .origin := rfl

theorem Stands.hasPoint {p : Point} (stands : Stands chain w p) (block : p ≠ .origin) :
    (chain.hasPoint p).run w = (.ok true, w) := by
  have other : p.isOrigin = false :=
    Bool.eq_false_iff.mpr fun start => block (Point.isOrigin_iff.mp start)
  simpa only [Stands, onChain, other, Bool.false_eq_true, if_false] using stands

theorem holds_of_onChain {l : List StoredBlock} (right : chain.Answers known w l) {p : Point}
    {v : σ} (on : (onChain chain p).run w = (.ok true, v)) : Blocks.Holds l p ∧ v = w := by
  unfold onChain at on
  split at on
  · rename_i start
    cases on
    exact ⟨.inl (Point.isOrigin_iff.mp start), rfl⟩
  · rename_i block
    obtain ⟨r, ran, held, -⟩ := hasPoint_run right fun same => block (Point.isOrigin_iff.mpr same)
    cases on.symm.trans ran
    exact ⟨held rfl, rfl⟩

theorem stands_of_holds {l : List StoredBlock} (right : chain.Answers known w l) {p : Point}
    (held : Blocks.Holds l p) : Stands chain w p := by
  have fit : p = .origin ∨ known p :=
    held.imp_right fun ⟨b, member, same⟩ => same ▸ right.known_of_mem b member
  rcases onChain_run right fit with ⟨-, ran⟩ | ⟨off, -⟩
  · exact ran
  · exact absurd held off

theorem gone_of_not_holds {l : List StoredBlock} (right : chain.Answers known w l) {p : Point}
    (fit : known p) (off : ¬ Blocks.Holds l p) : Gone chain w p := by
  rcases onChain_run right (.inr fit) with ⟨held, -⟩ | ⟨-, ran⟩
  · exact absurd held off
  · exact ran

theorem dropOffChain_gone {gone : List Point} (off : ∀ p ∈ gone, Gone chain w p)
    (older : List Point) : dropOffChain chain (gone ++ older) w = dropOffChain chain older w := by
  induction gone with
  | nil => rfl
  | cons p gone ih =>
    rw [List.cons_append, dropOffChain, off p (by simp)]
    exact ih fun q later => off q (by simp [later])

theorem dropOffChain_stands {p : Point} (stands : Stands chain w p) (older : List Point) :
    dropOffChain chain (p :: older) w = (.ok (), p :: older, w) := by
  rw [dropOffChain, stands]

def RollsBackTo (chain : ChainSource σ) (s : Server) (w : σ) (p : Point) : Prop :=
  ∃ t s' v, s'.lastSent = some p ∧ requestNext chain s w = (.rollBackward p t, s', v) ∧
    (s.tipWaiting = true → s.hasAgency = true → notifyNewBlock chain s w =
      ({ s' with tipWaiting := false }.enqueue (.rollBackward p t), v))

theorem rollsBackTo_of_nextUpdate {s s' : Server} {p : Point} {t : Tip} {v : σ}
    (placed : s.lastSent ≠ none) (led : s'.lastSent = some p)
    (sought : nextUpdate chain s w = (.ok (some (.rollBackward p t)), s', v)) :
    RollsBackTo chain s w p := by
  have begun : s.lastSent.isNone = false :=
    Option.isNone_eq_false_iff.mpr (Option.isSome_iff_ne_none.mpr placed)
  refine ⟨t, s', v, led, ?_, fun waits turn => ?_⟩
  · rw [requestNext, begun, sought]
    rfl
  · rw [notifyNewBlock, waits, turn, sought]
    rfl

/-! ### What is read -/

/-- If the server can roll forward now, what it sends tells the point that it counts as
given. -/
def Truthful (chain : ChainSource σ) (flavor : Flavor) (w : σ) : Prop :=
  ∀ last u next content v, (onChain chain last).run w = (.ok true, u) →
    (following chain flavor last).run u = (.ok (some (next, content)), v) →
    content.point = .ok next

theorem truthful_of_answers {flavor : Flavor} {l : List StoredBlock}
    (right : chain.Answers known w l) (serves : ∀ b ∈ l, b.Serves flavor) :
    Truthful chain flavor w := by
  intro last u next content v on found
  obtain ⟨held, rfl⟩ := holds_of_onChain right on
  rcases following_run right serves held with none | ⟨b, read, -, -, point, some⟩
  · cases found.symm.trans none
  · cases found.symm.trans some
    exact point

def Readable (chain : ChainSource σ) (flavor : Flavor) (w : σ) : Prop :=
  ∀ p next, Stands chain w p → (chain.nextAfter p).run w = (.ok (some next), w) →
    ∃ content, (contentAt chain flavor next).run w = (.ok content, w)

theorem readable_of_answers {flavor : Flavor} {l : List StoredBlock}
    (right : chain.Answers known w l)
    (decodes : ∀ b ∈ l, ∃ content, b.content flavor = .ok content) : Readable chain flavor w := by
  intro p next stands after
  obtain ⟨front, back, rfl, rfl⟩ := (holds_of_onChain right stands).1.exists_front
  rw [right.nextAfter front back rfl] at after
  cases back with
  | nil => cases after
  | cons b back =>
    cases after
    have member : b ∈ front ++ b :: back := by simp
    obtain ⟨content, read⟩ := decodes b member
    exact ⟨content, contentAt_run right member read⟩

section
variable (unfailing : chain.Unfailing known w)
include unfailing

theorem onChain_unfailing (p : Point) : ∃ r, (onChain chain p).run w = (r, w) := by
  unfold onChain
  split
  · exact ⟨.ok true, rfl⟩
  · by_cases fit : known p
    · exact (unfailing.hasPoint p fit).imp' Except.ok fun _ ran => ran
    · exact (unfailing.refused p fit).imp' Except.error fun _ ran => ran

theorem stands_or_gone {p : Point} (fit : known p) : Stands chain w p ∨ Gone chain w p := by
  unfold Stands Gone onChain
  split
  · exact .inl rfl
  · obtain ⟨here, ran⟩ := unfailing.hasPoint p fit
    cases here with
    | true => exact .inl ran
    | false => exact .inr ran

theorem stands_of_onChain {p : Point} {v : σ} (ran : (onChain chain p).run w = (.ok true, v)) :
    v = w ∧ Stands chain w p := by
  obtain ⟨r, here⟩ := onChain_unfailing unfailing p
  cases ran.symm.trans here
  exact ⟨rfl, here⟩

theorem gone_of_onChain {p : Point} {v : σ} (ran : (onChain chain p).run w = (.ok false, v)) :
    v = w ∧ Gone chain w p := by
  obtain ⟨r, here⟩ := onChain_unfailing unfailing p
  cases ran.symm.trans here
  exact ⟨rfl, here⟩

theorem dropOffChain_unfailing {points kept : List Point} (given : ∀ p ∈ points, known p)
    {e : ChainError} {v : σ} : dropOffChain chain points w ≠ (.error e, kept, v) := by
  refine dropOffChain_answered (I := (· = w)) ?_ rfl
  rintro v rfl p member
  rcases stands_or_gone unfailing (given p member) with stands | gone
  · exact ⟨true, v, stands, rfl⟩
  · exact ⟨false, v, gone, rfl⟩

theorem tip_unfailing : ∃ t, tip chain w = (t, w) := by
  obtain ⟨top, ran⟩ := unfailing.tip
  unfold tip
  rw [ran]
  cases top with
  | none => exact ⟨_, rfl⟩
  | some t => exact ⟨_, rfl⟩

theorem world_of_tip {t : Tip} {v : σ} (told : tip chain w = (t, v)) : v = w := by
  obtain ⟨t', same⟩ := tip_unfailing unfailing
  exact congrArg Prod.snd (told.symm.trans same)

theorem dropOffChain_ok {points kept : List Point} {v : σ}
    (dropped : dropOffChain chain points w = (.ok (), kept, v)) :
    v = w ∧ ∀ p ∈ kept.head?, Stands chain w p := by
  induction points with
  | nil =>
    cases dropped
    exact ⟨rfl, nofun⟩
  | cons p older ih =>
    rw [dropOffChain] at dropped
    split at dropped
    · rename_i on
      cases dropped
      obtain ⟨rfl, stands⟩ := stands_of_onChain unfailing on
      refine ⟨rfl, fun q same => ?_⟩
      cases same
      exact stands
    · rename_i off
      obtain ⟨rfl, -⟩ := gone_of_onChain unfailing off
      exact ih dropped
    · cases dropped

theorem unmoved_unfailing {s s' : Server} (given : ∀ p ∈ s.sent, known p)
    {r : Except ChainError (Option Message)} {v : σ} (sought : nextUpdate chain s w = (r, s', v))
    (none : ∀ m, r ≠ .ok (some m)) : s' = s := by
  have outcome := nextUpdate_outcome chain s w
  rw [sought] at outcome
  cases outcome with
  | unplaced _ | unsure _ _ | unread _ _ _ _ | atTip _ _ _ _ => rfl
  | interrupted _ off broken =>
    obtain ⟨rfl, -⟩ := gone_of_onChain unfailing off
    refine absurd broken (dropOffChain_unfailing unfailing fun p member => ?_)
    exact given p (List.mem_reverse.mp member)
  | forked _ _ _ _ | adrift _ _ _ _ | confirmed _ _ _ _ | forward _ _ _ _ _ =>
    exact absurd rfl (none _)

theorem stands_of_rollBackward {s s' : Server} {p : Point} {t : Tip} {v : σ}
    (sought : nextUpdate chain s w = (.ok (some (.rollBackward p t)), s', v)) :
    v = w ∧ Stands chain w p := by
  have outcome := nextUpdate_outcome chain s w
  rw [sought] at outcome
  cases outcome with
  | forked _ off dropped told =>
    obtain ⟨rfl, -⟩ := gone_of_onChain unfailing off
    obtain ⟨rfl, stands⟩ := dropOffChain_ok unfailing dropped
    exact ⟨world_of_tip unfailing told, stands _ rfl⟩
  | adrift _ off dropped told =>
    obtain ⟨rfl, -⟩ := gone_of_onChain unfailing off
    obtain ⟨rfl, -⟩ := dropOffChain_ok unfailing dropped
    exact ⟨world_of_tip unfailing told, stands_origin chain _⟩
  | confirmed _ on _ told =>
    obtain ⟨rfl, stands⟩ := stands_of_onChain unfailing on
    exact ⟨world_of_tip unfailing told, stands⟩

theorem contains_unfailing (p : Point) :
    ∃ r, (contains chain p).run w = (r, w) ∧ (r = .ok true → known p) := by
  unfold contains
  split
  · rename_i start
    obtain ⟨top, ran⟩ := unfailing.tip
    rw [Point.isOrigin_iff.mp start]
    refine ⟨.ok top.isSome, ?_, fun _ => unfailing.known_origin⟩
    rw [Lookup.run_bind, ran]
    rfl
  · by_cases fit : known p
    · obtain ⟨here, ran⟩ := unfailing.hasPoint p fit
      exact ⟨.ok here, ran, fun _ => fit⟩
    · obtain ⟨e, ran⟩ := unfailing.refused p fit
      exact ⟨.error e, ran, nofun⟩

theorem known_of_firstContained {points : List Point} {p : Point} {v : σ}
    (first : firstContained chain points w = (some p, v)) : known p := by
  induction points with
  | nil => cases first
  | cons q rest ih =>
    obtain ⟨r, ran, fit⟩ := contains_unfailing unfailing q
    rw [firstContained, ran] at first
    cases r with
    | error e => cases first
    | ok here =>
      cases here with
      | false => exact ih first
      | true =>
        cases first
        exact fit rfl

theorem contentAt_unfailing (flavor : Flavor) (p : Point) :
    ∃ r, (contentAt chain flavor p).run w = (r, w) := by
  obtain ⟨slot, hash⟩ := p
  cases hash with
  | none => exact ⟨_, rfl⟩
  | some hash =>
    cases flavor with
    | headers =>
      obtain ⟨stored, ran⟩ := unfailing.header hash
      simp only [contentAt, Lookup.run_bind, ran]
      cases stored with
      | none => exact ⟨_, rfl⟩
      | some b =>
        simp only
        split
        · exact ⟨_, rfl⟩
        · exact ⟨_, rfl⟩
    | blocks =>
      obtain ⟨stored, ran⟩ := unfailing.body hash
      simp only [contentAt, Lookup.run_bind, ran]
      cases stored with
      | none => exact ⟨_, rfl⟩
      | some b => exact ⟨_, rfl⟩

theorem following_unfailing (flavor : Flavor) {last : Point} (fit : known last) :
    ((chain.nextAfter last).run w = (.ok none, w) ∧
      (following chain flavor last).run w = (.ok none, w)) ∨
    ∃ next r, known next ∧ (chain.nextAfter last).run w = (.ok (some next), w) ∧
      (contentAt chain flavor next).run w = (r, w) ∧
      (following chain flavor last).run w = (r.map fun content => some (next, content), w) := by
  obtain ⟨after, ran, kept⟩ := unfailing.nextAfter last fit
  cases after with
  | none =>
    refine .inl ⟨ran, ?_⟩
    rw [following, Lookup.run_bind, ran]
    rfl
  | some next =>
    obtain ⟨r, read⟩ := contentAt_unfailing unfailing flavor next
    refine .inr ⟨next, r, kept next rfl, ran, read, ?_⟩
    rw [following, Lookup.run_bind, ran]
    simp only [Lookup.run_bind, read]
    cases r <;> rfl

theorem next_of_following {flavor : Flavor} {last next : Point} {content : HeaderContent} {v : σ}
    (fit : known last)
    (found : (following chain flavor last).run w = (.ok (some (next, content)), v)) :
    v = w ∧ known next ∧ (chain.nextAfter last).run w = (.ok (some next), w) := by
  rcases following_unfailing unfailing flavor fit with ⟨-, none⟩ | ⟨q, r, kept, after, -, some⟩
  · cases found.symm.trans none
  · cases r with
    | error e => cases found.symm.trans some
    | ok read =>
      cases found.symm.trans some
      exact ⟨rfl, kept, after⟩

theorem known_shift {s s' : Server} {notes : List (Note Message Empty)}
    (given : ∀ p ∈ s.sent, known p) (shift : Shift chain s w notes s') :
    ∀ p ∈ s'.sent, known p := by
  cases shift with
  | stays _ _ => exact given
  | begins _ _ first =>
    intro p member
    rw [List.mem_singleton.mp member]
    exact known_of_firstContained unfailing first
  | resets _ => exact nofun
  | @fails state _ _ _ _ _ _ sought none =>
    rw [unmoved_unfailing (s := { s with state }) unfailing given sought none]
    exact given
  | @moves _ state _ _ _ _ _ sought =>
    have outcome := nextUpdate_outcome chain { s with state } w
    rw [sought] at outcome
    cases outcome with
    | confirmed _ _ _ _ => exact given
    | forked _ _ dropped _ =>
      exact fun p member => given p ((prefix_of_dropped dropped).subset member)
    | adrift _ _ _ _ =>
      intro p member
      rw [List.mem_singleton.mp member]
      exact unfailing.known_origin
    | forward reached on _ found _ =>
      obtain ⟨rfl, -⟩ := stands_of_onChain unfailing on
      have last := given _ (List.mem_of_getLast? reached)
      obtain ⟨-, fit, -⟩ := next_of_following unfailing last found
      intro p member
      rcases List.mem_append.mp (List.mem_of_mem_drop member) with old | new
      · exact given p old
      · rw [List.mem_singleton.mp new]
        exact fit

end

theorem known_recorded {flavor : Flavor} {window : Nat} {w₀ : σ}
    {log : List (Entry σ Server Message Empty)} {t : Handle Server × σ}
    (recorded : (conduct chain).Recorded (.new (.new flavor window), w₀) log t)
    (unfailing : ∀ e ∈ log, chain.Unfailing known e.world) : ∀ p ∈ t.1.agent.sent, known p := by
  refine upheld (I := fun _ s => ∀ p ∈ s.sent, known p) recorded unfailing nofun
    (fun _ _ _ given => given) fun {log s w notes s'} given shift noted fair => ?_
  obtain ⟨n, member⟩ := List.exists_mem_of_ne_nil notes noted
  exact known_shift (fair ⟨s, w, n⟩ (List.mem_map_of_mem member)) given shift

/-! ### A chain at three moments -/

inductive Moment where
  | grown
  | replaced
  | emptied
  deriving DecidableEq

namespace Moment
open Conversation (oneBlock secondBlock rivalBlock)

def lower : StoredBlock :=
  { oneBlock with point := ⟨20, some ⟨[
      0x27, 0x29, 0x89, 0xCD, 0x59, 0xB2, 0x28, 0xF7, 0x40, 0x26, 0xE9,
      0x01, 0xEA, 0x9F, 0x26, 0x16, 0xBF, 0xB4, 0xD2, 0xBF, 0x50, 0x19,
      0x9C, 0x40, 0xC7, 0x3D, 0x01, 0x1E, 0x8E, 0x7A, 0xB2, 0xBE], rfl⟩⟩ }

def upper : StoredBlock :=
  { secondBlock with point := ⟨30, some ⟨[
      0x0D, 0xD9, 0x7D, 0xF7, 0xC5, 0x43, 0x76, 0x0E, 0xEE, 0x5E, 0xBF,
      0x2F, 0x57, 0x83, 0x2C, 0xB3, 0xBF, 0xDF, 0x4C, 0x6F, 0x48, 0x91,
      0x66, 0x4B, 0xB5, 0x9B, 0xA9, 0x9B, 0xAF, 0x9A, 0xE7, 0xBF], rfl⟩⟩ }

def rival : StoredBlock :=
  { rivalBlock with point := ⟨31, some ⟨[
      0x18, 0x92, 0x2A, 0xE7, 0x1A, 0x98, 0xBB, 0x44, 0x91, 0xD2, 0xA6,
      0x04, 0x57, 0xB5, 0x0A, 0x15, 0x46, 0x62, 0x5C, 0x97, 0xAE, 0xFC,
      0x58, 0xB5, 0x80, 0x7E, 0xE9, 0xBC, 0xC0, 0xD5, 0xD1, 0xB4], rfl⟩⟩ }

theorem lower_serves : lower.Serves .headers := by
  have same : lower = oneBlock := by decide +kernel
  rw [same]
  exact Conversation.serves_oneBlock

theorem upper_serves : upper.Serves .headers := by
  have same : upper = secondBlock := by decide +kernel
  rw [same]
  exact ⟨.shelley 1 [0x81, 0x82, 0x02, 0x18, 0x1E], by rfl, by rfl⟩

theorem rival_serves : rival.Serves .headers := by
  have same : rival = rivalBlock := by decide +kernel
  rw [same]
  exact ⟨.shelley 1 [0x81, 0x82, 0x02, 0x18, 0x1F], by rfl, by rfl⟩

end Moment

open Moment (lower upper rival)

/-- A chain of two blocks, of which the second is replaced, or both are dropped. -/
def reorganised : Moment → ChainStore
  | .grown => ⟨.table ⟨[lower, upper]⟩, []⟩
  | .replaced => ⟨.table ⟨[lower, rival]⟩, []⟩
  | .emptied => ⟨.table ⟨[]⟩, []⟩

theorem sound_reorganised (m : Moment) : (reorganised m).Sound := by
  cases m
  · exact ⟨rfl, ⟨by decide +kernel, by decide +kernel, by decide +kernel⟩, by decide +kernel⟩
  · exact ⟨rfl, ⟨by decide +kernel, by decide +kernel, by decide +kernel⟩, by decide +kernel⟩
  · exact ChainStore.sound_inTable

theorem serves_reorganised (m : Moment) : ∀ b ∈ (reorganised m).blocks, b.Serves .headers := by
  cases m
  · exact List.forall_mem_cons.mpr ⟨Moment.lower_serves, by simpa using Moment.upper_serves⟩
  · exact List.forall_mem_cons.mpr ⟨Moment.lower_serves, by simpa using Moment.rival_serves⟩
  · exact nofun

theorem unfailing_reorganised (m : Moment) :
    (ChainStore.among reorganised).Unfailing
      (fun p => p.hash.isSome → TableChain.fits p.slot = true) m := by
  cases m
  · exact (sound_reorganised .grown).unfailing.among
  · exact (sound_reorganised .replaced).unfailing.among
  · exact (sound_reorganised .emptied).unfailing.among

theorem stands_replaced : Stands (ChainStore.among reorganised) .replaced lower.point :=
  stands_of_holds (sound_reorganised .replaced).answers.among (.inr ⟨lower, .head _, rfl⟩)

theorem gone_replaced : Gone (ChainStore.among reorganised) .replaced upper.point := by
  have fit : (reorganised .replaced).Knows upper.point := fun _ => by decide +kernel
  have apart : ∀ b ∈ (reorganised .replaced).blocks, b.point ≠ upper.point := by decide +kernel
  refine gone_of_not_holds (sound_reorganised .replaced).answers.among fit ?_
  rintro (origin | ⟨b, member, same⟩)
  · cases origin
  · exact apart b member same

def opening {ι : Type} (p : Point) : List (Conduct.Deed ι Message) :=
  [.take (.findIntersect [p]), .draw, .take .requestNext, .draw, .take .requestNext, .draw]

end ChainRelay.ChainSync.Server
