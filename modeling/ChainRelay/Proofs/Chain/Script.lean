import ChainRelay.Proofs.Chain.Reference

/-! Scripts of calls to a chain. A chain in memory and one in a table give the same answers,
call by call, which are those of the list of blocks, and a walk from the origin meets each
block of that list once. -/
namespace ChainRelay

inductive ChainCall where
  | append (block : StoredBlock)
  | rollback (p : Point)
  | hasPoint (p : Point)
  | nextAfter (p : Point)
  | header (hash : BlockHash)
  | body (hash : BlockHash)
  | tip
  | reopen

inductive ChainAnswer where
  | appended (result : AppendResult)
  | removed (count : Nat)
  | holds (yes : Bool)
  | next (p : Option Point)
  | content (b : Option Bytes)
  | tip (t : Option Tip)
  | opened
  deriving DecidableEq, Repr

namespace ChainCall

variable {α β γ : Type}

/-- The answer to a change, and what is there after it. A change that fails leaves what
was there before. -/
def settle (before : α) (answer : β → ChainAnswer) :
    Except ChainError (β × α) → Except ChainError ChainAnswer × α
  | .ok (b, after) => (.ok (answer b), after)
  | .error e => (.error e, before)

theorem settle_map (view : α → γ) (before : α) (answer : β → ChainAnswer)
    (outcome : Except ChainError (β × α)) :
    settle (view before) answer (outcome.map fun r => (r.1, view r.2)) =
      ((settle before answer outcome).1, view (settle before answer outcome).2) := by
  cases outcome <;> rfl

theorem settle_of_error {before : α} {answer : β → ChainAnswer}
    {outcome : Except ChainError (β × α)} {e : ChainError}
    (failed : (settle before answer outcome).1 = .error e) :
    (settle before answer outcome).2 = before := by
  cases outcome with
  | error e => rfl
  | ok r => cases failed

def run (step : α → ChainCall → Except ChainError ChainAnswer × α) :
    α → List ChainCall → List (Except ChainError ChainAnswer) × α
  | a, [] => ([], a)
  | a, c :: calls =>
    let (answer, a) := step a c
    let (answers, a) := run step a calls
    (answer :: answers, a)

def Fits (l : List StoredBlock) : ChainCall → Prop
  | append b => Blocks.Admissible l b
  | rollback p | hasPoint p | nextAfter p => p.slot < 9223372036854775808
  | header _ | body _ | tip | reopen => True

instance (l : List StoredBlock) : (c : ChainCall) → Decidable (c.Fits l)
  | append b => inferInstanceAs (Decidable (Blocks.Admissible l b))
  | rollback p | hasPoint p | nextAfter p =>
    inferInstanceAs (Decidable (p.slot < 9223372036854775808))
  | header _ | body _ | tip | reopen => .isTrue trivial

end ChainCall

namespace Blocks

def call (l : List StoredBlock) : ChainCall → Except ChainError ChainAnswer × List StoredBlock
  | .append b => ChainCall.settle l .appended (append l b)
  | .rollback p => ChainCall.settle l .removed (rollback l p)
  | .hasPoint p => (.ok (.holds (hasPoint l p)), l)
  | .nextAfter p => (.ok (.next (nextAfter l p)), l)
  | .header hash => (.ok (.content ((block? l hash).map (·.header))), l)
  | .body hash => (.ok (.content ((block? l hash).map (·.body))), l)
  | .tip => (.ok (.tip (tip l)), l)
  | .reopen => (.ok .opened, l)

def run : List StoredBlock → List ChainCall →
    List (Except ChainError ChainAnswer) × List StoredBlock :=
  ChainCall.run call

/-- Each call may be made where the calls before it have led. -/
def Fit : List StoredBlock → List ChainCall → Prop
  | _, [] => True
  | l, c :: calls => c.Fits l ∧ Fit (call l c).2 calls

instance decidableFit : (l : List StoredBlock) → (calls : List ChainCall) → Decidable (Fit l calls)
  | _, [] => .isTrue trivial
  | l, c :: calls =>
    have := decidableFit (call l c).2 calls
    inferInstanceAs (Decidable (c.Fits l ∧ Fit (call l c).2 calls))

end Blocks

namespace Database

theorem migrate_blank : blank.migrate = .ok (holding .empty) := rfl

theorem migrate_holding (t : TableChain) : (holding t).migrate = .ok (holding t) := rfl

end Database

namespace ChainStore

variable {s : ChainStore}

def call (s : ChainStore) : ChainCall → Except ChainError ChainAnswer × ChainStore
  | .append b => ChainCall.settle s .appended (s.append b)
  | .rollback p => ChainCall.settle s .removed (s.rollback p)
  | .hasPoint p => ((s.hasPoint p).map .holds, s)
  | .nextAfter p => ((s.nextAfter p).map .next, s)
  | .header hash => ((s.header hash).map .content, s)
  | .body hash => ((s.body hash).map .content, s)
  | .tip => (s.tip.map .tip, s)
  | .reopen => ChainCall.settle s (fun _ => .opened) (s.reopen.map ((), ·))

def run : ChainStore → List ChainCall → List (Except ChainError ChainAnswer) × ChainStore :=
  ChainCall.run call

theorem openTable_file : openTable .file = .ok inTable := by
  simp only [openTable, Database.connect, Database.migrate_blank]
  rfl

theorem reopen_eq (s : ChainStore) : s.reopen = .ok s := by
  obtain ⟨backend, faults⟩ := s
  cases backend with
  | indexed c => rfl
  | table t =>
    simp only [reopen, Database.connect, Database.migrate_holding]
    rfl

theorem call_of_error {c : ChainCall} {e : ChainError} (failed : (s.call c).1 = .error e) :
    (s.call c).2 = s := by
  cases c with
  | append b => exact ChainCall.settle_of_error failed
  | rollback p => exact ChainCall.settle_of_error failed
  | reopen => exact ChainCall.settle_of_error failed
  | _ => rfl

/-! ### One call -/

theorem Sound.append_eq (sound : Sound s) {b : StoredBlock}
    (admissible : Blocks.Admissible s.blocks b) :
    (s.append b).map (fun r => (r.1, r.2.blocks)) = Blocks.append s.blocks b := by
  cases s, sound using Sound.elim with
  | indexed c exact =>
    refine Eq.trans ?_ (exact.append_eq b)
    change (c.append b >>= fun r => pure (r.1, _)).map _ = _
    cases c.append b <;> rfl
  | table t exact =>
    refine Eq.trans ?_ (exact.append_eq admissible)
    change (t.append b >>= fun r => pure (r.1, _)).map _ = _
    cases t.append b <;> rfl

theorem Sound.rollback_eq (sound : Sound s) {p : Point} (narrow : p.slot < 9223372036854775808) :
    (s.rollback p).map (fun r => (r.1, r.2.blocks)) = Blocks.rollback s.blocks p := by
  cases s, sound using Sound.elim with
  | indexed c exact =>
    refine Eq.trans ?_ (exact.rollback_eq p)
    change (c.rollback p >>= fun r => pure (r.1, _)).map _ = _
    cases c.rollback p <;> rfl
  | table t exact =>
    refine Eq.trans ?_ (exact.rollback_eq (TableChain.fits_of_lt narrow))
    change (t.rollback p >>= fun r => pure (r.1, _)).map _ = _
    cases t.rollback p <;> rfl

theorem Sound.hasPoint_eq (sound : Sound s) {p : Point} (narrow : p.slot < 9223372036854775808) :
    s.hasPoint p = .ok (Blocks.hasPoint s.blocks p) := by
  cases s, sound using Sound.elim with
  | indexed c exact => exact congrArg Except.ok (exact.hasPoint_eq p)
  | table t exact => exact exact.hasPoint_eq (TableChain.fits_of_lt narrow)

theorem Sound.nextAfter_eq (sound : Sound s) {p : Point} (narrow : p.slot < 9223372036854775808) :
    s.nextAfter p = .ok (Blocks.nextAfter s.blocks p) := by
  cases s, sound using Sound.elim with
  | indexed c exact => exact congrArg Except.ok (exact.nextAfter_eq p)
  | table t exact => exact exact.nextAfter_eq (TableChain.fits_of_lt narrow)

theorem Sound.header_eq (sound : Sound s) (hash : BlockHash) :
    s.header hash = .ok ((Blocks.block? s.blocks hash).map (·.header)) := by
  cases s, sound using Sound.elim with
  | indexed c exact =>
    exact congrArg (fun b => Except.ok (b.map StoredBlock.header)) (exact.block?_eq hash)
  | table t exact => rfl

theorem Sound.body_eq (sound : Sound s) (hash : BlockHash) :
    s.body hash = .ok ((Blocks.block? s.blocks hash).map (·.body)) := by
  cases s, sound using Sound.elim with
  | indexed c exact =>
    exact congrArg (fun b => Except.ok (b.map StoredBlock.body)) (exact.block?_eq hash)
  | table t exact => rfl

theorem Sound.tip_eq (sound : Sound s) : s.tip = .ok (Blocks.tip s.blocks) := by
  cases s, sound using Sound.elim with
  | indexed c exact => rfl
  | table t exact => exact congrArg Except.ok exact.tip_eq

theorem Sound.call_eq (sound : Sound s) {c : ChainCall} (fits : c.Fits s.blocks) :
    Blocks.call s.blocks c = ((s.call c).1, (s.call c).2.blocks) ∧ Sound (s.call c).2 := by
  cases c with
  | append b =>
    have admissible : Blocks.Admissible s.blocks b := fits
    refine ⟨?_, ?_⟩
    · rw [Blocks.call, ← sound.append_eq admissible, ChainCall.settle_map]
      rfl
    · rw [ChainStore.call]
      cases done : s.append b with
      | error e => exact sound
      | ok r =>
        exact (sound.append admissible.hashed
          (fun a member same => admissible.point_eq member same) done).1
  | rollback p =>
    refine ⟨?_, ?_⟩
    · rw [Blocks.call, ← sound.rollback_eq fits, ChainCall.settle_map]
      rfl
    · rw [ChainStore.call]
      cases done : s.rollback p with
      | error e => exact sound
      | ok r => exact (sound.rollback done).1
  | hasPoint p => exact ⟨by rw [ChainStore.call, sound.hasPoint_eq fits]; rfl, sound⟩
  | nextAfter p => exact ⟨by rw [ChainStore.call, sound.nextAfter_eq fits]; rfl, sound⟩
  | header hash => exact ⟨by rw [ChainStore.call, sound.header_eq]; rfl, sound⟩
  | body hash => exact ⟨by rw [ChainStore.call, sound.body_eq]; rfl, sound⟩
  | tip => exact ⟨by rw [ChainStore.call, sound.tip_eq]; rfl, sound⟩
  | reopen =>
    rw [ChainStore.call, reopen_eq]
    exact ⟨rfl, sound⟩

/-! ### Many calls -/

theorem Sound.run_eq (sound : Sound s) {calls : List ChainCall} (fit : Blocks.Fit s.blocks calls) :
    Blocks.run s.blocks calls = ((s.run calls).1, (s.run calls).2.blocks) ∧
      Sound (s.run calls).2 := by
  induction calls generalizing s with
  | nil => exact ⟨rfl, sound⟩
  | cons c calls ih =>
    obtain ⟨fits, later⟩ := fit
    obtain ⟨same, kept⟩ := sound.call_eq fits
    rw [same] at later
    obtain ⟨rest, done⟩ := ih kept later
    refine ⟨?_, done⟩
    change ((Blocks.call s.blocks c).1 :: (Blocks.run (Blocks.call s.blocks c).2 calls).1,
      (Blocks.run (Blocks.call s.blocks c).2 calls).2) = _
    rw [same, rest]
    rfl

theorem Sound.walk_eq (sound : Sound s) (limit : Nat) :
    s.walk limit = .ok ((s.blocks.map (·.point)).take limit) := by
  have going : ∀ (n : Nat) (front back : List StoredBlock) (seen : List Point),
      s.blocks = front ++ back →
        walk.go s n (Blocks.reach front) seen =
          .ok (seen.reverse ++ (back.map (·.point)).take n) := by
    intro n
    induction n with
    | zero =>
      intro front back seen _
      rw [walk.go, List.take_zero, List.append_nil]
    | succ n ih =>
      intro front back seen whole
      have next : s.nextAfter (Blocks.reach front) = .ok (back.head?.map (·.point)) :=
        congrArg Prod.fst (sound.answers.nextAfter front back whole)
      rw [walk.go, next]
      cases back with
      | nil => exact congrArg Except.ok (List.append_nil _).symm
      | cons b back =>
        have later := ih (front ++ [b]) back (b.point :: seen) (by rw [whole]; simp)
        rw [Blocks.reach_concat, List.reverse_cons, List.append_assoc] at later
        exact later
  exact going limit [] s.blocks [] rfl

/-- An empty chain in memory and a new file with a table answer a script alike, call by
call, as the list of blocks does, whose slots rise. A walk from the origin meets each of
its blocks once, in order, and stops. No failed call changes a chain. -/
theorem run_agrees {calls : List ChainCall} (fit : Blocks.Fit [] calls) :
    openTable .file = .ok inTable ∧
      (Blocks.run [] calls).2.Pairwise (fun a b => a.point.slot < b.point.slot) ∧
      ∀ store, store = inMemory ∨ store = inTable →
        (store.run calls).1 = (Blocks.run [] calls).1 ∧
        (∀ limit, (store.run calls).2.walk limit =
          .ok (((Blocks.run [] calls).2.map (·.point)).take limit)) ∧
        ∀ c e, ((store.run calls).2.call c).1 = .error e →
          ((store.run calls).2.call c).2 = (store.run calls).2 := by
  have start : ∀ store, store = inMemory ∨ store = inTable →
      Sound store ∧ Blocks.Fit store.blocks calls ∧ store.blocks = [] := by
    rintro store (rfl | rfl)
    · exact ⟨sound_inMemory, fit, rfl⟩
    · exact ⟨sound_inTable, fit, rfl⟩
  refine ⟨openTable_file, ?_, fun store empty => ?_⟩
  · obtain ⟨sound, fit, none⟩ := start inMemory (.inl rfl)
    obtain ⟨same, kept⟩ := sound.run_eq fit
    rw [none] at same
    rw [same]
    exact kept.answers.ordered.rising
  · obtain ⟨sound, fit, none⟩ := start store empty
    obtain ⟨same, kept⟩ := sound.run_eq fit
    rw [none] at same
    rw [same]
    exact ⟨rfl, kept.walk_eq, fun c e failed => call_of_error failed⟩

def firstBlock : StoredBlock := ⟨⟨0, some .zero⟩, 1, [0x80], []⟩

def otherBlock (slot : UInt64) : StoredBlock :=
  ⟨⟨slot, some ⟨List.replicate 32 1, rfl⟩⟩, 2, [0x81], [7]⟩

/-- A second append, a fork at a slot that is taken, a point that is not there, and a
hash that comes back at another slot once its block is gone. -/
def forkScript : List ChainCall :=
  [.append firstBlock, .append (otherBlock 5), .append (otherBlock 5),
    .append ⟨⟨5, some ⟨List.replicate 32 2, rfl⟩⟩, 2, [], []⟩, .reopen,
    .rollback (otherBlock 9).point, .rollback firstBlock.point, .append (otherBlock 9),
    .nextAfter .origin, .nextAfter (otherBlock 5).point, .body (otherBlock 9).hash, .tip]

theorem run_agrees_forkScript :
    Blocks.Fit [] forkScript ∧ (inMemory.run forkScript).1 = (inTable.run forkScript).1 ∧
      (inTable.run forkScript).1 = [.ok (.appended .appended), .ok (.appended .appended),
        .ok (.appended .alreadyExists), .error (.notExtending 5 5), .ok .opened,
        .error (.notFound (otherBlock 9).point), .ok (.removed 1), .ok (.appended .appended),
        .ok (.next (some firstBlock.point)), .ok (.next none), .ok (.content (some [7])),
        .ok (.tip (some ⟨(otherBlock 9).point, 2⟩))] := by
  have fit : Blocks.Fit [] forkScript := by decide
  obtain ⟨-, -, agrees⟩ := run_agrees fit
  have memory := (agrees inMemory (.inl rfl)).1
  have table := (agrees inTable (.inr rfl)).1
  refine ⟨fit, memory.trans table.symm, table.trans ?_⟩
  rfl

end ChainStore
end ChainRelay
