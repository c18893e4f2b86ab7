import ChainRelay.Proofs.Text.Utf8

/-! More input does not change an answer. What a reader has read it reads again, with
the new bytes behind it, and what no continuation could repair stays malformed. The
fuel of a reader plays no part as long as there is more of it than input. A reader
also uses up what its value costs, so no value is larger than its written form. -/
namespace ChainRelay.Cbor

variable {α β : Type}

/-- The answer `later` of a longer input keeps to the answer for its front. What was
incomplete takes some of the new bytes. -/
def Outcome.Grows (o : Outcome α) (more : Bytes) (later : Outcome α) : Prop :=
  match o with
  | .done v rest => later = .done v (rest ++ more)
  | .incomplete => ∀ v rest, later = .done v rest → rest.length < more.length
  | .malformed => later = .malformed

namespace Reader

/-- A reader, given its fuel, that keeps to its answers, returns the end of its input
and uses at least the cost of what it reads. -/
structure Steady (cost : α → Nat) (r : Nat → Reader α) : Prop where
  suffix : ∀ {n : Nat} {b rest : Bytes} {v : α}, r n b = .done v rest → rest <:+ b
  pays : ∀ {n : Nat} {b rest : Bytes} {v : α}, r n b = .done v rest →
    rest.length + cost v ≤ b.length
  grows : ∀ {n m : Nat} {b more : Bytes}, b.length < n → (b ++ more).length < m →
    (r n b).Grows more (r m (b ++ more))

theorem bind_eq_done {r : Reader α} {f : α → Reader β} {b rest : Bytes} {w : β} :
    (r >>= f) b = .done w rest ↔ ∃ v later, r b = .done v later ∧ f v later = .done w rest := by
  change (r b).bind f = _ ↔ _
  cases r b with
  | done v later =>
    constructor
    · intro read
      exact ⟨v, later, rfl, read⟩
    · rintro ⟨v, later, ⟨⟩, read⟩
      exact read
  | incomplete => simp [Outcome.bind]
  | malformed => simp [Outcome.bind]

namespace Steady

theorem pure {cost : α → Nat} {v : α} (free : cost v = 0) :
    Steady cost fun _ => (Pure.pure v : Reader α) where
  suffix read := by
    cases read
    exact List.suffix_rfl
  pays read := by
    cases read
    omega
  grows _ _ := rfl

theorem malformed {cost : α → Nat} : Steady cost fun _ => (Reader.malformed : Reader α) where
  suffix read := by cases read
  pays read := by cases read
  grows _ _ := rfl

theorem bind {cost : α → Nat} {c : α → β → Nat} {total : β → Nat} {r : Nat → Reader α}
    {f : α → Nat → Reader β} (first : Steady cost r) (second : ∀ v, Steady (c v) (f v))
    (enough : ∀ v w, total w ≤ cost v + c v w) : Steady total fun n => r n >>= fun v => f v n where
  suffix read := by
    obtain ⟨v, later, one, two⟩ := bind_eq_done.mp read
    exact ((second v).suffix two).trans (first.suffix one)
  pays {n b rest w} read := by
    obtain ⟨v, later, one, two⟩ := bind_eq_done.mp read
    have front := first.pays one
    have back := (second v).pays two
    have sum := enough v w
    omega
  grows {n m b more} fuel fuel' := by
    change ((r n b).bind fun v => f v n).Grows more ((r m (b ++ more)).bind fun v => f v m)
    have kept := first.grows fuel fuel'
    cases read : r n b with
    | done v later =>
      rw [read] at kept
      rw [kept]
      have shorter := (first.suffix read).length_le
      rw [List.length_append] at fuel'
      exact (second v).grows (by omega) (by rw [List.length_append]; omega)
    | incomplete =>
      intro w rest whole
      rw [read] at kept
      obtain ⟨v, later, one, two⟩ := bind_eq_done.mp whole
      exact Nat.lt_of_le_of_lt ((second v).suffix two).length_le (kept v later one)
    | malformed =>
      rw [read] at kept
      rw [kept]
      rfl

theorem map {cost : α → Nat} {total : β → Nat} {r : Nat → Reader α} {f : α → β}
    (steady : Steady cost r) (enough : ∀ v, total (f v) ≤ cost v) :
    Steady total fun n => r n >>= fun v => Pure.pure (f v) := by
  have second : ∀ v, Steady (fun w => total w - cost v) fun _ => (Pure.pure (f v) : Reader β) :=
    fun v => pure (Nat.sub_eq_zero_of_le (enough v))
  exact steady.bind second fun v w => by omega

theorem mono {cost less : α → Nat} {r : Nat → Reader α} (steady : Steady cost r)
    (enough : ∀ v, less v ≤ cost v) : Steady less r where
  suffix := steady.suffix
  pays read := Nat.le_trans (Nat.add_le_add_left (enough _) _) (steady.pays read)
  grows := steady.grows

theorem byte : Steady (fun _ => 1) fun _ => Reader.byte where
  suffix {_ b _ _} read := by
    cases b with
    | nil => cases read
    | cons x b =>
      cases read
      exact List.suffix_cons _ _
  pays {_ b _ _} read := by
    cases b with
    | nil => cases read
    | cons x b =>
      cases read
      exact Nat.le_refl _
  grows {_ _ b more} _ _ := by
    cases b with
    | nil =>
      intro x rest read
      cases more with
      | nil => cases read
      | cons y more =>
        cases read
        exact Nat.lt_succ_self _
    | cons x b => rfl

theorem take_eq_done {count : Nat} {b part rest : Bytes} :
    Reader.take count b = .done part rest ↔
      count ≤ b.length ∧ part = b.take count ∧ rest = b.drop count := by
  simp only [Reader.take, List.splitAt_eq, List.length_take]
  split
  · rename_i short
    constructor
    · intro read
      contradiction
    · intro whole
      omega
  · rename_i whole
    constructor
    · intro read
      cases read
      exact ⟨by omega, rfl, rfl⟩
    · rintro ⟨-, rfl, rfl⟩
      rfl

theorem take_of_short {count : Nat} {b : Bytes} (short : b.length < count) :
    Reader.take count b = .incomplete := by
  simp only [Reader.take, List.splitAt_eq, List.length_take]
  exact if_pos (by omega)

theorem take (count : Nat) : Steady List.length fun _ => Reader.take count where
  suffix read := by
    obtain ⟨-, -, rfl⟩ := take_eq_done.mp read
    exact List.drop_suffix count _
  pays read := by
    obtain ⟨within, rfl, rfl⟩ := take_eq_done.mp read
    rw [List.length_drop, List.length_take]
    omega
  grows {_ _ b more} _ _ := by
    by_cases short : b.length < count
    · rw [take_of_short short]
      intro part rest read
      obtain ⟨within, -, rfl⟩ := take_eq_done.mp read
      rw [List.length_append] at within
      rw [List.length_drop, List.length_append]
      omega
    · have within : count ≤ b.length := Nat.le_of_not_lt short
      rw [take_eq_done.mpr ⟨within, rfl, rfl⟩]
      refine take_eq_done.mpr ⟨?_, ?_, ?_⟩
      · rw [List.length_append]
        omega
      · rw [List.take_append_of_le_length within]
      · rw [List.drop_append_of_le_length within]

theorem bigEndian (width : Nat) : Steady (fun _ => 0) fun _ => Reader.bigEndian width :=
  (take width).map fun _ => Nat.zero_le _

theorem utf8_of_isBroken {b : Bytes} (broken : isBroken b = true) {count : Nat}
    (short : b.length < count) (more : Bytes) : Reader.utf8 count (b ++ more) = .malformed := by
  by_cases still : (b ++ more).length < count
  · simp only [Reader.utf8, take_of_short still, if_pos (isBroken_append broken more)]
  · have part : (b ++ more).take count = b ++ more.take (count - b.length) := by
      rw [List.take_append, List.take_of_length_le (Nat.le_of_lt short)]
    simp only [Reader.utf8, take_eq_done.mpr ⟨Nat.le_of_not_lt still, rfl, rfl⟩, part,
      toText?_eq_none_of_isBroken broken]

theorem utf8_eq_done {count : Nat} {b rest : Bytes} {s : String} :
    Reader.utf8 count b = .done s rest ↔ Reader.take count b = .done (Bytes.ofText s) rest := by
  by_cases short : b.length < count
  · simp only [Reader.utf8, take_of_short short]
    split <;> simp
  · have taken := take_eq_done.mpr ⟨Nat.le_of_not_lt short, rfl, rfl⟩
    simp only [Reader.utf8, taken]
    cases text : Bytes.toText? (b.take count) with
    | none =>
      simp only [Outcome.done.injEq, false_iff, reduceCtorEq, not_and]
      intro same
      rw [same, Bytes.toText?_ofText] at text
      contradiction
    | some t =>
      rw [Bytes.toText?_eq_some_iff] at text
      simp only [Outcome.done.injEq, text]
      constructor
      · rintro ⟨rfl, rfl⟩
        exact ⟨rfl, rfl⟩
      · rintro ⟨same, rfl⟩
        have again := congrArg Bytes.toText? same
        simp only [Bytes.toText?_ofText, Option.some.injEq] at again
        exact ⟨again, rfl⟩

theorem utf8 (count : Nat) :
    Steady (fun s => (Bytes.ofText s).length) fun _ => Reader.utf8 count where
  suffix {n} _ _ _ read := (take count).suffix (n := n) (utf8_eq_done.mp read)
  pays {n} _ _ _ read := (take count).pays (n := n) (utf8_eq_done.mp read)
  grows {n m b more} fuel fuel' := by
    by_cases short : b.length < count
    · by_cases broken : isBroken b = true
      · rw [utf8_of_isBroken broken short]
        simp only [Reader.utf8, take_of_short short, if_pos broken]
        rfl
      · have waits := (take count).grows fuel fuel'
        rw [take_of_short short] at waits
        simp only [Reader.utf8, take_of_short short, if_neg broken]
        intro s rest read
        exact waits _ rest (utf8_eq_done.mp read)
    · have taken := take_eq_done.mpr ⟨Nat.le_of_not_lt short, rfl, rfl⟩
      have kept : Reader.take count (b ++ more) = _ := taken ▸ (take count).grows fuel fuel'
      simp only [Reader.utf8, taken, kept]
      split <;> rfl

theorem argument (info : UInt8) : Steady (fun _ => 0) fun _ => Head.argument info := by
  unfold Head.argument
  repeat' split
  · exact pure rfl
  · exact (bigEndian 1).map fun _ => Nat.le_refl _
  · exact (bigEndian 2).map fun _ => Nat.le_refl _
  · exact (bigEndian 4).map fun _ => Nat.le_refl _
  · exact (bigEndian 8).map fun _ => Nat.le_refl _
  · exact pure rfl
  · exact malformed

theorem definite (info : UInt8) : Steady (fun _ => 0) fun _ => Head.definite info := by
  unfold Head.definite
  refine (argument info).bind (c := fun _ _ => 0) (fun n => ?_) fun _ _ => Nat.le_refl _
  cases n with
  | none => exact malformed
  | some n => exact pure rfl

theorem special (info : UInt8) : Steady (fun _ => 0) fun _ => Head.special info := by
  unfold Head.special
  repeat' split
  · exact pure rfl
  · exact byte.map fun _ => Nat.zero_le _
  · exact (bigEndian 2).map fun _ => Nat.le_refl _
  · exact (bigEndian 4).map fun _ => Nat.le_refl _
  · exact (bigEndian 8).map fun _ => Nat.le_refl _
  · exact pure rfl
  · exact malformed

theorem head : Steady (fun _ => 1) fun _ => Head.read := by
  unfold Head.read
  refine byte.bind (fun first => ?_) fun _ _ => Nat.le_add_right 1 0
  dsimp only
  split
  · exact (definite _).map fun _ => Nat.le_refl _
  · exact (definite _).map fun _ => Nat.le_refl _
  · exact (argument _).map fun _ => Nat.le_refl _
  · exact (argument _).map fun _ => Nat.le_refl _
  · exact (argument _).map fun _ => Nat.le_refl _
  · exact (argument _).map fun _ => Nat.le_refl _
  · exact (definite _).map fun _ => Nat.le_refl _
  · exact special _

end Steady
end Reader
end ChainRelay.Cbor
