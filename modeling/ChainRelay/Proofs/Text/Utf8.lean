import ChainRelay.Cbor.Reader

/-! Texts and their bytes. A text that begins with another goes on with a third, and
wherever a text is cut, a character ends at most three bytes before. So a reader that
looks at one window after the other finds nothing broken in the front of a text. -/
namespace ChainRelay.Bytes

theorem toByteArray_eq (b : Bytes) : (⟨b.toArray⟩ : ByteArray) = b.toByteArray := by
  apply ByteArray.ext
  simp

theorem toByteArray_ofText (s : String) : (ofText s).toByteArray = s.toByteArray := by
  apply ByteArray.ext
  simp [ofText]

theorem eq_ofText_iff {b : Bytes} {s : String} : b = ofText s ↔ b.toByteArray = s.toByteArray := by
  constructor
  · rintro rfl
    exact toByteArray_ofText s
  · intro same
    have bytes := congrArg (·.data.toList) same
    simpa [ofText] using bytes

theorem toText?_eq_some_iff {b : Bytes} {s : String} : toText? b = some s ↔ b = ofText s := by
  rw [eq_ofText_iff, toText?, toByteArray_eq, String.fromUTF8?]
  constructor
  · intro read
    split at read
    · cases Option.some.inj read
      rfl
    · contradiction
  · intro same
    have valid : b.toByteArray.IsValidUTF8 := same ▸ s.isValidUTF8
    rw [dif_pos valid]
    exact congrArg some (String.toByteArray_inj.mp same)

@[simp] theorem toText?_ofText (s : String) : toText? (ofText s) = some s :=
  toText?_eq_some_iff.mpr rfl

theorem ofText_append (s t : String) : ofText (s ++ t) = ofText s ++ ofText t := by
  simp [ofText, String.toByteArray_append]

theorem ofText_ofList (cs : List Char) :
    ofText (String.ofList cs) = cs.flatMap String.utf8EncodeChar := by
  symm
  rw [eq_ofText_iff, String.toByteArray_ofList]
  rfl

theorem exists_ofText_of_append {s t : String} {rest : Bytes} (same : ofText s ++ rest = ofText t) :
    ∃ u, rest = ofText u := by
  have bytes := congrArg List.toByteArray same
  simp only [List.toByteArray_append, toByteArray_ofText] at bytes
  rw [← String.utf8Encode_toList, ← String.utf8Encode_toList] at bytes
  obtain ⟨later, split⟩ := List.isPrefix_of_utf8Encode_append_eq_utf8Encode _ bytes
  rw [← split, List.utf8Encode_append, ByteArray.append_right_inj] at bytes
  refine ⟨String.ofList later, eq_ofText_iff.mpr ?_⟩
  rw [bytes, String.toByteArray_ofList]

theorem exists_boundary_of_chars (cs : List Char) (window rest : Bytes)
    (whole : window ++ rest = cs.flatMap String.utf8EncodeChar) :
    ∃ k ≤ 3, k ≤ window.length ∧ ∃ s, window.take (window.length - k) = ofText s := by
  induction cs generalizing window with
  | nil =>
    have none : window = [] := (List.append_eq_nil_iff.mp whole).1
    exact ⟨0, by simp, by simp, "", by simp [none, ofText]⟩
  | cons c cs ih =>
    rw [List.flatMap_cons] at whole
    rcases List.append_eq_append_iff.mp whole with ⟨later, first, -⟩ | ⟨later, first, tail⟩
    · -- the cut is in the first character or right behind it
      have size := congrArg List.length first
      rw [String.length_utf8EncodeChar, List.length_append] at size
      have four := c.utf8Size_le_four
      cases later with
      | nil =>
        refine ⟨0, by simp, by simp, String.ofList [c], ?_⟩
        rw [List.append_nil] at first
        rw [Nat.sub_zero, List.take_length, ofText_ofList, ← first]
        simp only [List.flatMap_cons, List.flatMap_nil, List.append_nil]
      | cons b later =>
        rw [List.length_cons] at size
        exact ⟨window.length, by omega, by simp, "", by simp [ofText]⟩
    · obtain ⟨k, small, within, s, boundary⟩ := ih later tail.symm
      refine ⟨k, small, by rw [first, List.length_append]; omega, String.ofList [c] ++ s, ?_⟩
      have keep : (String.utf8EncodeChar c ++ later).length - k =
          (String.utf8EncodeChar c).length + (later.length - k) := by
        rw [List.length_append]; omega
      rw [first, keep, List.take_length_add_append, boundary, ofText_append, ofText_ofList]
      simp

/-- Wherever a text is cut, a character ends at most three bytes before. -/
theorem exists_boundary {t : String} {window rest : Bytes} (whole : window ++ rest = ofText t) :
    ∃ k ≤ 3, k ≤ window.length ∧ ∃ s, window.take (window.length - k) = ofText s := by
  apply exists_boundary_of_chars t.toList window rest
  rw [whole, ← ofText_ofList, String.ofList_toList]

end ChainRelay.Bytes

namespace ChainRelay.Cbor.Reader

theorem isText_of_unfinished? {window : Bytes} {k : Nat} (found : unfinished? window = some k) :
    ∃ s, window.take (window.length - k) = Bytes.ofText s := by
  have isText := List.find?_some
    (p := fun k => (Bytes.toText? (window.take (window.length - k))).isSome) found
  obtain ⟨s, read⟩ := Option.isSome_iff_exists.mp isText
  exact ⟨s, Bytes.toText?_eq_some_iff.mp read⟩

theorem unfinished?_isSome {t : String} {window rest : Bytes}
    (whole : window ++ rest = Bytes.ofText t) : (unfinished? window).isSome := by
  obtain ⟨k, small, -, s, boundary⟩ := Bytes.exists_boundary whole
  refine List.find?_isSome.mpr ⟨k, ?_, ?_⟩
  · simp only [List.mem_cons, List.not_mem_nil, or_false]
    omega
  · rw [boundary, Bytes.toText?_ofText]
    rfl

theorem isBrokenFor_eq_false (fuel : Nat) {t : String} {b rest : Bytes}
    (whole : b ++ rest = Bytes.ofText t) : isBrokenFor fuel b = false := by
  induction fuel generalizing b t with
  | zero => rfl
  | succ fuel ih =>
    simp only [isBrokenFor]
    split
    · rfl
    · rename_i full
      have size : (b.take windowSize).length = windowSize := by
        rw [List.length_take] at full ⊢
        omega
      have cut : b.take windowSize ++ (b.drop windowSize ++ rest) = Bytes.ofText t := by
        rw [← List.append_assoc, List.take_append_drop, whole]
      obtain ⟨k, found⟩ := Option.isSome_iff_exists.mp (unfinished?_isSome cut)
      rw [found]
      obtain ⟨s, front⟩ := isText_of_unfinished? found
      rw [size, List.take_take, Nat.min_eq_left (Nat.sub_le _ _)] at front
      have again : Bytes.ofText s ++ (b.drop (windowSize - k) ++ rest) = Bytes.ofText t := by
        rw [← front, ← List.append_assoc, List.take_append_drop, whole]
      obtain ⟨u, tail⟩ := Bytes.exists_ofText_of_append again
      exact ih tail

theorem toText?_eq_none_of_isBroken {b : Bytes} (broken : isBroken b = true) (rest : Bytes) :
    Bytes.toText? (b ++ rest) = none := by
  cases read : Bytes.toText? (b ++ rest) with
  | none => rfl
  | some t =>
    have whole := Bytes.toText?_eq_some_iff.mp read
    rw [isBroken, isBrokenFor_eq_false _ whole] at broken
    contradiction

theorem isBrokenFor_append (fuel more : Nat) {b : Bytes} (broken : isBrokenFor fuel b = true)
    (rest : Bytes) : isBrokenFor (fuel + more) (b ++ rest) = true := by
  induction fuel generalizing b with
  | zero => contradiction
  | succ fuel ih =>
    rw [Nat.add_right_comm]
    simp only [isBrokenFor] at broken ⊢
    split at broken
    · contradiction
    · rename_i full
      have size : windowSize ≤ b.length := by
        rw [List.length_take] at full
        omega
      rw [List.take_append_of_le_length size, if_neg full]
      cases found : unfinished? (b.take windowSize) with
      | none => rfl
      | some k =>
        simp only [found] at broken
        have within : windowSize - k ≤ b.length := by omega
        simp only [List.drop_append_of_le_length within]
        exact ih broken

theorem isBroken_append {b : Bytes} (broken : isBroken b = true) (rest : Bytes) :
    isBroken (b ++ rest) = true := by
  have more : b.length / (windowSize - 3) ≤ (b ++ rest).length / (windowSize - 3) :=
    Nat.div_le_div_right (by simp)
  obtain ⟨extra, enough⟩ := Nat.exists_eq_add_of_le more
  have same := isBrokenFor_append _ extra broken rest
  rw [isBroken, enough, Nat.add_right_comm]
  exact same

end ChainRelay.Cbor.Reader
