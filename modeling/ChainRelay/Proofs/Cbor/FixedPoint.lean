import ChainRelay.Proofs.Cbor.Identity
import ChainRelay.Proofs.Cbor.Inner
import ChainRelay.Proofs.Cbor.Shape

/-! Writing what was read, and reading that again. The written form is kept if the item is
lasting. An item that is not lasting is read only where a byte string under tag 2 or 3 comes in
segments, and after one more reading it is gone. -/
namespace ChainRelay.Cbor
namespace Value

/-! ### What is read at first -/

/-- How an item is read behind its head. -/
inductive Opened (nested : Option (Head → Reader Value)) (b : Bytes) : Head → Value → Prop
  | flat {h : Head} {v : Value} (shallow : v.depth = 0) (other : ∀ c, v ≠ bytes c) :
      Opened nested b h v
  | bytes {length : Option Nat} {c : Bytes} (size : ∀ n, length = some n → c.length = n) :
      Opened nested b (.bytes length) (bytes c)
  | array {inner : Head → Reader Value} {length : Option Nat} {items : List Value}
      {behind : Bytes} (below : nested = some inner)
      (row : Reader.Row (Head.read >>= inner) b items behind) :
      Opened nested b (.array length) (array items)
  | map {inner : Head → Reader Value} {length : Option Nat} {entries : List (Value × Value)}
      {behind : Bytes} (below : nested = some inner)
      (row : Reader.Row (Reader.pair (Head.read >>= inner)) b entries behind) :
      Opened nested b (.map length) (map entries)
  | number {number : UInt64} {c : Bytes} {v : Value} (big : isBigTag number = true)
      (small : c.length ≤ maxBigLength) (made : big? (number = 3) c = some v) :
      Opened nested b (.tag number) v
  | tag {number : UInt64} {inner : Head → Reader Value} {h : Head} {later rest : Bytes}
      {w : Value} (below : nested = some inner) (first : Head.read b = .done h later)
      (read : inner h later = .done w rest)
      (long : isBigTag number = true → ∀ n, h = .bytes (some n) → maxBigLength < n) :
      Opened nested b (.tag number) (tag number w)

section
variable {fuel : Nat} {nested : Option (Head → Reader Value)} {b rest : Bytes} {v : Value}

theorem opened_of_tagged {number : UInt64} {h : Head} {later : Bytes}
    (first : Head.read b = .done h later)
    (long : isBigTag number = true → ∀ n, h = .bytes (some n) → maxBigLength < n)
    (done : ofHead.tagged nested number h later = .done v rest) :
    Opened nested b (.tag number) v := by
  cases nested with
  | none => cases done
  | some inner =>
    obtain ⟨w, behind, read, same⟩ := Reader.bind_eq_done.mp done
    cases same
    exact .tag rfl first read long

theorem opened_of_ofSimple {h : Head} {number : UInt8} (done : ofSimple number b = .done v rest) :
    Opened nested b h v := by
  unfold ofSimple at done
  repeat' split at done
  · cases done
    exact .flat rfl nofun
  · cases done
    exact .flat rfl nofun
  · cases done
    exact .flat rfl nofun
  · cases done

theorem opened_of_ofBig {number : UInt64} {n : Nat} {later : Bytes}
    (big : isBigTag number = true) (small : n ≤ maxBigLength)
    (done : (Reader.take n >>= fun c => ofBig (number = 3) c) later = .done v rest) :
    Opened nested b (.tag number) v := by
  obtain ⟨c, behind, taken, settled⟩ := Reader.bind_eq_done.mp done
  obtain ⟨within, rfl, -⟩ := Reader.Steady.take_eq_done.mp taken
  rw [ofBig_eq] at settled
  have short : (later.take n).length ≤ maxBigLength := by
    rw [List.length_take_of_le within]
    exact small
  cases made : big? (number = 3) (later.take n) with
  | none =>
    rw [made] at settled
    cases settled
  | some w =>
    rw [made] at settled
    cases settled
    exact .number big short made

theorem opened_of_ofHead {h : Head} (done : ofHead fuel nested h b = .done v rest) :
    Opened nested b h v := by
  cases h with
  | unsigned n | negative n | float bits =>
    cases done
    exact .flat rfl nofun
  | bytes length =>
    cases length with
    | none =>
      obtain ⟨parts, _, _, same⟩ := Reader.bind_eq_done.mp done
      cases same
      exact .bytes nofun
    | some n =>
      obtain ⟨part, _, taken, same⟩ := Reader.bind_eq_done.mp done
      cases same
      obtain ⟨within, rfl, -⟩ := Reader.Steady.take_eq_done.mp taken
      refine .bytes fun m same => ?_
      cases same
      exact List.length_take_of_le within
  | text length =>
    cases length with
    | none | some n =>
      obtain ⟨_, _, _, same⟩ := Reader.bind_eq_done.mp done
      cases same
      exact .flat rfl nofun
  | array length =>
    cases nested with
    | none => cases done
    | some inner =>
      obtain ⟨items, _, read, same⟩ := Reader.bind_eq_done.mp done
      cases same
      obtain ⟨behind, row⟩ := Reader.row_of_items read
      exact .array rfl row
  | map length =>
    cases nested with
    | none => cases done
    | some inner =>
      obtain ⟨entries, _, read, same⟩ := Reader.bind_eq_done.mp done
      cases same
      obtain ⟨behind, row⟩ := Reader.row_of_items read
      exact .map rfl row
  | tag number =>
    obtain ⟨h, later, first, second⟩ := Reader.bind_eq_done.mp done
    cases big : isBigTag number with
    | false =>
      rw [big] at second
      exact opened_of_tagged first (fun known => by rw [big] at known; cases known) second
    | true =>
      rw [big] at second
      cases h with
      | bytes length =>
        cases length with
        | none => exact opened_of_tagged first nofun second
        | some n =>
          by_cases small : n ≤ maxBigLength
          · simp only [if_pos small] at second
            exact opened_of_ofBig big small second
          · simp only [if_neg small] at second
            refine opened_of_tagged first (fun _ m same => ?_) second
            cases same
            exact Nat.lt_of_not_le small
      | _ => exact opened_of_tagged first nofun second
  | simple number => exact opened_of_ofSimple done
  | stop => cases done

theorem within_of_depth {d : Nat} (shallow : v.depth = 0) : Within d v := by
  cases v with
  | array _ | map _ | tag _ _ => simp [depth] at shallow
  | _ => cases d <;> trivial

theorem lasting_of_depth (shallow : v.depth = 0) : v.Lasting := by
  cases v with
  | array _ | map _ | tag _ _ => simp [depth] at shallow
  | _ => exact forall_parts_of_eq rfl fun _ _ same => by cases same

theorem within_big {d : Nat} {number : UInt64} {c : Bytes} (big : isBigTag number = true)
    (small : c.length ≤ maxBigLength) (made : big? (number = 3) c = some v) : Within d v := by
  rcases big?_cases big made with ⟨n, rfl⟩ | ⟨n, rfl⟩ | ⟨c', rfl, -, shorter⟩
  · exact within_of_depth rfl
  · exact within_of_depth rfl
  · cases d with
    | zero => exact ⟨big, c', rfl, Nat.le_trans shorter small⟩
    | succ d => exact within_of_depth (v := bytes c') rfl

theorem exists_suffix_of_mem_row {α : Type} {item : Reader α} {vs : List α} {x : α}
    {start behind : Bytes}
    (ends : ∀ {b rest : Bytes} {x : α}, item b = .done x rest → rest <:+ b)
    (row : Reader.Row item start vs behind) (member : x ∈ vs) :
    ∃ s rest, s <:+ start ∧ item s = .done x rest := by
  induction row with
  | nil => cases member
  | cons first others ih =>
    rcases List.mem_cons.mp member with rfl | later
    · exact ⟨_, _, List.suffix_rfl, first⟩
    · obtain ⟨s, rest, suffix, read⟩ := ih later
      exact ⟨s, rest, suffix.trans (ends first), read⟩

theorem suffix_of_item {d : Nat} (done : (Head.read >>= readAt fuel d) b = .done v rest) :
    rest <:+ b :=
  (steady_item (steady_readAt d)).suffix done

theorem suffix_of_pair {d : Nat} {e : Value × Value}
    (done : Reader.pair (Head.read >>= readAt fuel d) b = .done e rest) : rest <:+ b :=
  (Reader.Steady.pair (steady_item (steady_readAt d))).suffix done

theorem exists_suffix_of_pair {d : Nat} {e : Value × Value}
    (done : Reader.pair (Head.read >>= readAt fuel d) b = .done e rest) :
    ∃ later, later <:+ b ∧ (Head.read >>= readAt fuel d) b = .done e.1 later ∧
      (Head.read >>= readAt fuel d) later = .done e.2 rest := by
  obtain ⟨key, later, first, done⟩ := Reader.bind_eq_done.mp done
  obtain ⟨value, _, second, same⟩ := Reader.bind_eq_done.mp done
  cases same
  exact ⟨later, suffix_of_item first, first, second⟩

end

theorem within_of_readAt {d fuel : Nat} {h : Head} {b rest : Bytes} {v : Value}
    (done : readAt fuel d h b = .done v rest) : Within d v := by
  induction d generalizing h b rest v with
  | zero =>
    cases opened_of_ofHead done with
    | flat shallow => exact within_of_depth shallow
    | bytes => trivial
    | number big small made => exact within_big big small made
    | array below | map below | tag below => cases below
  | succ d ih =>
    have item : ∀ {b rest : Bytes} {v : Value},
        (Head.read >>= readAt fuel d) b = .done v rest → Within d v := by
      intro b rest v done
      obtain ⟨h, later, -, read⟩ := Reader.bind_eq_done.mp done
      exact ih read
    cases opened_of_ofHead done with
    | flat shallow => exact within_of_depth shallow
    | bytes => trivial
    | number big small made => exact within_big big small made
    | array below row =>
      cases below
      intro v member
      obtain ⟨s, rest, -, read⟩ := exists_suffix_of_mem_row suffix_of_item row member
      exact item read
    | map below row =>
      cases below
      intro e member
      obtain ⟨s, rest, -, read⟩ := exists_suffix_of_mem_row suffix_of_pair row member
      obtain ⟨later, -, key, value⟩ := exists_suffix_of_pair read
      exact ⟨item key, item value⟩
    | tag below first read =>
      cases below
      exact ih read

/-- Nowhere in the input does a tag 2 or 3 stand before a byte string in segments. -/
def Unsegmented (b : Bytes) : Prop :=
  ∀ s number later rest, s <:+ b → Head.read s = .done (.tag number) later →
    isBigTag number = true → Head.read later ≠ .done (.bytes none) rest

theorem Unsegmented.suffix {b s : Bytes} (free : Unsegmented b) (behind : s <:+ b) :
    Unsegmented s :=
  fun s' number later rest suffix => free s' number later rest (suffix.trans behind)

theorem length_of_readAt {d fuel : Nat} {h : Head} {b rest c : Bytes}
    (done : readAt fuel d h b = .done (bytes c) rest) :
    h = .bytes none ∨ h = .bytes (some c.length) := by
  have opened : ∃ nested, Opened nested b h (bytes c) := by
    cases d with
    | zero => exact ⟨_, opened_of_ofHead done⟩
    | succ d => exact ⟨_, opened_of_ofHead done⟩
  obtain ⟨nested, opened⟩ := opened
  cases opened with
  | flat _ other => exact (other c rfl).elim
  | @bytes length _ size =>
    cases length with
    | none => exact .inl rfl
    | some n =>
      rw [size n rfl]
      exact .inr rfl
  | number big _ made =>
    rcases big?_cases big made with ⟨n, same⟩ | ⟨n, same⟩ | ⟨c', same, -⟩ <;> cases same

theorem lasting_of_item {d fuel : Nat} {b rest : Bytes} {v : Value} (free : Unsegmented b)
    (done : (Head.read >>= readAt fuel d) b = .done v rest) : v.Lasting := by
  induction d generalizing b rest v with
  | zero =>
    obtain ⟨h, later, head, done⟩ := Reader.bind_eq_done.mp done
    cases opened_of_ofHead done with
    | flat shallow => exact lasting_of_depth shallow
    | bytes => exact lasting_of_depth rfl
    | number big small made => exact fun u inside => (settled_big big small made u inside).lasts
    | array below | map below | tag below => cases below
  | succ d ih =>
    obtain ⟨h, later, head, done⟩ := Reader.bind_eq_done.mp done
    -- every item within is read from an end of the input, where the tags are free as well
    have behind : later <:+ b := Head.suffix_of_read head
    cases opened_of_ofHead done with
    | flat shallow => exact lasting_of_depth shallow
    | bytes => exact lasting_of_depth rfl
    | number big small made => exact fun u inside => (settled_big big small made u inside).lasts
    | array below row =>
      cases below
      refine forall_parts_array (fun _ _ same => by cases same) fun v member => ?_
      obtain ⟨s, rest, suffix, read⟩ := exists_suffix_of_mem_row suffix_of_item row member
      exact ih (free.suffix (suffix.trans behind)) read
    | map below row =>
      cases below
      refine forall_parts_map (fun _ _ same => by cases same) fun e member => ?_
      obtain ⟨s, rest, suffix, read⟩ := exists_suffix_of_mem_row suffix_of_pair row member
      obtain ⟨later, suffix', key, value⟩ := exists_suffix_of_pair read
      have start := suffix.trans behind
      exact ⟨ih (free.suffix start) key, ih (free.suffix (suffix'.trans start)) value⟩
    | @tag number _ h' later' rest' w below first read long =>
      cases below
      have inner : w.Lasting :=
        ih (free.suffix behind) (Reader.bind_eq_done.mpr ⟨h', later', first, read⟩)
      refine forall_parts_tag (fun number' c same big small => ?_) inner
      cases same
      rcases length_of_readAt read with rfl | rfl
      · exact (free b number later later' List.suffix_rfl head big first).elim
      · exact absurd small (Nat.not_le.mpr (long big c.length rfl))

/-! ### Whole inputs -/

theorem weight_le_of_mem_entries {e : Value × Value} {entries : List (Value × Value)}
    (member : e ∈ entries) : e.1.weight + e.2.weight ≤ weightEntries entries := by
  induction entries with
  | nil => cases member
  | cons first entries ih =>
    rw [weightEntries]
    rcases List.mem_cons.mp member with rfl | later
    · omega
    · have rest := ih later
      omega

theorem length_le_weightEntries (entries : List (Value × Value)) :
    entries.length ≤ weightEntries entries := by
  induction entries with
  | nil => exact Nat.zero_le _
  | cons first entries ih =>
    have positive := first.1.weight_pos
    rw [List.length_cons, weightEntries]
    omega

theorem announced_le_weight (v : Value) : v.announced ≤ v.weight := by
  cases v with
  | array items => exact length_le_weight_array items
  | map entries =>
    have sizes := length_le_weightEntries entries
    simp only [announced, weight]
    omega
  | _ => simp only [announced, weight]; omega

theorem weight_le_of_mem_parts (v : Value) : ∀ u ∈ v.parts, u.weight ≤ v.weight := by
  induction v using nested_induction with
  | array items ih =>
    refine forall_parts_array (Nat.le_refl _) fun v member u part => ?_
    exact Nat.le_trans (ih v member u part) (weight_le_of_mem member)
  | map entries ih =>
    refine forall_parts_map (Nat.le_refl _) fun e member => ?_
    have paid := weight_le_of_mem_entries member
    rw [weight]
    constructor
    · intro u part
      have key := (ih e member).1 u part
      omega
    · intro u part
      have value := (ih e member).2 u part
      omega
  | tag number inner ih =>
    refine forall_parts_tag (Nat.le_refl _) fun u part => ?_
    rw [weight]
    exact Nat.le_trans (ih u part) (Nat.le_add_left _ 1)
  | _ => exact forall_parts_of_eq rfl (Nat.le_refl _)

theorem counted_of_decode {b : Bytes} {v : Value} (held : b.length < UInt64.size)
    (whole : decode b = .ok v) : v.Counted := by
  intro u inside
  have told := announced_le_weight u
  have part := weight_le_of_mem_parts v u inside
  have paid := weight_le_of_decode whole
  omega

theorem within_of_decode {b : Bytes} {v : Value} (whole : decode b = .ok v) :
    Within maxDepth v := by
  obtain ⟨h, later, -, read⟩ := Reader.bind_eq_done.mp (read_of_decode whole)
  exact within_of_readAt read

theorem eq_write_of_encode {v : Value} {e : Bytes} (written : encode v = .ok e) :
    v.hasFloat = false ∧ e = v.write := by
  unfold encode at written
  split at written
  · cases written
  · rename_i floatless
    exact ⟨Bool.eq_false_iff.mpr floatless, (Except.ok.inj written).symm⟩

theorem encode_sorted (v : Value) : encode v.sorted = encode v := by
  rw [encode, encode, hasFloat_sorted, write_sorted]

end Value

/-- An item that was read and written is read again from what was written if it is lasting, and
then comes back with its maps in order and is written as before. An item that is not lasting is
refused or is written otherwise; it takes a tag 2 or 3 before a byte string in segments. What has
been read a second time is written as it will be from then on. -/
theorem decode_encode_decode {b e : Bytes} {v : Value} (held : b.length < UInt64.size)
    (read : decode b = .ok v) (written : encode v = .ok e) :
    ((∃ w, decode e = .ok w ∧ encode w = .ok e) ↔ v.Lasting) ∧
      (v.Lasting → decode e = .ok v.sorted) ∧
      (Value.Unsegmented b → v.Lasting) ∧
      ∀ w e', decode e = .ok w → encode w = .ok e' →
        decode e' = .ok w.sorted ∧ encode w.sorted = .ok e' := by
  have counted : v.Counted := Value.counted_of_decode held read
  obtain ⟨-, rfl⟩ := Value.eq_write_of_encode written
  have settled : ∀ {w}, decode v.write = .ok w → w.Counted ∧ w.Lasting := by
    intro w again
    have parts := Value.settled_of_reread counted ((decode_write_eq_ok counted).mp again)
    exact ⟨fun u inside => (parts u inside).counted, fun u inside => (parts u inside).lasts⟩
  have kept : v.Lasting → decode v.write = .ok v.sorted := fun lasting =>
    (decode_write_eq_ok counted).mpr (Value.reread_of_lasting (Value.within_of_decode read) lasting)
  refine ⟨⟨?_, ?_⟩, kept, ?_, ?_⟩
  · rintro ⟨w, again, same⟩
    obtain ⟨counted', lasting⟩ := settled again
    obtain ⟨-, equal⟩ := Value.eq_write_of_encode same
    have sorts : v.sorted = w.sorted := (Value.write_eq_iff counted counted').mp equal
    rw [← Value.lasting_sorted, sorts, Value.lasting_sorted]
    exact lasting
  · intro lasting
    exact ⟨v.sorted, kept lasting, (Value.encode_sorted v).trans written⟩
  · intro free
    exact Value.lasting_of_item free (read_of_decode read)
  · intro w e' again same
    obtain ⟨counted', lasting⟩ := settled again
    obtain ⟨-, rfl⟩ := Value.eq_write_of_encode same
    have stays := Value.reread_of_lasting (Value.within_of_decode again) lasting
    exact ⟨(decode_write_eq_ok counted').mpr stays, (Value.encode_sorted w).trans same⟩

/-- An array of no announced length with a wide head, a byte string in segments and undefined,
and a number under tag 2 in segments. -/
theorem decode_encode_decode_segments :
    (∃ w, decode [0x9f, 0x18, 5, 0x5f, 0x41, 7, 0xff, 0xf7, 0xff] = .ok w ∧
      encode w = .ok [0x83, 5, 0x41, 7, 0xf6] ∧ decode [0x83, 5, 0x41, 7, 0xf6] = .ok w) ∧
    (∃ w, decode [0xc2, 0x5f, 0x41, 5, 0xff] = .ok w ∧ encode w = .ok [0xc2, 0x41, 5] ∧
      (¬ ∃ w', decode [0xc2, 0x41, 5] = .ok w' ∧ encode w' = .ok [0xc2, 0x41, 5]) ∧
      decode [5] = .ok (.unsigned 5) ∧ encode (.unsigned 5) = .ok [5]) := by
  constructor
  · let w : Value := .array [.unsigned 5, .bytes [7], .null]
    have read : decode [0x9f, 0x18, 5, 0x5f, 0x41, 7, 0xff, 0xf7, 0xff] = .ok w := rfl
    have written : encode w = .ok [0x83, 5, 0x41, 7, 0xf6] := rfl
    have lasting : w.Lasting := by
      simp [w, Value.Lasting, Value.Lasts, Value.parts, Value.partsAll]
    exact ⟨w, read, written, (decode_encode_decode (by decide) read written).2.1 lasting⟩
  · let w : Value := .tag 2 (.bytes [5])
    have read : decode [0xc2, 0x5f, 0x41, 5, 0xff] = .ok w := rfl
    have written : encode w = .ok [0xc2, 0x41, 5] := rfl
    obtain ⟨kept, -, -, later⟩ := decode_encode_decode (by decide) read written
    refine ⟨w, read, written, fun again => ?_, later (.unsigned 5) [5] rfl rfl⟩
    have large := (kept.mp again) w (Value.mem_parts_self w) 2 [5] rfl rfl (by decide)
    exact absurd large.beyond (by decide)

end ChainRelay.Cbor
