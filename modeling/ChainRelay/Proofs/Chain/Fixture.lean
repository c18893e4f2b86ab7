import ChainRelay.Chain.Fixture
import ChainRelay.Proofs.Chain.Codec
import ChainRelay.Proofs.Chain.Embedded
import ChainRelay.Proofs.Chain.Script
import ChainRelay.Proofs.Handshake.Negotiation

/-! Synthetic chains are sound chains. Whatever they are made of, by growth and forks, each block
names the one before it and sits at one point, however that is derived, and a store takes the
blocks in. -/
namespace ChainRelay

namespace Cbor

theorem length_head_le (major n : Nat) : (head major n).length ≤ 9 := by
  unfold head
  dsimp only
  split
  · simp
  · split
    · simp
    · split
      · simp
      · split <;> simp

end Cbor

namespace Fixture
open Cbor (Value)

inductive Made : Fixture → Prop
  | withSalt (salt : UInt8) : Made (withSalt salt)
  | push {f : Fixture} (made : Made f) : Made f.push
  | extend {f : Fixture} (made : Made f) (n : Nat) : Made (f.extend n)
  | fork {f : Fixture} (made : Made f) (keep : Nat) (salt : UInt8) : Made (f.fork keep salt)

/-- What the header of the next block says of the blocks before it. -/
def previousField (before : List StoredBlock) : Value :=
  match before.getLast? with
  | none => .null
  | some b => .bytes b.hash.bytes

/-- The block continues those before it. Its point is that of the header, stored or in the body. -/
structure Continues (before : List StoredBlock) (b : StoredBlock) : Prop where
  blockNumber : b.blockNumber.toNat = before.length + 1
  slot : b.point.slot.toNat = 20 * (before.length + 1)
  header : ∃ bytes fields, HeaderContent.decode b.header = .ok (.shelley era bytes) ∧
    (HeaderContent.shelley era bytes).encode = .ok b.header ∧
    Cbor.decode bytes = .ok (.array (.array [.unsigned b.blockNumber, .unsigned b.point.slot,
      previousField before] :: fields)) ∧
    b.point.hash = some (.digest bytes) ∧
    (HeaderContent.shelley era bytes).point = .ok b.point
  body : (HeaderContent.block b.body).point = .ok b.point

def Linked (blocks : List StoredBlock) : Prop :=
  ∀ before b after, blocks = before ++ b :: after → Continues before b

/-! ### One block -/

variable {number slot : UInt64} {previous : Option BlockHash} {salt : UInt8}

theorem plain_headerValue (d : Nat) (number slot : UInt64) (previous : Option BlockHash)
    (salt : UInt8) : (headerValue number slot previous salt).Plain (d + 2) := by
  cases previous with
  | none => simp [headerValue, Value.Plain, UInt64.size]
  | some h => simp [headerValue, Value.Plain, UInt64.size, h.length_bytes]

theorem sorted_headerValue :
    (headerValue number slot previous salt).sorted = headerValue number slot previous salt := by
  cases previous <;> rfl

theorem decode_headerValue (number slot : UInt64) (previous : Option BlockHash) (salt : UInt8) :
    Cbor.decode (headerValue number slot previous salt).write =
      .ok (headerValue number slot previous salt) := by
  rw [Cbor.decode_write (plain_headerValue 254 number slot previous salt), sorted_headerValue]

theorem length_headerValue_lt :
    (headerValue number slot previous salt).write.length < UInt64.size := by
  have heads := Cbor.length_head_le
  have size : UInt64.size = 18446744073709551616 := rfl
  have outer := heads 4 2
  have inner := heads 4 3
  have first := heads 0 number.toNat
  have second := heads 0 slot.toNat
  have hash := heads 2 32
  have signature := heads 2 8
  cases previous with
  | none =>
    simp only [headerValue, Value.write, Value.writeItems, List.length_append, List.length_cons,
      List.length_nil, List.length_replicate, Nat.zero_add, Nat.reduceAdd]
    omega
  | some h =>
    simp only [headerValue, Value.write, Value.writeItems, List.length_append, List.length_cons,
      List.length_nil, List.length_replicate, Nat.zero_add, Nat.reduceAdd, h.length_bytes]
    omega

theorem shelleySlot_headerValue (number slot : UInt64) (previous : Option BlockHash)
    (salt : UInt8) :
    HeaderContent.shelleySlot (headerValue number slot previous salt) = .ok slot := by
  cases previous <;> rfl

theorem point_shelley (number slot : UInt64) (previous : Option BlockHash) (salt : UInt8) :
    let bytes := (headerValue number slot previous salt).write
    (HeaderContent.shelley era bytes).point = .ok ⟨slot, some (.digest bytes)⟩ := by
  intro bytes
  refine HeaderContent.point_eq_ok.mpr ⟨slot, .digest bytes, ?_, rfl, rfl⟩
  rw [HeaderContent.slot, decode_headerValue]
  exact shelleySlot_headerValue number slot previous salt

theorem point_block {b : Bytes} {others : List Value}
    (whole : Cbor.decode b =
      .ok (.array [.unsigned era, .array (headerValue number slot previous salt :: others)])) :
    (HeaderContent.block b).point =
      .ok ⟨slot, some (.digest (headerValue number slot previous salt).write)⟩ := by
  have parts := HeaderContent.ofBlock_of_decode whole
  refine HeaderContent.point_eq_ok.mpr ⟨slot, _, ?_, ?_, rfl⟩
  · rw [HeaderContent.slot, parts]
    exact shelleySlot_headerValue number slot previous salt
  · rw [HeaderContent.hash, parts]
    change (Cbor.encode (headerValue number slot previous salt) >>= _) = _
    rw [Cbor.encode_eq_write (plain_headerValue 0 number slot previous salt)]
    rfl

theorem length_payload_lt (number : UInt64) (salt : UInt8) :
    (Bytes.ofText s!"tx {number} {salt}").length < UInt64.size := by
  refine Nat.lt_of_le_of_lt (Bytes.length_ofText_le _) ?_
  have digits := VersionTable.length_repr_le number
  have few : (toString salt).length ≤ 3 := by
    have short : salt.toNat.repr.length ≤ 3 := by
      rw [Nat.length_repr_le_iff (by decide)]
      have small := salt.toNat_lt
      omega
    exact short
  have size : UInt64.size = 18446744073709551616 := rfl
  have lead : (toString "tx ").length = 3 := rfl
  have middle : (toString " ").length = 1 := rfl
  simp only [String.length_append]
  omega

theorem decode_body (number slot : UInt64) (previous : Option BlockHash) (salt : UInt8) :
    let header := headerValue number slot previous salt
    let others := [Value.array [.bytes (Bytes.ofText s!"tx {number} {salt}")]]
    Cbor.decode (Value.array [.unsigned era, .array (header :: others)]).write =
      .ok (.array [.unsigned era, .array (header :: others)]) := by
  intro header others
  have payload := length_payload_lt number salt
  have plain : (Value.array [.unsigned era, .array (header :: others)]).Plain 256 := by
    have inside : header.Plain 254 := plain_headerValue 252 ..
    have few : 2 < UInt64.size := by decide
    have one : 1 < UInt64.size := by decide
    simpa [others, Value.Plain, few, one, inside] using payload
  rw [Cbor.decode_write plain]
  simp only [others, header, Value.sorted, Value.sortedAll, sorted_headerValue]

theorem header_block (number : UInt64) (previous : Option BlockHash) (salt : UInt8) :
    let b := block number previous salt
    let bytes := (headerValue number b.point.slot previous salt).write
    (HeaderContent.shelley era bytes).encode = .ok b.header ∧
      HeaderContent.decode b.header = .ok (.shelley era bytes) := by
  intro b bytes
  have fits : (HeaderContent.shelley era bytes).Fits := by
    refine ⟨length_headerValue_lt, ?_⟩
    rintro _ _ ⟨⟩
    decide
  have written : (HeaderContent.shelley era bytes).encode = .ok b.header :=
    Cbor.encode_eq_write (HeaderContent.plain_toCbor 0 fits)
  exact ⟨written, HeaderContent.decode_encode fits written⟩

theorem continues_block (before : List StoredBlock) (salt : UInt8)
    (small : 20 * (before.length + 1) < UInt64.size) :
    Continues before
      (block (.ofNat (before.length + 1)) (before.getLast?.map (·.hash)) salt) := by
  have size : UInt64.size = 18446744073709551616 := rfl
  have number_eq : (UInt64.ofNat (before.length + 1)).toNat = before.length + 1 :=
    UInt64.toNat_ofNat_of_lt' (by omega)
  have spacing : slotSpacing.toNat = 20 := rfl
  generalize UInt64.ofNat (before.length + 1) = number at number_eq
  constructor
  · exact number_eq
  · change (number * slotSpacing).toNat = _
    rw [UInt64.toNat_mul, number_eq, spacing]
    omega
  · obtain ⟨written, read⟩ := header_block number (before.getLast?.map (·.hash)) salt
    refine ⟨_, [.bytes (List.replicate 8 salt)], read, written, ?_, rfl, point_shelley ..⟩
    rw [decode_headerValue, previousField]
    cases before.getLast? <;> rfl
  · exact point_block (decode_body ..)

/-! ### A chain of blocks -/

def Built (blocks : List StoredBlock) : Prop :=
  ∀ before b after, blocks = before ++ b :: after →
    ∃ salt, b = block (.ofNat (before.length + 1)) (before.getLast?.map (·.hash)) salt

variable {f : Fixture} {blocks : List StoredBlock}

theorem Built.linked (built : Built blocks) (small : 20 * blocks.length < UInt64.size) :
    Linked blocks := by
  intro before b after split
  obtain ⟨salt, rfl⟩ := built before b after split
  apply continues_block
  have length := congrArg List.length split
  rw [List.length_append, List.length_cons] at length
  omega

theorem Built.of_prefix {front : List StoredBlock} (built : Built blocks)
    (part : front <+: blocks) : Built front := by
  obtain ⟨rest, rfl⟩ := part
  intro before b after split
  apply built before b (after ++ rest)
  rw [split, List.append_assoc, List.cons_append]

theorem Built.push (built : Built f.blocks) : Built f.push.blocks := by
  intro before b after split
  rcases after.eq_nil_or_concat with rfl | ⟨init, last, rfl⟩
  · obtain ⟨rfl, own⟩ := List.append_inj' split rfl
    exact ⟨f.salt, (List.cons.inj own).1.symm⟩
  · rw [List.concat_eq_append, ← List.cons_append, ← List.append_assoc] at split
    obtain ⟨whole, -⟩ := List.append_inj' split rfl
    exact built before b init whole

theorem blocks_extend (f : Fixture) (n : Nat) :
    ∃ added, (f.extend n).blocks = f.blocks ++ added ∧ added.length = n := by
  induction n generalizing f with
  | zero => exact ⟨[], (List.append_nil _).symm, rfl⟩
  | succ n ih =>
    obtain ⟨added, whole, length⟩ := ih f.push
    obtain ⟨b, grown⟩ : ∃ b, f.push.blocks = f.blocks ++ [b] := ⟨_, rfl⟩
    refine ⟨b :: added, ?_, congrArg (· + 1) length⟩
    rw [extend, whole, grown, List.append_assoc, List.singleton_append]

theorem Built.extend (built : Built f.blocks) (n : Nat) : Built (f.extend n).blocks := by
  induction n generalizing f with
  | zero => exact built
  | succ n ih => exact ih built.push

theorem Made.built (made : Made f) : Built f.blocks := by
  induction made with
  | withSalt salt =>
    intro before b after split
    cases before <;> cases split
  | push _ ih => exact ih.push
  | extend _ n ih => exact ih.extend n
  | fork _ keep salt ih => exact ih.of_prefix (List.take_prefix keep _)

theorem pairwise_of_before {α : Type} {R : α → α → Prop} {l : List α}
    (holds : ∀ before b after, l = before ++ b :: after → ∀ a ∈ before, R a b) : l.Pairwise R := by
  induction l with
  | nil => exact .nil
  | cons a l ih =>
    refine List.pairwise_cons.mpr ⟨?_, ih ?_⟩
    · intro b member
      obtain ⟨between, after, rfl⟩ := List.append_of_mem member
      exact holds (a :: between) b after rfl a List.mem_cons_self
    · intro before b after split c member
      refine holds (a :: before) b after ?_ c (List.mem_cons_of_mem a member)
      rw [split, List.cons_append]

/-- The slots rise, and no two blocks have one hash if no two headers have one digest. -/
theorem Linked.ordered (linked : Linked blocks)
    (apart : ∀ a ∈ blocks, ∀ b ∈ blocks, a.hash = b.hash → a.header = b.header) :
    Blocks.Ordered blocks := by
  have placed : ∀ b ∈ blocks, ∃ before after, blocks = before ++ b :: after :=
    fun b member => List.append_of_mem member
  have hashed : ∀ b ∈ blocks, b.point.hash.isSome := by
    intro b member
    obtain ⟨before, after, split⟩ := placed b member
    obtain ⟨bytes, fields, -, -, -, hash, -⟩ := (linked before b after split).header
    rw [hash]
    rfl
  have below : ∀ before b after, blocks = before ++ b :: after → ∀ a ∈ before,
      a.point.slot < b.point.slot := by
    intro before b after split a member
    obtain ⟨front, between, rfl⟩ := List.append_of_mem member
    have late := (linked _ b after split).slot
    rw [List.append_assoc, List.cons_append] at split
    have early := (linked front a _ split).slot
    rw [UInt64.lt_iff_toNat_lt, early, late, List.length_append, List.length_cons]
    omega
  refine ⟨hashed, pairwise_of_before below, pairwise_of_before ?_⟩
  -- two blocks with one hash would have one header, hence one slot
  intro before b after split a member same
  have present : b ∈ blocks := by
    rw [split]
    simp
  have earlier : a ∈ blocks := by
    rw [split]
    exact List.mem_append_left _ member
  obtain ⟨front, back, whole⟩ := placed a earlier
  obtain ⟨bytes, -, read, -, -, -, point⟩ := (linked before b after split).header
  obtain ⟨bytes', -, read', -, -, -, point'⟩ := (linked front a back whole).header
  have header : a.header = b.header :=
    apart a earlier b present (by rw [StoredBlock.hash, same, StoredBlock.hash])
  rw [header, read] at read'
  cases read'
  rw [point] at point'
  have slots := below before b after split a member
  rw [Except.ok.inj point'] at slots
  exact UInt64.lt_irrefl _ slots

end Fixture

/-! ### Loading -/

namespace ChainStore

variable {s : ChainStore} {b : StoredBlock} {l : List StoredBlock}

theorem Sound.append_of_mem (sound : Sound s) (member : b ∈ s.blocks) :
    s.append b = .ok (.alreadyExists, s) := by
  cases s, sound using Sound.elim with
  | indexed c exact =>
    have here : c.hasPoint b.point = true := (exact.hasPoint b.point).mpr ⟨b, member, rfl⟩
    have kept : c.append b = .ok (.alreadyExists, c) := if_pos here
    rw [ChainStore.append, guard_of_no_faults rfl]
    dsimp only
    rw [kept]
    rfl
  | table t exact =>
    have kept : t.append b = .ok (.alreadyExists, t) := by
      rw [TableChain.append, exact.lookup_of_mem member]
      rfl
    rw [ChainStore.append, guard_of_no_faults rfl]
    dsimp only
    rw [kept]
    rfl

theorem Sound.appendAll_of_subset (sound : Sound s) (present : ∀ b ∈ l, b ∈ s.blocks) :
    s.appendAll l = (.ok (), s) := by
  induction l with
  | nil => rfl
  | cons b l ih =>
    rw [ChainStore.appendAll, sound.append_of_mem (present b List.mem_cons_self)]
    exact ih fun a member => present a (List.mem_cons_of_mem b member)

theorem Sound.append_of_ordered (sound : Sound s) (ordered : Blocks.Ordered (s.blocks ++ [b]))
    (slot : b.point.slot < 9223372036854775808) (number : b.blockNumber < 9223372036854775808) :
    ∃ s', s.append b = .ok (.appended, s') ∧ Sound s' ∧ s'.blocks = s.blocks ++ [b] := by
  have apart : ∀ a ∈ s.blocks, a.point.hash ≠ b.point.hash := fun a member =>
    (List.pairwise_append.mp ordered.distinct).2.2 a member b (List.mem_singleton_self b)
  have below : ∀ a ∈ s.blocks, a.point.slot < b.point.slot := fun a member =>
    (List.pairwise_append.mp ordered.rising).2.2 a member b (List.mem_singleton_self b)
  have hashed : b.point.hash.isSome := ordered.hashed b (by simp)
  have admissible : Blocks.Admissible s.blocks b :=
    ⟨hashed, slot, number, fun a member same => absurd same (apart a member)⟩
  have new : Blocks.append s.blocks b = .ok (.appended, s.blocks ++ [b]) := by
    have absent : ¬ Blocks.hasPoint s.blocks b.point = true := by
      rw [Blocks.hasPoint_iff]
      rintro ⟨a, member, same⟩
      exact apart a member (congrArg Point.hash same)
    rw [Blocks.append, if_neg absent]
    cases last : s.blocks.getLast? with
    | none => rfl
    | some a => exact if_pos (below a (List.mem_of_getLast? last))
  have same := sound.append_eq admissible
  rw [new] at same
  obtain ⟨⟨result, s'⟩, done, fields⟩ := Cbor.map_eq_ok.mp same
  obtain ⟨rfl, grown⟩ := Prod.mk.inj fields
  have fresh : ∀ a ∈ s.blocks, a.point.hash = b.point.hash → a.point = b.point :=
    fun a member same => absurd same (apart a member)
  exact ⟨s', done, (sound.append hashed fresh done).1, grown⟩

theorem Sound.appendAll_of_ordered (sound : Sound s) (ordered : Blocks.Ordered (s.blocks ++ l))
    (narrow : ∀ b ∈ l, b.point.slot < 9223372036854775808 ∧
      b.blockNumber < 9223372036854775808) :
    ∃ s', s.appendAll l = (.ok (), s') ∧ Sound s' ∧ s'.blocks = s.blocks ++ l := by
  induction l generalizing s with
  | nil => exact ⟨s, rfl, sound, (List.append_nil _).symm⟩
  | cons b l ih =>
    rw [List.append_cons] at ordered ⊢
    obtain ⟨slot, number⟩ := narrow b List.mem_cons_self
    obtain ⟨s₁, done, sound₁, grown⟩ := sound.append_of_ordered
      (ordered.sublist (List.sublist_append_left _ _)) slot number
    rw [← grown] at ordered ⊢
    rw [ChainStore.appendAll, done]
    exact ih sound₁ ordered fun a member => narrow a (List.mem_cons_of_mem b member)

end ChainStore

namespace Fixture

/-- Whatever a chain has been made of, its blocks are linked, a fork of it keeps the first of them
and grows into linked blocks again, and a store without blocks takes them in, once and for all. A
store without any has no tip, which stands for the origin's. No list is so long that its slots
would not fit a column. -/
theorem consistent {f : Fixture} (made : Made f)
    (small : 20 * f.blocks.length < 9223372036854775808) :
    Linked f.blocks ∧
    (∀ keep salt n, ∃ added, ((f.fork keep salt).extend n).blocks = f.blocks.take keep ++ added ∧
      added.length = n ∧
      (20 * (f.blocks.take keep ++ added).length < 9223372036854775808 →
        Linked (f.blocks.take keep ++ added))) ∧
    ((∀ a ∈ f.blocks, ∀ b ∈ f.blocks, a.hash = b.hash → a.header = b.header) →
      ∀ store, store = .inMemory ∨ store = .inTable →
        ∃ loaded tip, f.loadInto store = (.ok (), loaded) ∧ loaded.blocks = f.blocks ∧
          f.loadInto loaded = (.ok (), loaded) ∧ loaded.tip = .ok tip ∧
          tip.getD .origin = f.tip ∧ (tip = none ↔ f.blocks = [])) := by
  have built := made.built
  have size : UInt64.size = 18446744073709551616 := rfl
  refine ⟨built.linked (by omega), fun keep salt n => ?_, fun apart store empty => ?_⟩
  · obtain ⟨added, whole, length⟩ := blocks_extend (f.fork keep salt) n
    refine ⟨added, whole, length, fun short => ?_⟩
    have grown := (made.fork keep salt).extend n |>.built
    rw [whole] at grown
    exact grown.linked (Nat.lt_trans short (by decide))
  · have start : store.Sound ∧ store.blocks = [] := by
      rcases empty with rfl | rfl
      · exact ⟨ChainStore.sound_inMemory, rfl⟩
      · exact ⟨ChainStore.sound_inTable, rfl⟩
    obtain ⟨sound, none⟩ := start
    have linked := built.linked (by omega)
    have narrow : ∀ b ∈ f.blocks, b.point.slot < 9223372036854775808 ∧
        b.blockNumber < 9223372036854775808 := by
      intro b member
      obtain ⟨before, after, split⟩ := List.append_of_mem member
      have place := linked before b after split
      have within := congrArg List.length split
      rw [List.length_append, List.length_cons] at within
      have top : (9223372036854775808 : UInt64).toNat = 9223372036854775808 := rfl
      rw [UInt64.lt_iff_toNat_lt, UInt64.lt_iff_toNat_lt, top, place.slot, place.blockNumber]
      omega
    have ordered : Blocks.Ordered (store.blocks ++ f.blocks) := by
      rw [none]
      exact linked.ordered apart
    obtain ⟨loaded, done, kept, whole⟩ := sound.appendAll_of_ordered ordered narrow
    rw [none, List.nil_append] at whole
    refine ⟨loaded, Blocks.tip f.blocks, done, whole, ?_, ?_, rfl, ?_⟩
    · exact kept.appendAll_of_subset (by simp [whole])
    · rw [kept.tip_eq, whole]
    · simp [Blocks.tip]

/-- A fork after the first of two blocks, with one block of its own. -/
theorem consistent_forked :
    let f := (((withSalt 0).extend 2).fork 1 7).push
    Made f ∧ 20 * f.blocks.length < 9223372036854775808 ∧
      (∀ a ∈ f.blocks, ∀ b ∈ f.blocks, a.hash = b.hash → a.header = b.header) ∧
      Linked f.blocks ∧
      ∃ loaded, f.loadInto .inTable = (.ok (), loaded) ∧ f.loadInto loaded = (.ok (), loaded) ∧
        loaded.tip = .ok (some f.tip) := by
  intro f
  have made : Made f := ((Made.withSalt 0).extend 2).fork 1 7 |>.push
  have small : 20 * f.blocks.length < 9223372036854775808 := by decide
  have apart : ∀ a ∈ f.blocks, ∀ b ∈ f.blocks, a.hash = b.hash → a.header = b.header := by
    decide +kernel
  obtain ⟨linked, -, loads⟩ := consistent made small
  obtain ⟨loaded, tip, done, -, again, top, same, empty⟩ := loads apart .inTable (.inr rfl)
  refine ⟨made, small, apart, linked, loaded, done, again, ?_⟩
  cases tip with
  | none => cases empty.mp rfl
  | some t => rw [top, ← same]; rfl

end Fixture
end ChainRelay
