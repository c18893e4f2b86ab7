import ChainRelay.Proofs.Chain.Script
import Mathlib.Data.List.Nodup

/-! Changes to a chain in memory, one after the other. Whatever it is given, each entry of
its index leads to a block with that hash. The index leads to every block for as long as
no block is taken in under the hash of another one on the chain, and then rolling back
gives back the chain that was there, with its index. -/
namespace ChainRelay

inductive ChainEdit where
  | append (block : StoredBlock)
  | rollback (p : Point)

def ChainEdit.Hashed : ChainEdit → Prop
  | append b => b.point.hash.isSome
  | rollback _ => True

instance : (e : ChainEdit) → Decidable e.Hashed
  | .append b => inferInstanceAs (Decidable (b.point.hash.isSome = true))
  | .rollback _ => .isTrue trivial

namespace IndexedChain
open Blocks (Ordered)

def edit (c : IndexedChain) : ChainEdit → IndexedChain
  | .append b =>
    match c.append b with
    | .ok (_, changed) => changed
    | .error _ => c
  | .rollback p =>
    match c.rollback p with
    | .ok (_, changed) => changed
    | .error _ => c

def after (c : IndexedChain) (edits : List ChainEdit) : IndexedChain := edits.foldl edit c

def takes (c : IndexedChain) (b : StoredBlock) : Bool :=
  match c.append b with
  | .ok (.appended, _) => true
  | _ => false

/-- A block that is taken in has the hash of no block on the chain. -/
def Fresh (c : IndexedChain) : ChainEdit → Prop
  | .append b => c.takes b = true → ∀ a ∈ c.blocks, a.point.hash ≠ b.point.hash
  | .rollback _ => True

def AllFresh : IndexedChain → List ChainEdit → Prop
  | _, [] => True
  | c, e :: edits => c.Fresh e ∧ AllFresh (c.edit e) edits

def Throughout (P : IndexedChain → Prop) : IndexedChain → List ChainEdit → Prop
  | c, [] => P c
  | c, e :: edits => P c ∧ Throughout P (c.edit e) edits

def Finds (c : IndexedChain) : Prop := ∀ b ∈ c.blocks, c.hasPoint b.point = true

instance (c : IndexedChain) : (e : ChainEdit) → Decidable (c.Fresh e)
  | .append b => inferInstanceAs
      (Decidable (c.takes b = true → ∀ a ∈ c.blocks, a.point.hash ≠ b.point.hash))
  | .rollback _ => .isTrue trivial

instance decidableAllFresh : (c : IndexedChain) → (edits : List ChainEdit) →
    Decidable (AllFresh c edits)
  | _, [] => .isTrue trivial
  | c, e :: edits =>
    have := decidableAllFresh (c.edit e) edits
    inferInstanceAs (Decidable (c.Fresh e ∧ AllFresh (c.edit e) edits))

variable {c : IndexedChain}

theorem Throughout.now {P : IndexedChain → Prop} {edits : List ChainEdit}
    (always : Throughout P c edits) : P c := by
  cases edits with
  | nil => exact always
  | cons e edits => exact always.1

theorem edit_of_takes {b : StoredBlock} (taken : c.takes b = true) :
    c.edit (.append b) = c.push b ∧ ∀ a ∈ c.blocks.getLast?, a.point.slot < b.point.slot := by
  rw [takes] at taken
  split at taken
  · rename_i changed done
    rcases append_eq_ok done with ⟨⟨⟩, -⟩ | ⟨-, rfl, -, last⟩
    exact ⟨by rw [edit, done], last⟩
  · cases taken

theorem edit_of_not_takes {b : StoredBlock} (refused : c.takes b = false) :
    c.edit (.append b) = c := by
  rw [edit]
  split
  · rename_i result changed done
    rcases append_eq_ok done with ⟨-, same, -⟩ | ⟨rfl, -⟩
    · exact same
    · rw [takes, done] at refused
      cases refused
  · rfl

theorem edit_rollback (c : IndexedChain) (p : Point) :
    c.edit (.rollback p) = c ∨ ∃ keep, c.edit (.rollback p) = (c.truncate keep).2 := by
  rw [edit]
  split
  · rename_i n changed done
    obtain ⟨keep, cut⟩ := rollback_eq_ok done
    exact .inr ⟨keep, by rw [cut]⟩
  · exact .inl rfl

theorem edit_cases (c : IndexedChain) (e : ChainEdit) :
    c.edit e = c ∨
      (∃ b, e = .append b ∧ c.takes b = true ∧ c.edit e = c.push b ∧
        ∀ a ∈ c.blocks.getLast?, a.point.slot < b.point.slot) ∨
      ∃ keep, c.edit e = (c.truncate keep).2 := by
  cases e with
  | append b =>
    cases taken : c.takes b with
    | false => exact .inl (edit_of_not_takes taken)
    | true =>
      obtain ⟨same, last⟩ := edit_of_takes taken
      exact .inr (.inl ⟨b, rfl, taken, same, last⟩)
  | rollback p => exact (edit_rollback c p).imp_right .inr

/-! ### Whatever is given -/

/-- Slots rise, no hash is filed twice, and each entry leads to a block with its hash. -/
structure Filed (c : IndexedChain) : Prop where
  rising : c.blocks.Pairwise fun a b => a.point.slot < b.point.slot
  keys : (c.index.map (·.1)).Nodup
  leads : ∀ e ∈ c.index, ∃ b, c.blocks[e.2]? = some b ∧ b.point.hash = some e.1

theorem filed_empty : Filed empty := ⟨.nil, .nil, by simp [empty]⟩

theorem Filed.push (filed : Filed c) {b : StoredBlock} (hash : b.point.hash.isSome)
    (last : ∀ a ∈ c.blocks.getLast?, a.point.slot < b.point.slot) : Filed (c.push b) where
  rising := Blocks.rising_concat filed.rising last
  keys := by
    refine List.nodup_cons.mpr ⟨fun member => ?_, ?_⟩
    · obtain ⟨e, kept, same⟩ := List.mem_map.mp member
      exact of_decide_eq_true (List.mem_filter.mp kept).2 same
    · exact filed.keys.sublist (List.filter_sublist.map _)
  leads e member := by
    rcases List.mem_cons.mp member with rfl | older
    · exact ⟨b, by simp [IndexedChain.push], StoredBlock.point_hash hash⟩
    · obtain ⟨a, here, same⟩ := filed.leads e (List.mem_filter.mp older).1
      have within := (List.getElem?_eq_some_iff.mp here).1
      exact ⟨a, (List.getElem?_append_left within).trans here, same⟩

theorem foldl_unfile (removed : List StoredBlock) (index : List (BlockHash × Nat)) :
    removed.foldl (fun index b => unfile index b.hash) index =
      index.filter (·.1 ∉ removed.map (·.hash)) := by
  induction removed generalizing index with
  | nil => simp
  | cons b removed ih =>
    rw [List.foldl_cons, ih, unfile, List.filter_filter]
    congr 1
    funext e
    simp [Bool.and_comm]

theorem Filed.truncate (filed : Filed c) (keep : Nat) : Filed (c.truncate keep).2 where
  rising := filed.rising.sublist (List.take_sublist keep c.blocks)
  keys := by
    rw [IndexedChain.truncate, foldl_unfile]
    exact filed.keys.sublist (List.filter_sublist.map _)
  leads e member := by
    rw [IndexedChain.truncate, foldl_unfile] at member
    obtain ⟨there, kept⟩ := List.mem_filter.mp member
    obtain ⟨b, here, same⟩ := filed.leads e there
    refine ⟨b, ?_, same⟩
    have early : e.2 < keep := by
      by_contra late
      have dropped := Blocks.mem_drop (Nat.le_of_not_lt late) here
      exact of_decide_eq_true kept (List.mem_map.mpr ⟨b, dropped, StoredBlock.hash_eq same⟩)
    exact (List.getElem?_take_of_lt early).trans here

theorem Filed.edit (filed : Filed c) {e : ChainEdit} (hashed : e.Hashed) :
    Filed (c.edit e) := by
  rcases edit_cases c e with same | ⟨b, rfl, -, same, last⟩ | ⟨keep, same⟩
  · rwa [same]
  · rw [same]
    exact filed.push hashed last
  · rw [same]
    exact filed.truncate keep

theorem Filed.after (filed : Filed c) {edits : List ChainEdit} (hashed : ∀ e ∈ edits, e.Hashed) :
    Filed (c.after edits) := by
  induction edits generalizing c with
  | nil => exact filed
  | cons e edits ih =>
    obtain ⟨own, others⟩ := List.forall_mem_cons.mp hashed
    exact ih (filed.edit own) others

/-! ### As long as no hash is shared -/

theorem Exact.edit (exact : Exact c) {e : ChainEdit} (hashed : e.Hashed) (fresh : c.Fresh e) :
    Exact (c.edit e) := by
  rcases edit_cases c e with same | ⟨b, rfl, taken, same, last⟩ | ⟨keep, same⟩
  · rwa [same]
  · rw [same]
    exact exact.push hashed last (fresh taken)
  · rw [same]
    exact exact.truncate keep

theorem Exact.finds (exact : Exact c) : Finds c := fun b member =>
  (exact.hasPoint b.point).mpr ⟨b, member, rfl⟩

theorem hasPoint_push_of_shared {a b : StoredBlock} (shared : a.point.hash = some b.hash)
    (below : a.point.slot < b.point.slot) : (c.push b).hasPoint a.point = false := by
  have moved : (c.push b).find? b.hash = some c.blocks.length := by
    simp [IndexedChain.find?, IndexedChain.push]
  have there : (c.push b).blocks[c.blocks.length]? = some b := by simp [IndexedChain.push]
  have apart : b.point.slot ≠ a.point.slot := (UInt64.ne_of_lt below).symm
  rw [IndexedChain.hasPoint, IndexedChain.position, shared]
  simp [moved, there, apart]

theorem Exact.fresh_of_finds (exact : Exact c) {e : ChainEdit} (hashed : e.Hashed)
    (finds : Finds (c.edit e)) : c.Fresh e := by
  cases e with
  | rollback p => trivial
  | append b =>
    intro taken a member shared
    obtain ⟨same, last⟩ := edit_of_takes taken
    have below := Blocks.lt_of_mem exact.ordered.rising last a member
    have lost := hasPoint_push_of_shared (c := c)
      (shared.trans (StoredBlock.point_hash hashed)) below
    rw [same] at finds
    rw [finds a (List.mem_append_left [b] member)] at lost
    cases lost

theorem Exact.after (exact : Exact c) {edits : List ChainEdit} (hashed : ∀ e ∈ edits, e.Hashed)
    (fresh : AllFresh c edits) : Exact (c.after edits) := by
  induction edits generalizing c with
  | nil => exact exact
  | cons e edits ih =>
    obtain ⟨own, others⟩ := List.forall_mem_cons.mp hashed
    exact ih (exact.edit own fresh.1) others fresh.2

/-- The blocks can all be found, at every moment, just when no hash is ever shared. -/
theorem Exact.allFresh_iff (exact : Exact c) {edits : List ChainEdit}
    (hashed : ∀ e ∈ edits, e.Hashed) : AllFresh c edits ↔ Throughout Finds c edits := by
  induction edits generalizing c with
  | nil => exact ⟨fun _ => exact.finds, fun _ => trivial⟩
  | cons e edits ih =>
    obtain ⟨own, others⟩ := List.forall_mem_cons.mp hashed
    constructor
    · rintro ⟨fresh, later⟩
      exact ⟨exact.finds, (ih (exact.edit own fresh) others).mp later⟩
    · rintro ⟨_, later⟩
      have fresh := exact.fresh_of_finds own later.now
      exact ⟨fresh, (ih (exact.edit own fresh) others).mpr later⟩

theorem Exact.length_index (exact : Exact c) (filed : Filed c) :
    c.index.length = c.blocks.length := by
  have hashes : (c.blocks.map (·.hash)).Nodup := by
    refine List.pairwise_map.mpr (exact.ordered.distinct.imp_of_mem fun early late apart same => ?_)
    rw [exact.ordered.hash_point early, exact.ordered.hash_point late, same] at apart
    exact apart rfl
  have same : (c.index.map (·.1)).Perm (c.blocks.map (·.hash)) := by
    refine (List.perm_ext_iff_of_nodup filed.keys hashes).mpr fun key => ?_
    constructor
    · intro member
      obtain ⟨e, there, rfl⟩ := List.mem_map.mp member
      obtain ⟨b, here, same⟩ := filed.leads e there
      exact List.mem_map.mpr ⟨b, List.mem_of_getElem? here, StoredBlock.hash_eq same⟩
    · intro member
      obtain ⟨b, there, rfl⟩ := List.mem_map.mp member
      obtain ⟨place, here⟩ := List.mem_iff_getElem?.mp there
      have found := (exact.find? b.hash place).mpr ⟨b, here, exact.ordered.hash_point there⟩
      obtain ⟨e, filed, same⟩ :=
        List.lookup_isSome_iff.mp (Option.isSome_iff_exists.mpr ⟨place, found⟩)
      exact List.mem_map.mpr ⟨e, filed, (eq_of_beq same).symm⟩
  simpa using same.length_eq

/-! ### Back to where it was -/

theorem foldl_unfile_cons (b : StoredBlock) (removed : List StoredBlock)
    (index : List (BlockHash × Nat)) :
    (b :: removed).foldl (fun index b => unfile index b.hash) index =
      unfile (removed.foldl (fun index b => unfile index b.hash) index) b.hash := by
  rw [foldl_unfile, foldl_unfile, unfile, List.filter_filter]
  congr 1
  funext e
  simp

theorem Filed.unfile_push (filed : Filed c) {b : StoredBlock}
    (fresh : ∀ a ∈ c.blocks, a.point.hash ≠ b.point.hash) (hash : b.point.hash.isSome) :
    unfile (c.push b).index b.hash = c.index := by
  have absent : ∀ e ∈ c.index, e.1 ≠ b.hash := by
    intro e there shared
    obtain ⟨a, here, filed⟩ := filed.leads e there
    exact fresh a (List.mem_of_getElem? here) (by rw [filed, shared, StoredBlock.point_hash hash])
  have kept : unfile c.index b.hash = c.index :=
    List.filter_eq_self.mpr fun e there => decide_eq_true (absent e there)
  rw [IndexedChain.push, kept]
  refine (List.filter_cons_of_neg ?_).trans kept
  simp

theorem Filed.after_appends (filed : Filed c) {more : List StoredBlock}
    (hashed : ∀ b ∈ more, b.point.hash.isSome) (fresh : AllFresh c (more.map .append)) :
    ∃ added, (c.after (more.map .append)).blocks = c.blocks ++ added ∧
      added.foldl (fun index b => unfile index b.hash) (c.after (more.map .append)).index =
        c.index := by
  induction more generalizing c with
  | nil => exact ⟨[], (List.append_nil _).symm, rfl⟩
  | cons b more ih =>
    obtain ⟨own, others⟩ := List.forall_mem_cons.mp hashed
    have kept : Filed (c.edit (.append b)) := filed.edit own
    obtain ⟨added, grown, restored⟩ := ih kept others fresh.2
    change (c.after ((b :: more).map .append)).blocks = _ at grown
    change added.foldl _ (c.after ((b :: more).map .append)).index = _ at restored
    cases taken : c.takes b with
    | false =>
      rw [edit_of_not_takes taken] at grown restored
      exact ⟨added, grown, restored⟩
    | true =>
      rw [(edit_of_takes taken).1] at grown restored
      refine ⟨b :: added, ?_, ?_⟩
      · rw [grown, IndexedChain.push, List.append_assoc, List.singleton_append]
      · rw [foldl_unfile_cons, restored]
        exact filed.unfile_push (fresh.1 taken) own

theorem Exact.rollback_after_appends (exact : Exact c) (filed : Filed c) {more : List StoredBlock}
    (hashed : ∀ b ∈ more, b.point.hash.isSome) (fresh : AllFresh c (more.map .append)) :
    (c.after (more.map .append)).rollback (Blocks.reach c.blocks) =
      .ok ((c.after (more.map .append)).blocks.length - c.blocks.length, c) := by
  obtain ⟨added, grown, restored⟩ := filed.after_appends hashed fresh
  have later := exact.after (List.forall_mem_map.mpr hashed) fresh
  generalize c.after (more.map .append) = now at *
  have back : now.truncate c.blocks.length = (now.blocks.length - c.blocks.length, c) := by
    rw [IndexedChain.truncate, grown, List.drop_left, List.take_left, restored, List.length_append,
      Nat.add_sub_cancel_left]
  rw [← back]
  rcases c.blocks.eq_nil_or_concat with none | ⟨init, last, same⟩
  · rw [none]
    rfl
  · rw [List.concat_eq_append] at same
    have here : now.position last.point = some init.length :=
      later.position.mpr ⟨last, by simp [grown, same], rfl⟩
    have apart : last.point.isOrigin = false := by
      rw [Bool.eq_false_iff, ne_eq, Point.isOrigin_iff]
      exact exact.ordered.ne_origin (by simp [same])
    rw [same, Blocks.reach_concat, IndexedChain.rollback, apart, here]
    simp

/-! ### The whole upkeep -/

/-- Of whatever blocks with hashes are given to a chain that was empty, the index leads to
blocks that are there. It finds all of them at all times just when no block is ever taken in
under the hash of one that is there. Then it has one entry for each block, each block is
found by its hash and has its successor, a walk meets all of them, and blocks appended on
top of the tip are rolled back without a trace. -/
theorem upkeep {edits : List ChainEdit} (hashed : ∀ e ∈ edits, e.Hashed) :
    let c := empty.after edits
    ((c.index.map (·.1)).Nodup ∧
        ∀ e ∈ c.index, ∃ b, c.blocks[e.2]? = some b ∧ b.point.hash = some e.1) ∧
      (AllFresh empty edits ↔ Throughout Finds empty edits) ∧
      (AllFresh empty edits →
        c.index.length = c.blocks.length ∧
        (∀ place b, c.blocks[place]? = some b →
          c.find? b.hash = some place ∧ c.block? b.hash = some b ∧ c.hasPoint b.point = true ∧
            c.nextAfter b.point = c.blocks[place + 1]?.map (·.point)) ∧
        c.nextAfter .origin = c.blocks.head?.map (·.point) ∧
        (∀ limit, ChainStore.walk ⟨.indexed c, []⟩ limit =
          .ok ((c.blocks.map (·.point)).take limit)) ∧
        ∀ more : List StoredBlock, (∀ b ∈ more, b.point.hash.isSome) →
          AllFresh c (more.map .append) →
            (c.after (more.map .append)).rollback (Blocks.reach c.blocks) =
              .ok ((c.after (more.map .append)).blocks.length - c.blocks.length, c)) := by
  intro c
  have filed : Filed c := filed_empty.after hashed
  refine ⟨⟨filed.keys, filed.leads⟩, exact_empty.allFresh_iff hashed, fun fresh => ?_⟩
  have exact : Exact c := exact_empty.after hashed fresh
  have sound : ChainStore.Sound ⟨.indexed c, []⟩ := ⟨rfl, exact⟩
  refine ⟨exact.length_index filed, ?_, exact.nextAfter (List.nil_append _).symm, sound.walk_eq,
    fun more hashed fresh => exact.rollback_after_appends filed hashed fresh⟩
  intro place b here
  have member := List.mem_of_getElem? here
  refine ⟨(exact.find? b.hash place).mpr ⟨b, here, exact.ordered.hash_point member⟩,
    exact.find?_hash member, exact.finds b member, ?_⟩
  have next := exact.nextAfter (List.take_append_drop (place + 1) c.blocks).symm
  rwa [Blocks.reach_take here, List.head?_drop] at next

open ChainStore (firstBlock otherBlock) in
/-- A hash may come back at another slot once its block is gone. -/
theorem upkeep_returned :
    let edits : List ChainEdit := [.append firstBlock, .append (otherBlock 5),
      .append (otherBlock 5), .rollback (otherBlock 9).point, .rollback firstBlock.point,
      .append (otherBlock 9)]
    (∀ e ∈ edits, e.Hashed) ∧ AllFresh empty edits ∧
      (empty.after edits).nextAfter firstBlock.point = some (otherBlock 9).point ∧
      (empty.after edits).find? (otherBlock 9).hash = some 1 := by
  intro edits
  have hashed : ∀ e ∈ edits, e.Hashed := by decide
  have fresh : AllFresh empty edits := by decide
  have found := ((upkeep hashed).2.2 fresh).2.1
  refine ⟨hashed, fresh, ?_, ?_⟩
  · exact (found 0 firstBlock (by decide)).2.2.2
  · exact (found 1 (otherBlock 9) (by decide)).1

end IndexedChain
end ChainRelay
