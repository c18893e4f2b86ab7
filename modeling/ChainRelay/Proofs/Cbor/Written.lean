import ChainRelay.Cbor.Writer
import ChainRelay.Proofs.Cbor.Prefix
import ChainRelay.Proofs.Wire.Segment

/-! What the canonical form of an item is made of: the shortest head, which is read back
whatever follows it, and a content. The entries of a map are in the order of their written
keys. -/
namespace ChainRelay.Cbor

variable {α β : Type}

namespace Reader

theorem bind_of_done {r : Reader α} {f : α → Reader β} {b rest : Bytes} {v : α}
    (first : r b = .done v rest) : (r >>= f) b = f v rest := by
  change (r b).bind f = _
  rw [first]
  rfl

theorem take_append (part rest : Bytes) : take part.length (part ++ rest) = .done part rest :=
  Steady.take_eq_done.mpr ⟨by simp, by simp, by simp⟩

theorem bigEndian_ofNat_append {width n : Nat} (fits : n < 1 <<< (8 * width)) (rest : Bytes) :
    bigEndian width (Bytes.ofNat width n ++ rest) = .done n rest := by
  have taken := take_append (Bytes.ofNat width n) rest
  rw [Bytes.length_ofNat] at taken
  rw [bigEndian, bind_of_done taken, Bytes.toNat_ofNat_of_lt fits]
  rfl

theorem utf8_append (s : String) (rest : Bytes) :
    utf8 (Bytes.ofText s).length (Bytes.ofText s ++ rest) = .done s rest :=
  Steady.utf8_eq_done.mpr (take_append _ rest)

end Reader

namespace Head

def ofMajor (n : Nat) : Nat → Head
  | 0 => unsigned (UInt64.ofNat n)
  | 1 => negative (UInt64.ofNat n)
  | 2 => bytes (some n)
  | 3 => text (some n)
  | 4 => array (some n)
  | 5 => map (some n)
  | 6 => tag (UInt64.ofNat n)
  | _ => stop

theorem initial_fields : ∀ major < 7, ∀ info < 32,
    UInt8.ofNat (32 * major + info) &&& 31 = UInt8.ofNat info ∧
      (UInt8.ofNat (32 * major + info) >>> 5).toNat = major := by
  decide

theorem exists_argument {n : Nat} (fits : n < UInt64.size) :
    ∃ info < 32, ∃ tail, (∀ major, head major n = UInt8.ofNat (32 * major + info) :: tail) ∧
      ∀ rest, argument (UInt8.ofNat info) (tail ++ rest) = .done (some n) rest := by
  by_cases direct : n < 24
  · refine ⟨n, by omega, [], fun major => if_pos direct, fun rest => ?_⟩
    have below : UInt8.ofNat n < 24 := by
      rw [UInt8.lt_iff_toNat_lt, UInt8.toNat_ofNat_of_lt' (by simp [UInt8.size]; omega)]
      exact direct
    have same : (UInt8.ofNat n).toNat = n := UInt8.toNat_ofNat_of_lt' (by simp [UInt8.size]; omega)
    rw [argument, if_pos below, same]
    rfl
  · by_cases one : n < UInt8.size
    · refine ⟨24, by omega, Bytes.ofNat 1 n, fun major => ?_, fun rest => ?_⟩
      · simp only [head, if_neg direct, if_pos one]
      · exact Reader.bind_of_done (Reader.bigEndian_ofNat_append one rest)
    · by_cases two : n < UInt16.size
      · refine ⟨25, by omega, Bytes.ofNat 2 n, fun major => ?_, fun rest => ?_⟩
        · simp only [head, if_neg direct, if_neg one, if_pos two]
        · exact Reader.bind_of_done (Reader.bigEndian_ofNat_append two rest)
      · by_cases four : n < UInt32.size
        · refine ⟨26, by omega, Bytes.ofNat 4 n, fun major => ?_, fun rest => ?_⟩
          · simp only [head, if_neg direct, if_neg one, if_neg two, if_pos four]
          · exact Reader.bind_of_done (Reader.bigEndian_ofNat_append four rest)
        · refine ⟨27, by omega, Bytes.ofNat 8 n, fun major => ?_, fun rest => ?_⟩
          · simp only [head, if_neg direct, if_neg one, if_neg two, if_neg four]
          · exact Reader.bind_of_done (Reader.bigEndian_ofNat_append fits rest)

theorem definite_of_argument {info : UInt8} {b rest : Bytes} {n : Nat}
    (read : argument info b = .done (some n) rest) :
    definite info b = .done (UInt64.ofNat n) rest :=
  Reader.bind_of_done read

theorem read_head_append {major n : Nat} (known : major < 7) (fits : n < UInt64.size)
    (rest : Bytes) : read (head major n ++ rest) = .done (ofMajor n major) rest := by
  obtain ⟨info, small, tail, written, argued⟩ := exists_argument fits
  obtain ⟨low, high⟩ := initial_fields major known info small
  have first : Reader.byte (head major n ++ rest) =
      .done (UInt8.ofNat (32 * major + info)) (tail ++ rest) := by
    rw [written]
    rfl
  have second := argued rest
  have number := definite_of_argument second
  rw [read, Reader.bind_of_done first]
  simp only [low, high]
  match major, known with
  | 0, _ => exact Reader.bind_of_done number
  | 1, _ => exact Reader.bind_of_done number
  | 2, _ => exact Reader.bind_of_done second
  | 3, _ => exact Reader.bind_of_done second
  | 4, _ => exact Reader.bind_of_done second
  | 5, _ => exact Reader.bind_of_done second
  | 6, _ => exact Reader.bind_of_done number

end Head

namespace Value

mutual

/-- The entries of every map in the order of their written keys, those with equal
keys as given. -/
def sorted : Value → Value
  | array items => array (sortedAll items)
  | map entries =>
    map (((keyed entries).mergeSort fun x y => bytesLe x.1 y.1).map fun e => e.2)
  | tag number inner => tag number (sorted inner)
  | v => v

def sortedAll : List Value → List Value
  | [] => []
  | v :: vs => sorted v :: sortedAll vs

def keyed : List (Value × Value) → List (Bytes × Value × Value)
  | [] => []
  | (k, v) :: es => (write k, sorted k, sorted v) :: keyed es

end

theorem sortedAll_eq_map (vs : List Value) : sortedAll vs = vs.map sorted := by
  induction vs with
  | nil => rfl
  | cons v vs ih => rw [sortedAll, ih, List.map_cons]

theorem keyed_eq_map (es : List (Value × Value)) :
    keyed es = es.map fun e => (write e.1, sorted e.1, sorted e.2) := by
  induction es with
  | nil => rfl
  | cons e es ih => rw [keyed, ih, List.map_cons]

theorem writeItems_eq_flatMap (vs : List Value) : writeItems vs = vs.flatMap write := by
  induction vs with
  | nil => rfl
  | cons v vs ih => rw [writeItems, ih, List.flatMap_cons]

theorem writeEntries_eq_map (es : List (Value × Value)) :
    writeEntries es = es.map fun e => (write e.1, write e.2) := by
  induction es with
  | nil => rfl
  | cons e es ih => rw [writeEntries, ih, List.map_cons]

def inOrder (es : List (Value × Value)) : List (Value × Value) :=
  es.mergeSort fun x y => bytesLe (write x.1) (write y.1)

theorem mem_inOrder {es : List (Value × Value)} {e : Value × Value} :
    e ∈ inOrder es ↔ e ∈ es :=
  (List.mergeSort_perm es _).mem_iff

theorem length_inOrder (es : List (Value × Value)) : (inOrder es).length = es.length :=
  List.length_mergeSort es

theorem joinEntries_writeEntries (es : List (Value × Value)) :
    joinEntries (writeEntries es) = (inOrder es).flatMap fun e => write e.1 ++ write e.2 := by
  have same : (inOrder es).map (fun e => (write e.1, write e.2)) =
      (es.map fun e => (write e.1, write e.2)).mergeSort fun x y => bytesLe x.1 y.1 :=
    List.map_mergeSort fun _ _ _ _ => rfl
  rw [joinEntries, writeEntries_eq_map, ← same, List.flatMap_map]

theorem sorted_map (es : List (Value × Value)) :
    sorted (map es) = map ((inOrder es).map fun e => (sorted e.1, sorted e.2)) := by
  have same : (inOrder es).map (fun e => (write e.1, sorted e.1, sorted e.2)) =
      (es.map fun e => (write e.1, sorted e.1, sorted e.2)).mergeSort
        fun x y => bytesLe x.1 y.1 :=
    List.map_mergeSort fun _ _ _ _ => rfl
  rw [sorted, keyed_eq_map, ← same, List.map_map]
  rfl

def top : Value → Head
  | unsigned n => .unsigned n
  | negative n => .negative n
  | bytes b => .bytes (some b.length)
  | text s => .text (some (Bytes.ofText s).length)
  | array items => .array (some items.length)
  | map entries => .map (some entries.length)
  | tag number _ => .tag number
  | bool b => .simple (if b then 21 else 20)
  | null => .simple 22
  | float bits => .float bits

def content : Value → Bytes
  | bytes b => b
  | text s => Bytes.ofText s
  | array items => items.flatMap write
  | map entries => (inOrder entries).flatMap fun e => write e.1 ++ write e.2
  | tag _ inner => write inner
  | _ => []

def announced : Value → Nat
  | bytes b => b.length
  | text s => (Bytes.ofText s).length
  | array items => items.length
  | map entries => entries.length
  | _ => 0

theorem read_head_write {v : Value} (short : v.announced < UInt64.size) (rest : Bytes) :
    Head.read (write v ++ rest) = .done v.top (v.content ++ rest) := by
  cases v with
  | unsigned n =>
    have read : Head.read (head 0 n.toNat ++ rest) = _ :=
      Head.read_head_append (by decide) n.toNat_lt rest
    rw [Head.ofMajor, UInt64.ofNat_toNat] at read
    exact read
  | negative n =>
    have read : Head.read (head 1 n.toNat ++ rest) = _ :=
      Head.read_head_append (by decide) n.toNat_lt rest
    rw [Head.ofMajor, UInt64.ofNat_toNat] at read
    exact read
  | bytes b =>
    have fits : b.length < UInt64.size := short
    rw [write, List.append_assoc, Head.read_head_append (by decide) fits]
    rfl
  | text s =>
    have fits : (Bytes.ofText s).length < UInt64.size := short
    rw [write, List.append_assoc, Head.read_head_append (by decide) fits]
    rfl
  | array items =>
    have fits : items.length < UInt64.size := short
    rw [write, List.append_assoc, Head.read_head_append (by decide) fits, writeItems_eq_flatMap]
    rfl
  | map entries =>
    have fits : entries.length < UInt64.size := short
    rw [write, List.append_assoc, Head.read_head_append (by decide) fits,
      joinEntries_writeEntries]
    rfl
  | tag number inner =>
    rw [write, List.append_assoc, Head.read_head_append (by decide) number.toNat_lt,
      Head.ofMajor, UInt64.ofNat_toNat]
    rfl
  | bool b => cases b <;> rfl
  | null => rfl
  | float bits =>
    have digits : Reader.bigEndian 8 (Bytes.ofNat 8 bits.toNat ++ rest) = .done bits.toNat rest :=
      Reader.bigEndian_ofNat_append bits.toNat_lt rest
    have read : (Reader.bigEndian 8 >>= fun n => Pure.pure (Head.float (UInt64.ofNat n)))
        (Bytes.ofNat 8 bits.toNat ++ rest) = .done (.float bits) rest := by
      rw [Reader.bind_of_done digits, UInt64.ofNat_toNat]
      rfl
    exact read

end Value
end ChainRelay.Cbor
