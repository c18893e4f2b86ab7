import ChainRelay.Bytes

/-! Cutting a byte string at arbitrary marks, to feed it to a reader in pieces. -/
namespace ChainRelay.Fragment

/-- Cut before each mark that lies beyond the last cut. Marks are counted from the
front of the whole string, of which `start` bytes are already gone. -/
def cutAt : Nat → List Nat → Bytes → List Bytes
  | _, [], b => [b]
  | start, mark :: marks, b =>
    if start < mark then b.take (mark - start) :: cutAt mark marks (b.drop (mark - start))
    else cutAt start marks b

/-- Cut at each mark taken modulo the length. The pieces are never empty. -/
def fragment (b : Bytes) (marks : List Nat) : List Bytes :=
  if b.isEmpty then []
  else cutAt 0 ((marks.map (· % b.length)).mergeSort (fun x y => decide (x ≤ y))) b

end ChainRelay.Fragment
