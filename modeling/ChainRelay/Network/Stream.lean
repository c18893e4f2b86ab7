import ChainRelay.Bytes

/-! Byte streams with two ends. What one end writes the other reads; an end that has
been closed gives and takes nothing more, but what it wrote can still be read. -/
namespace ChainRelay

structure Duplex where
  toFirst : Bytes
  toSecond : Bytes
  firstOpen : Bool
  secondOpen : Bool
  deriving Repr

structure StreamEnd where
  stream : Nat
  isFirst : Bool
  deriving DecidableEq, Repr

def StreamEnd.other (e : StreamEnd) : StreamEnd := { e with isFirst := !e.isFirst }

namespace Duplex

def new : Duplex := ⟨[], [], true, true⟩

instance : Inhabited Duplex := ⟨new⟩

def isOpen (isFirst : Bool) (d : Duplex) : Bool := if isFirst then d.firstOpen else d.secondOpen

def waiting (isFirst : Bool) (d : Duplex) : Bytes := if isFirst then d.toFirst else d.toSecond

/-- Write at an end, unless either end is closed. -/
def write (isFirst : Bool) (b : Bytes) (d : Duplex) : Option Duplex :=
  if !(d.firstOpen && d.secondOpen) then none
  else if isFirst then some { d with toSecond := d.toSecond ++ b }
  else some { d with toFirst := d.toFirst ++ b }

def drain (isFirst : Bool) (d : Duplex) : Duplex :=
  if isFirst then { d with toFirst := [] } else { d with toSecond := [] }

def close (isFirst : Bool) (d : Duplex) : Duplex :=
  if isFirst then { d with firstOpen := false } else { d with secondOpen := false }

end Duplex

structure Streams where
  all : List Duplex
  deriving Repr

namespace Streams

def empty : Streams := ⟨[]⟩

def add (s : Streams) : StreamEnd × Streams := (⟨s.all.length, true⟩, ⟨s.all ++ [.new]⟩)

def get (s : Streams) (e : StreamEnd) : Duplex := (s.all[e.stream]?).getD .new

def isOpen (s : Streams) (e : StreamEnd) : Bool := (s.get e).isOpen e.isFirst

def waiting (s : Streams) (e : StreamEnd) : Bytes := (s.get e).waiting e.isFirst

def isAtEnd (s : Streams) (e : StreamEnd) : Bool := (s.waiting e).isEmpty && !s.isOpen e.other

def write (s : Streams) (e : StreamEnd) (b : Bytes) : Option Streams :=
  ((s.get e).write e.isFirst b).map fun d => ⟨s.all.set e.stream d⟩

def read (s : Streams) (e : StreamEnd) : Bytes × Streams :=
  (s.waiting e, ⟨s.all.modify e.stream (·.drain e.isFirst)⟩)

def close (s : Streams) (e : StreamEnd) : Streams := ⟨s.all.modify e.stream (·.close e.isFirst)⟩

end Streams
end ChainRelay
