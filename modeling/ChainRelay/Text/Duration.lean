/-! A span of time as text: in seconds from one second on, with the fraction that is
left and no trailing zeros, and in whole milliseconds below. -/
namespace ChainRelay.Text

def thousandths (ms : Nat) : String :=
  let digits := (toString (1000 + ms)).toList.drop 1
  String.ofList (digits.reverse.dropWhile (· = '0')).reverse

def duration (ms : Nat) : String :=
  if ms = 0 then "0ns"
  else if ms < 1000 then s!"{ms}ms"
  else if ms % 1000 = 0 then s!"{ms / 1000}s"
  else s!"{ms / 1000}.{thousandths (ms % 1000)}s"

end ChainRelay.Text
