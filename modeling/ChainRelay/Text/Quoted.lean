import ChainRelay.Text.Printable

/-! Quoted text for messages. A backslash stands before the backslash, the quote in
use, and the letters that name common controls; any other character that is not
printable is written as its code point in braces. -/
namespace ChainRelay.Text

def hexDigits (n : Nat) : String := String.ofList (Nat.toDigits 16 n)

def escape (quote c : Char) : String :=
  if c = quote || c = '\\' then String.ofList ['\\', c]
  else if c = '\n' then "\\n"
  else if c = '\r' then "\\r"
  else if c = '\t' then "\\t"
  else if c = Char.ofNat 0 then "\\0"
  else if isPrintable c then c.toString
  else "\\u\x7b" ++ hexDigits c.toNat ++ "\x7d"

def quoteWith (quote : Char) (cs : List Char) : String :=
  quote.toString ++ String.join (cs.map (escape quote)) ++ quote.toString

def quote (s : String) : String := quoteWith '"' s.toList

def quoteChar (c : Char) : String := quoteWith '\'' [c]

end ChainRelay.Text
