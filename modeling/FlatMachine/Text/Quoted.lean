import FlatMachine.Text.Printable

/-! # Quoted text

How a string is shown inside a message.  It stands between single quotes, or between double
quotes if it holds a single quote and no double quote.  Inside, a backslash and the delimiter
take a backslash, the three common layout characters have short escapes, every other character
that is not printable is written by its code point in lower-case hexadecimal (two, four or eight
digits, the fewest that hold it), and all else is written as it is. -/

namespace FlatMachine.Text

/-- The lowest `width` hexadecimal digits of a number, most significant first. -/
def hexDigits : Nat → Nat → List Char
  | 0, _ => []
  | width + 1, n => hexDigits width (n / 16) ++ [Nat.digitChar (n % 16)]

/-- One character inside quotes made of `delimiter`. -/
def quoteChar (delimiter c : Char) : List Char :=
  if c = '\\' then ['\\', '\\']
  else if c = delimiter then ['\\', c]
  else if c = '\n' then ['\\', 'n']
  else if c = '\r' then ['\\', 'r']
  else if c = '\t' then ['\\', 't']
  else if isPrintable c then [c]
  else if c.toNat < 0x100 then '\\' :: 'x' :: hexDigits 2 c.toNat
  else if c.toNat < 0x10000 then '\\' :: 'u' :: hexDigits 4 c.toNat
  else '\\' :: 'U' :: hexDigits 8 c.toNat

/-- Double quotes exactly for text with a single quote and no double quote. -/
def delimiterFor (cs : List Char) : Char :=
  if cs.contains '\'' && !cs.contains '"' then '"' else '\''

/-- Quoted text. -/
def quote (s : String) : String :=
  let delimiter := delimiterFor s.toList
  String.ofList (delimiter :: s.toList.flatMap (quoteChar delimiter) ++ [delimiter])

end FlatMachine.Text
