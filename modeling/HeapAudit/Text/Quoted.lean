import HeapAudit.Text.Basic
import HeapAudit.Text.Printable

namespace HeapAudit.Text

def hexDigit (n : Nat) : Char := "0123456789abcdef".toList.getD (n % 16) '0'

/-- The last `width` hexadecimal digits of a number. -/
def hex : (width n : Nat) → Chars
  | 0, _ => []
  | width + 1, n => hex width (n / 16) ++ [hexDigit n]

/-- The quotes are single unless the text has a single quote and no double one. -/
def quoteMark (cs : Chars) : Char := if cs.contains '\'' && !cs.contains '"' then '"' else '\''

/-- The quote and the backslash are escaped, and so is every character that is not shown as it
is. -/
def escape (mark c : Char) : Chars :=
  if c = mark ∨ c = '\\' then ['\\', c]
  else if c = '\n' then ['\\', 'n']
  else if c = '\r' then ['\\', 'r']
  else if c = '\t' then ['\\', 't']
  else if isPrintable c then [c]
  else if c.toNat < 0x100 then '\\' :: 'x' :: hex 2 c.toNat
  else if c.toNat < 0x10000 then '\\' :: 'u' :: hex 4 c.toNat
  else '\\' :: 'U' :: hex 8 c.toNat

def quoteChars (cs : Chars) : Chars :=
  let mark := quoteMark cs
  mark :: cs.flatMap (escape mark) ++ [mark]

def quote (s : String) : String := String.ofList (quoteChars s.toList)

end HeapAudit.Text
