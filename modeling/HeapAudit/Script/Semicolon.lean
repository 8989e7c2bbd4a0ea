import HeapAudit.Script.Place

namespace HeapAudit.Script
open Text

/-- The blanks that may stand around a line break. -/
def isSpace (c : Char) : Bool :=
  let n := c.toNat
  (9 ≤ n && n ≤ 13) || n == 0x20 || n == 0x1680 || (0x2000 ≤ n && n ≤ 0x2006) ||
    (0x2008 ≤ n && n ≤ 0x200A) || n == 0x2028 || n == 0x2029 || n == 0x205F || n == 0x3000

def isLetter (c : Char) : Bool := c.isAlpha || 0x80 ≤ c.toNat

def startsWithLetter : Chars → Bool
  | c :: _ => isLetter c
  | [] => false

/-- The text after a line break begins a statement of its own. -/
def beginsStatement : Chars → Bool
  | [] => true
  | '.' :: cs => match cs with
    | c :: _ => c.isDigit
    | [] => false
  | '+' :: cs => cs.head? == some '+'
  | '-' :: cs => cs.head? == some '-'
  | '!' :: cs => cs.head? != some '='
  | 'i' :: 'n' :: cs =>
    if !startsWithLetter cs then false
    else if "stanceof".toList.isPrefixOf cs then startsWithLetter (cs.drop 8)
    else true
  | c :: _ => !"`,:;*%><=[(?^|&/".toList.contains c

/-- The same, past the blanks and comments after a line break. -/
def beginsAfter (t : Trivia) : Chars → Bool
  | [] => true
  | c :: cs => match t with
    | .plain =>
      if isSpace c then beginsAfter .plain cs
      else match c, cs with
        | '/', '/' :: rest => beginsAfter .line rest
        | '/', '*' :: rest => beginsAfter (.block false) rest
        | _, _ => beginsStatement (c :: cs)
    | .line => beginsAfter (if isSeparator c then .plain else .line) cs
    | .block star =>
      if c == '/' && star then beginsAfter .plain cs else beginsAfter (.block (c == '*')) cs

/-- How the end of a statement is looked for: between the tokens of its last line, or inside
comments there. -/
inductive Search where
  | open
  | between
  | line
  | block (star : Bool)

/-- What follows a comment ends the statement only where no operator could follow, and before a
closing brace. -/
def endsAfterComment (operators : Bool) (c : Char) : Bool :=
  (!operators && c != ',' && c != '=') || c == '}'

/-- Whether a statement ends here, where `operators` tells that an operator could go on. -/
def endsFrom (operators : Bool) (s : Search) (broken : Bool) : Chars → Bool
  | [] => match s with
    | .open => true
    | _ => !operators
  | c :: cs => match s with
    | .open =>
      if c == '}' then true
      else if isSeparator c then beginsAfter .plain cs
      else if isSpace c then endsFrom operators .open broken cs
      else match c, cs with
        | '/', '/' :: rest => endsFrom operators .line broken rest
        | '/', '*' :: rest => endsFrom operators (.block false) broken rest
        | _, _ => false
    | .between =>
      if isSpace c then endsFrom operators .between broken cs
      else match c, cs with
        | '/', '/' :: rest => endsFrom operators .line broken rest
        | '/', '*' :: rest => endsFrom operators (.block false) broken rest
        | '/', _ => false
        | _, _ => endsAfterComment operators c
    | .line => endsFrom operators (if isSeparator c then .between else .line) broken cs
    | .block star =>
      if c == '/' && star then
        match cs.head? with
        | some d =>
          if d == '/' then endsFrom operators .between broken cs
          else if broken && !operators && d != ',' && d != '=' then true
          else endsFrom operators .open broken cs
        | none => broken && !operators
      else endsFrom operators (.block (c == '*')) (broken || isSeparator c) cs

/-- A statement ends here, or after one of the comments that follow. -/
def endsStatement (operators : Bool) (cs : Chars) : Bool :=
  (cs :: afterComments .plain cs).any (endsFrom operators .open false)

end HeapAudit.Script
