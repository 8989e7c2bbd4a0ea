import HeapAudit.Text.Utf8

namespace HeapAudit.Script
open Text

/-- What is left to read, with the byte and the row where it starts. -/
structure Place where
  rest : Chars
  offset : Nat := 0
  row : Nat := 0

def Place.next (p : Place) (c : Char) (rest : Chars) : Place :=
  { rest, offset := p.offset + width c, row := if c = '\n' then p.row + 1 else p.row }

def Place.advance : Nat → Place → Place
  | 0, p => p
  | n + 1, p => match p.rest with
    | [] => p
    | c :: cs => advance n (p.next c cs)

/-- A blank of any width, or a mark without width. -/
def isGap (c : Char) : Bool :=
  let n := c.toNat
  (9 ≤ n && n ≤ 13) || n == 0x20 || n == 0x85 || n == 0xA0 || n == 0x1680 ||
    (0x2000 ≤ n && n ≤ 0x200B) || n == 0x2028 || n == 0x2029 || n == 0x202F || n == 0x205F ||
    n == 0x2060 || n == 0x3000 || n == 0xFEFF

def isSeparator (c : Char) : Bool := c == '\n' || c.toNat == 0x2028 || c.toNat == 0x2029

/-- Where a reader stands with respect to comments. -/
inductive Trivia where
  | plain
  | line
  /-- Inside a block, and whether a star was just read. -/
  | block (star : Bool)

/-- How many characters at the front are blanks and whole comments: `n` were read, and the first
`best` of them belong to such. -/
def gapFrom (t : Trivia) (n best : Nat) : Chars → Nat
  | [] => best
  | c :: cs => match t with
    | .plain =>
      if isGap c then gapFrom .plain (n + 1) (n + 1) cs
      else match c, cs with
        | '/', '/' :: rest => gapFrom .line (n + 2) (n + 2) rest
        | '/', '*' :: rest => gapFrom (.block false) (n + 2) best rest
        | _, _ => best
    | .line =>
      if isSeparator c || c == '\r' then gapFrom .plain (n + 1) (n + 1) cs
      else gapFrom .line (n + 1) (n + 1) cs
    | .block star =>
      if c == '/' && star then gapFrom .plain (n + 1) (n + 1) cs
      else gapFrom (.block (c == '*')) (n + 1) best cs

/-- The place of the next token. -/
def Place.skip (p : Place) : Place := p.advance (gapFrom .plain 0 0 p.rest)

/-- What is left after each of the comments at the front. -/
def afterComments (t : Trivia) : Chars → List Chars
  | [] => match t with
    | .line => [[]]
    | _ => []
  | c :: cs => match t with
    | .plain =>
      if isGap c then afterComments .plain cs
      else match c, cs with
        | '/', '/' :: rest => afterComments .line rest
        | '/', '*' :: rest => afterComments (.block false) rest
        | _, _ => []
    | .line =>
      if isSeparator c || c == '\r' then (c :: cs) :: afterComments .plain cs
      else afterComments .line cs
    | .block star =>
      if c == '/' && star then cs :: afterComments .plain cs
      else afterComments (.block (c == '*')) cs

end HeapAudit.Script
