import HeapAudit.Text.Basic

namespace HeapAudit.Statement
open Text

/-- Where a scan for semicolons stands: the open quote, whether the next character is escaped, and
how many brackets are open. -/
structure Place where
  quote : Option Char := none
  escaped : Bool := false
  depth : Nat := 0
  deriving DecidableEq, Repr

def Place.next (p : Place) (c : Char) : Place :=
  match p.quote with
  | some q =>
    if p.escaped then { p with escaped := false }
    else if c = '\\' then { p with escaped := true }
    else if c = q then { p with quote := none }
    else p
  | none =>
    if c = '"' ∨ c = '\'' then { p with quote := some c }
    else if c = '(' ∨ c = '[' then { p with depth := p.depth + 1 }
    else if c = ')' ∨ c = ']' then { p with depth := p.depth - 1 }
    else p

/-- A semicolon here ends the segment. -/
def Place.atTop (p : Place) : Bool := p.quote.isNone && p.depth == 0

structure Splitting where
  place : Place := {}
  current : Chars := []
  done : List Chars := []

def Splitting.push (s : Splitting) (c : Char) : Splitting :=
  if c = ';' ∧ s.place.atTop then { s with current := [], done := s.current.reverse :: s.done }
  else { s with place := s.place.next c, current := c :: s.current }

/-- The pieces between the semicolons, blanks and empty pieces included. -/
def pieces (cs : Chars) : List Chars :=
  let s := cs.foldl Splitting.push {}
  (s.current.reverse :: s.done).reverse

/-- The parts of a statement between the semicolons outside brackets and quotes. -/
def segments (cs : Chars) : List Chars := ((pieces cs).map trim).filter (· ≠ [])

/-- The longest start of a text in which every closing parenthesis is matched. -/
def matchedFrom (done : Chars) : (depth : Nat) → Chars → Chars
  | _, [] => done.reverse
  | depth, c :: cs =>
    if c = '(' then matchedFrom (c :: done) (depth + 1) cs
    else if c = ')' then
      match depth with
      | 0 => done.reverse
      | depth + 1 => matchedFrom (c :: done) depth cs
    else matchedFrom (c :: done) depth cs

/-- What stands between an opening parenthesis and the one that closes it, given the text after
the opening one. -/
def callArguments (cs : Chars) : Chars := trim (matchedFrom [] 0 cs)

structure Listing where
  depth : Int := 0
  current : Chars := []
  done : List Chars := []

def Listing.push (s : Listing) (c : Char) : Listing :=
  if c = ',' ∧ s.depth = 0 then { s with current := [], done := s.current.reverse :: s.done }
  else
    let depth := if c = '(' then s.depth + 1 else if c = ')' then s.depth - 1 else s.depth
    { s with depth, current := c :: s.current }

/-- The arguments of a call, parted at the commas outside parentheses and trimmed. -/
def argumentList (cs : Chars) : List Chars :=
  let s := cs.foldl Listing.push {}
  ((s.current.reverse :: s.done).reverse).map trim

/-- Opened less closed parentheses and brackets. -/
def bracketBalance (cs : Chars) : Int :=
  (cs.count '(' + cs.count '[' : Nat) - (cs.count ')' + cs.count ']' : Nat)

end HeapAudit.Statement
