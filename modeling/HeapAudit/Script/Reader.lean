import HeapAudit.Script.Semicolon
import HeapAudit.Script.Token
import HeapAudit.Syntax.Tree

namespace HeapAudit.Script
open Text Syntax

/-- A reader fails or gives a result and the place right after what it read; the gap in front of a
token is skipped by the reader of the token. -/
abbrev Reader := StateT Place Option

/-- What is to be read where. An expression that is `last` may end its statement. -/
inductive Goal where
  | statement
  | block
  /-- Expressions with commas between them. -/
  | expression (last : Bool)
  | single (last : Bool)
  /-- Operands of the operators that bind tighter than a level. -/
  | operand (last : Bool) (level : Nat)
  /-- What may be assigned or iterated to. -/
  | target
  | construction

/-- Reads what a goal asks for. -/
abbrev Sub := Goal → Reader Node

namespace Reader

/-- The text of the next token, which is not read yet. -/
def ahead : Reader Chars := fun p => some (p.skip.rest, p)

/-- Moves to the next token. -/
def start : Reader Place := fun p => some (p.skip, p.skip)

def advance (n : Nat) : Reader Unit := modify (Place.advance n)

def require (b : Bool) : Reader Unit := if b then pure () else failure

def sign (s : String) : Reader Unit := do
  let p ← start
  require (sign? p.rest == some s)
  advance s.length

def nextIs (s : String) : Reader Bool := return sign? (← ahead) == some s

/-- Reads a sign if it is there. -/
def accept (s : String) : Reader Bool := do
  if ← nextIs s then
    sign s
    return true
  else return false

def wordOf (cs : Chars) : String := String.ofList (cs.take (nameLength cs))

/-- The next word, or empty text if there is none. -/
def wordAhead : Reader String := return wordOf (← ahead)

def word : Reader String := do
  let p ← start
  let w := wordOf p.rest
  require (w ≠ "")
  advance w.length
  return w

def keyword (w : String) : Reader Unit := do require ((← word) == w)

def nextIsWord (w : String) : Reader Bool := return (← wordAhead) == w

def acceptWord (w : String) : Reader Bool := do
  if ← nextIsWord w then
    keyword w
    return true
  else return false

/-- The statement may end at this place although no semicolon is there. -/
def endsHere (operators : Bool) : Reader Bool := fun p => some (endsStatement operators p.rest, p)

/-- The end of a statement. -/
def semicolon (operators : Bool) : Reader Unit := do
  unless ← accept ";" do require (← endsHere operators)

/-- A node of what is read, from its first token to its last. -/
def node (r : Reader (Kind × List Node)) : Reader Node := do
  let p ← start
  let (kind, children) ← r
  let q ← get
  return { kind, named := true, field := none, first := p.offset, past := q.offset, row := p.row,
           children }

/-- A node of a kind that is only named. -/
def named (name : String) (r : Reader (List Node)) : Reader Node :=
  node do return (.other name, ← r)

/-- A node from the start of one that was read to here. -/
def extend (n : Node) (kind : Kind) (children : List Node) : Reader Node := do
  let q ← get
  return { kind, named := true, field := none, first := n.first, past := q.offset, row := n.row,
           children }

/-- Goes on from a result until there is nothing to add. -/
def loop {α : Type} (step : α → Reader (Option α)) : Nat → α → Reader α
  | 0, _, _ => none
  | n + 1, a, p => match step a p with
    | none => none
    | some (none, q) => some (a, q)
    | some (some b, q) => loop step n b q

/-- Reads items until one is not there. -/
def many (bound : Nat) (item : Reader (Option Node)) : Reader (List Node) := do
  let found ← loop (fun found => do return (← item).map (· :: found)) bound []
  return found.reverse

end Reader

end HeapAudit.Script
