import HeapAudit.Heading
import HeapAudit.Language

namespace HeapAudit
open Text

inductive ScopeKind where
  | function (name : String)
  | loop
  deriving DecidableEq, Repr

/-- A body that is open. It remembers the brace depth, or the indentation, of the line of its
head. -/
structure Scope where
  kind : ScopeKind
  level : Int
  /-- A brace of its body has been opened. -/
  braced : Bool := false
  deriving DecidableEq, Repr

namespace Scope

/-- The innermost function. -/
def function? (scopes : List Scope) : Option String :=
  scopes.findSome? fun s => match s.kind with
    | .function name => some name
    | .loop => none

def inLoop (scopes : List Scope) : Bool := scopes.any (·.kind = .loop)

/-- The scopes after the heads on a trimmed line have been read: a function's first, then a
loop's inside it. -/
def openHeads (level : Int) (line : Chars) (scopes : List Scope) : List Scope :=
  let scopes := match Heading.functionName? line with
    | some name => { kind := .function (String.ofList name), level : Scope } :: scopes
    | none => scopes
  if Heading.isLoop line then { kind := .loop, level : Scope } :: scopes else scopes

/-- Scopes whose brace has been opened at this depth. -/
def markBraced (depth : Int) (scopes : List Scope) : List Scope :=
  scopes.map fun s => if s.level < depth then { s with braced := true } else s

/-- Indentation at or left of a head ends its body. -/
def closeIndented (indent : Int) (scopes : List Scope) : List Scope :=
  scopes.dropWhile fun s => indent ≤ s.level

/-- A closing brace ends every body that is back at its head's depth; the end of a statement ends
the bodies that have no brace. -/
def closeBraced (depth : Int) (closes completed : Bool) (scopes : List Scope) : List Scope :=
  let scopes := if closes then scopes.dropWhile fun s => depth ≤ s.level else scopes
  if completed then scopes.dropWhile fun s => !s.braced && depth ≤ s.level else scopes

end Scope

end HeapAudit
