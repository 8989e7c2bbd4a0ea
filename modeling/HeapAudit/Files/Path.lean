import HeapAudit.Text.Basic

namespace HeapAudit
open Text

structure Path where
  /-- The slashes of an absolute path. -/
  root : String := ""
  parts : List String
  deriving DecidableEq, Repr

namespace Path

/-- Empty components and single dots do not count. -/
def components (text : String) : List String :=
  (splitAt '/' text.toList).map String.ofList |>.filter fun part => part ≠ "" ∧ part ≠ "."

/-- Exactly two slashes at the front are kept. -/
def rootOf : Chars → String
  | '/' :: '/' :: '/' :: _ => "/"
  | '/' :: '/' :: _ => "//"
  | '/' :: _ => "/"
  | _ => ""

def ofText (text : String) : Path := ⟨rootOf text.toList, components text⟩

def text (p : Path) : String :=
  if p.root = "" ∧ p.parts = [] then "." else p.root ++ "/".intercalate p.parts

def child (p : Path) (name : String) : Path := { p with parts := p.parts ++ [name] }

def parent (p : Path) : Path := { p with parts := p.parts.dropLast }

def name (p : Path) : String := p.parts.getLast?.getD ""

/-- The name from its last dot on; a dot at either end of the name does not count. -/
def suffix (p : Path) : String :=
  let cs := p.name.toList
  let after := cs.reverse.takeWhile (· ≠ '.')
  let before := cs.length - after.length
  if 1 < before ∧ after ≠ [] then String.ofList (cs.drop (before - 1)) else ""

/-- Paths are ordered component by component. -/
def le (p q : Path) : Bool :=
  (List.compareLex (fun a b => order a.toList b.toList)
    (p.root :: p.parts) (q.root :: q.parts)).isLE

end Path

end HeapAudit
