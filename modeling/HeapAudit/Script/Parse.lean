import HeapAudit.Script.Statement

namespace HeapAudit.Script
open Text Syntax Reader

def step (bound : Nat) (sub : Sub) : Goal → Reader Node
  | .statement => statement sub bound
  | .block => block sub bound
  | .expression last => sequence sub bound last
  | .single last => single sub bound last
  | .operand last level => operands sub bound last level
  | .target => target sub bound
  | .construction => construction sub bound

/-- Reads a goal whose parts are nested at most `depth` deep. -/
def reach (bound : Nat) : (depth : Nat) → Sub
  | 0, _ => failure
  | n + 1, g => step bound (reach bound n) g

/-- The first line may name the program that runs the script. -/
def interpreterLine : Reader Unit := fun p =>
  match p.skip.rest with
  | '#' :: '!' :: _ =>
    let q := p.skip
    some ((), q.advance (q.rest.takeWhile (· ≠ '\n')).length)
  | _ => some ((), p)

def program (sub : Sub) (bound : Nat) : Reader Node := named "program" do
  interpreterLine
  many bound do
    if (← ahead).isEmpty then return none else return some (← sub .statement)

/-- Every part takes at least one character, and few goals lie between a part and its own parts. -/
def depthFor (length : Nat) : Nat := 16 * (length + 4)

/-- The tree of a script, if its syntax is right. -/
def parse? (source : String) : Option Node := do
  let cs := source.toList
  let bound := cs.length + 1
  let (root, _) ← (program (reach bound (depthFor bound)) bound).run { rest := cs }
  if settled root then some root else none

end HeapAudit.Script
