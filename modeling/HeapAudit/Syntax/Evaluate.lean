import HeapAudit.Number.Read
import HeapAudit.Syntax.Tree
import HeapAudit.Value

namespace HeapAudit.Syntax
open Text Number

/-- A number as scripts write it: an integer if it can be read as one, else a decimal. Underscores
and the mark of a big integer do not count. -/
def numeral (text : String) : Value :=
  let cs := text.toList.filter (· ≠ '_')
  let cs := (cs.reverse.dropWhile (· = 'n')).reverse
  match readLiteral? cs with
  | some n => .int n
  | none => match readReal? (String.ofList cs) with
    | some x => .real x
    | none => .null

/-- Why an argument has no value. -/
inductive Doubt where
  | tooLarge
  | missing
  | tooDeep
  deriving DecidableEq, Repr

def Doubt.message : Doubt → String
  | .tooLarge => "int too large to convert to float"
  | .missing => "'NoneType' object has no attribute 'type'"
  | .tooDeep => "maximum recursion depth exceeded while getting the str of an object"

/-- A number as a double precision one. -/
def toReal : Value → Except Doubt Binary64
  | .int n => match Binary64.ofInt? n with
    | some x => .ok x
    | none => .error .tooLarge
  | .real x => .ok x
  | _ => .ok .nan

/-- Two integers are combined exactly; as soon as one of the numbers is not an integer, both are
taken in double precision. -/
def arithmetic (whole : Int → Int → Int) (real : Binary64 → Binary64 → Binary64) :
    Value → Value → Except Doubt Value
  | .int a, .int b => .ok (.int (whole a b))
  | a, b => do
    let x ← toReal a
    let y ← toReal b
    .ok (.real (real x y))

def combine (operator : String) (a b : Value) : Except Doubt Value :=
  if a.isNumber && b.isNumber then
    if operator = "*" then arithmetic (· * ·) Binary64.mul a b
    else if operator = "+" then arithmetic (· + ·) Binary64.add a b
    else .ok .null
  else .ok .null

def operatorText (source : Source) (n : Node) : String :=
  ((n.child? .operator).map source.text).getD ""

/-- The value of an argument: a number, a name, or a sum or product of numbers; anything else is not
known. Operands are evaluated `levels` deep, and an operation that is nested deeper is given up. -/
def evaluate (source : Source) (levels : Nat) (n : Node) : Value :=
  match n.kind with
  | .number => numeral (source.text n)
  | .identifier => .text (source.text n)
  | .binary =>
    match levels with
    | 0 => .null
    | levels + 1 =>
      match n.child? .left, n.child? .right with
      | some left, some right =>
        let result := combine (operatorText source n) (evaluate source levels left)
          (evaluate source levels right)
        result.toOption.getD .null
      | _, _ => .null
  | _ => .null

/-- The doubts met while an argument is evaluated, in order. -/
def doubts (source : Source) (levels : Nat) (n : Node) : List Doubt :=
  match n.kind, levels with
  | .binary, 0 => [.tooDeep]
  | .binary, levels + 1 =>
    let operand (f : Field) := match n.child? f with
      | some c => doubts source levels c
      | none => [.missing]
    let own := match n.child? .left, n.child? .right with
      | some a, some b =>
        match combine (operatorText source n) (evaluate source levels a)
            (evaluate source levels b) with
        | .ok _ => []
        | .error d => [d]
      | _, _ => []
    operand .left ++ operand .right ++ own
  | _, _ => []

/-- How deep operands may be nested in an argument. It is what the stack has room for, less the
calls that are open when the evaluation starts. -/
def maxNesting : Nat := 985

end HeapAudit.Syntax
