import HeapAudit.Syntax.Tree

namespace HeapAudit.Script
open Syntax

def subscript : Kind := .other "subscript_expression"

def parenthesized : Kind := .other "parenthesized_expression"

def objectPattern : Kind := .other "object_pattern"

def arrayPattern : Kind := .other "array_pattern"

def defaultPattern : Kind := .other "assignment_pattern"

/-- A name with a default, which only a pattern can hold. -/
def defaultedName : Kind := .other "object_assignment_pattern"

/-- Kinds that stand for the same in a pattern. -/
def isTarget (k : Kind) : Bool :=
  k == .identifier || k == .undefined || k == .member || k == subscript || k == objectPattern ||
    k == arrayPattern

/-- The kind a node has in a pattern, and whether its parts are patterns too. -/
def patternKind? (k : Kind) : Option (Kind × Bool) :=
  match k with
  | .assignment => some (defaultPattern, false)
  | .array => some (arrayPattern, true)
  | .object => some (objectPattern, true)
  | .pair => some (.other "pair_pattern", true)
  | .spread => some (.other "rest_pattern", true)
  | .shorthand => some (.other "shorthand_property_identifier_pattern", false)
  | _ => if isTarget k || k == defaultedName then some (k, false) else none

mutual

/-- The pattern that an expression stands for. -/
def pattern? : Node → Option Node
  | ⟨kind, named, field, first, past, row, children⟩ => do
    let (k, deep) ← patternKind? kind
    let parts ← if deep then patterns? children else some children
    some ⟨k, named, field, first, past, row, parts⟩

/-- The parts of a pattern; keys stay as they are. -/
def patterns? : List Node → Option (List Node)
  | [] => some []
  | n :: ns => do
    let part ← if n.field = some .key then some n else pattern? n
    let rest ← patterns? ns
    some (part :: rest)

end

mutual

/-- No expression holds a name with a default. -/
def settled : Node → Bool
  | ⟨kind, _, _, _, _, _, children⟩ =>
    !(kind == .object && children.any (·.kind == defaultedName)) && settledAll children

def settledAll : List Node → Bool
  | [] => true
  | n :: ns => settled n && settledAll ns

end

end HeapAudit.Script
