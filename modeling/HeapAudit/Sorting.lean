import HeapAudit.Analysis
import HeapAudit.Value

namespace HeapAudit
open Text

inductive SortKey where
  | line
  | size
  | var
  deriving DecidableEq, Repr

namespace SortKey

def all : List SortKey := [line, size, var]

def name : SortKey → String
  | line => "line"
  | size => "size"
  | var => "variable"

/-- Why leaks cannot be sorted. -/
structure Unknown where
  key : Value

def Unknown.message (u : Unknown) : String :=
  "Unknown sort key: " ++ u.key.shown ++ " (expected one of " ++
    ", ".intercalate (all.map name) ++ ")"

def ofValue : Value → Except Unknown SortKey
  | .text s => match all.find? (·.name = s) with
    | some k => .ok k
    | none => .error ⟨.text s⟩
  | v => .error ⟨v⟩

/-- Lines ascend, the largest size comes first, and names are ordered by their characters. Every
leak that is found has a line. One that was given none cannot be compared by its line; zero stands
for the line then, so that the order is total. -/
def le : SortKey → Leak → Leak → Bool
  | line, a, b => decide (a.line.getD 0 ≤ b.line.getD 0)
  | size, a, b => decide (b.size ≤ a.size)
  | var, a, b => (order a.var.toList b.var.toList).isLE

/-- Sorting is stable: leaks that are equal under the key stay in the order in which they were
found. -/
def sort (k : SortKey) (leaks : List Leak) : List Leak := leaks.mergeSort k.le

end SortKey

def Analysis.sorted (a : Analysis) (k : SortKey) : Analysis := { a with leaks := k.sort a.leaks }

end HeapAudit
