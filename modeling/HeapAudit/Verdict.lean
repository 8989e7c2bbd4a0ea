import HeapAudit.Analysis

namespace HeapAudit

/-- The findings that make a run fail. -/
inductive FailOn where
  | leak
  | warning
  | any
  | none
  deriving DecidableEq, Repr

namespace FailOn

def all : List FailOn := [leak, warning, any, none]

def name : FailOn → String
  | leak => "leak"
  | warning => "warning"
  | any => "any"
  | none => "none"

def fails (f : FailOn) (results : List Analysis) : Bool :=
  match f with
  | leak => results.any Analysis.hasLeaks
  | warning => results.any Analysis.hasWarnings
  | any => results.any Analysis.hasLeaks || results.any Analysis.hasWarnings
  | none => false

end FailOn

end HeapAudit
