import HeapAudit.Ledger

namespace HeapAudit

structure Statistics where
  allocations : Nat
  frees : Nat
  leaks : Nat
  leakedBytes : Int
  warnings : Nat
  deriving DecidableEq, Repr

/-- The result of analyzing one source. -/
structure Analysis where
  /-- The language as it was asked for. -/
  language : String
  allocations : List Allocation := []
  frees : List Free := []
  leaks : List Leak := []
  warnings : List Warning := []
  timeline : List Sample := []
  extractor : String := "none"
  filename : String := "<input>"
  deriving DecidableEq, Repr

namespace Analysis

/-- The analysis was stopped by an error, and holds nothing else. -/
def failed (language why filename : String) : Analysis :=
  { language, filename,
    warnings := [{
      kind := .analysisError
      line := some 0
      message :=
        "Analysis encountered an error: " ++ why ++ ". Some results may be incomplete." }] }

def hasLeaks (a : Analysis) : Bool := !a.leaks.isEmpty

def hasWarnings (a : Analysis) : Bool := !a.warnings.isEmpty

def leakedBytes (a : Analysis) : Int := a.leaks.foldr (·.size + ·) 0

/-- The message of the error that stopped the analysis. -/
def error? (a : Analysis) : Option String :=
  (a.warnings.find? (·.kind = .analysisError)).map Warning.message

def statistics (a : Analysis) : Statistics :=
  { allocations := a.allocations.length
    frees := a.frees.length
    leaks := a.leaks.length
    leakedBytes := a.leakedBytes
    warnings := a.warnings.length }

end Analysis

end HeapAudit
