import HeapAudit.Analysis
import HeapAudit.Report.Bytes

namespace HeapAudit.Report

def rule (c : Char) (n : Nat) : String := String.ofList (List.replicate n c)

def joinLines (ls : List String) : String := "\n".intercalate ls

def summaryLine (a : Analysis) : String :=
  match a.error?.filter (· ≠ "") with
  | some message => message
  | none =>
    if a.leaks.isEmpty then "Analysis complete! No memory leaks detected."
    else "Analysis complete! Found " ++ toString a.leaks.length ++ " memory leak(s)."

def shareLeak (number : Nat) (l : Leak) : Except Oversized String := do
  let size ← bytes l.size
  let var := if l.var = "" then "unknown" else l.var
  return toString number ++ ". " ++ var ++ " (Line " ++ l.line.text ++ ") - " ++ size

def share (a : Analysis) : Except Oversized String := do
  let s := a.statistics
  let leaked ← bytes s.leakedBytes
  let head :=
    ["Memory Leak Analysis Results", rule '=' 40, "",
      "Total Allocations: " ++ toString s.allocations,
      "Total Frees: " ++ toString s.frees,
      "Memory Leaks: " ++ toString s.leaks,
      "Leaked Bytes: " ++ leaked,
      "Warnings: " ++ toString s.warnings, ""]
  let leaks ← (a.leaks.zipIdx 1).mapM fun (l, i) => shareLeak i l
  let listed := if a.leaks.isEmpty then [] else ["Memory Leaks:", rule '-' 40] ++ leaks
  return joinLines (head ++ listed) ++ "\n"

def leakLines (number : Nat) (l : Leak) : Except Oversized (List String) := do
  let size ← bytes l.size
  let place := match l.function with
    | some f => if f = "" then "" else " in " ++ f ++ "()"
    | none => ""
  let loop := if l.inLoop then " [in loop]" else ""
  return ["\n" ++ toString number ++ ". [" ++ l.kind.capitals ++ "] " ++ l.var ++ " = " ++
      l.primitive ++ "(...) line " ++ l.line.text ++ place ++ loop,
    "   Size: " ++ size,
    "   Fix: " ++ l.fix]

def warningLines (w : Warning) : List String :=
  ("  line " ++ w.line.text ++ ": [" ++ w.kind.name ++ "] " ++ w.message) ::
    (if w.lineText = "" then [] else ["      " ++ w.lineText])

/-- The most memory at any time, if there was any event. -/
def peak? (timeline : List Sample) : Option Int := (timeline.map Sample.memory).max?

def peakLines (timeline : List Sample) : Except Oversized (List String) :=
  match peak? timeline with
  | some peak => (bytes peak).map fun amount => ["Peak memory: " ++ amount]
  | none => .ok []

def full (a : Analysis) : Except Oversized String := do
  let s := a.statistics
  let leaked ← bytes s.leakedBytes
  let peak ← peakLines a.timeline
  let leaks ← (a.leaks.zipIdx 1).mapM fun (l, i) => leakLines i l
  let head :=
    ["\n" ++ rule '=' 60, "LeakLens Analysis: " ++ a.filename, rule '=' 60,
      "\nLanguage: " ++ a.language ++ " (extractor: " ++ a.extractor ++ ")",
      "Allocations: " ++ toString s.allocations ++ "  Frees: " ++ toString s.frees,
      "Leaked: " ++ leaked]
  let leakPart := if a.leaks.isEmpty then []
    else ["\nMemory Leaks: " ++ toString a.leaks.length, rule '-' 40] ++ leaks.flatten
  let warningPart := if a.warnings.isEmpty then []
    else ["\nWarnings: " ++ toString a.warnings.length, rule '-' 40] ++
      a.warnings.flatMap warningLines
  return joinLines (head ++ peak ++ leakPart ++ warningPart ++
    ["\n" ++ summaryLine a, "\n" ++ rule '=' 60 ++ "\n"])

end HeapAudit.Report
