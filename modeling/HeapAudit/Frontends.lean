import HeapAudit.Extraction
import HeapAudit.Language
import HeapAudit.LineScan
import HeapAudit.Script.Parse
import HeapAudit.Syntax.Walk

namespace HeapAudit

namespace Frontend

def line (language : Language) : Frontend where
  name := "line"
  run source := .found (LineScan.extract language {} source)
  remarks source :=
    ["[Extractor] line scanner found " ++
      toString (LineScan.extract language {} source).length ++ " events"]

/-- The events of a script, unless its syntax is wrong. -/
def scriptEvents? (source : String) : Option (List Event) :=
  (Script.parse? source).map (Syntax.walk (.ofText source))

def script : Frontend where
  name := "javascript"
  run source := match scriptEvents? source with
    | some events => .found events
    | none => .refused
  remarks source := match Script.parse? source with
    | some root => Syntax.remarks (.ofText source) root
    | none => ["[Extractor] javascript source has syntax errors"]

/-- A frontend that fails on every source. -/
def failing (f : Frontend) (why : String) : Frontend := { f with run := fun _ => .failed why }

end Frontend

/-- The state of the parser of scripts. -/
inductive ScriptParser where
  | ready
  | absent
  /-- It is there, but cannot be set up. -/
  | broken
  deriving DecidableEq, Repr

namespace ScriptParser

/-- Every language is scanned line by line, and scripts are parsed first if there is a parser. -/
def chain (p : ScriptParser) (language : Language) : List Frontend :=
  if language = .javascript ∧ p = .ready then [.script, .line language] else [.line language]

def remarks (p : ScriptParser) (language : Language) : List String :=
  if language = .javascript ∧ p = .broken then
    ["[Extractor] javascript frontend unavailable: tree-sitter-javascript is required. " ++
      "Install with: pip install tree-sitter tree-sitter-javascript"]
  else []

end ScriptParser

end HeapAudit
