import HeapAudit.Analysis
import HeapAudit.Document
import HeapAudit.Text.Lower

namespace HeapAudit.Sarif

inductive Level where
  | error
  | warning
  | note
  deriving DecidableEq, Repr

def Level.name : Level → String
  | .error => "error"
  | .warning => "warning"
  | .note => "note"

def Level.ofSeverity : Severity → Level
  | .high => .error
  | .medium => .warning
  | .low | .info => .note

structure Rule where
  id : String
  name : String
  /-- What the rule is about. -/
  about : String
  level : Level
  deriving DecidableEq, Repr

def dashed (s : String) : String :=
  String.ofList ((Text.lower s).toList.map fun c => if c = ' ' then '-' else c)

def ruleOfLeak (kind : LeakKind) (severity : Severity) : Rule :=
  { id := "leaklens/leak-" ++ kind.name, name := kind.title, about := kind.name,
    level := .ofSeverity severity }

def ruleOfWarning (kind : WarningKind) : Rule :=
  { id := "leaklens/" ++ dashed kind.name, name := kind.name, about := kind.name,
    level := .ofSeverity kind.severity }

structure Result where
  rule : Rule
  text : String
  uri : String
  line : LineNo
  deriving DecidableEq, Repr

/-- Lines are counted from one. Every finding of an analysis has a line. One that was given none
has no place to report, and is put on the first line. -/
def Result.startLine (r : Result) : Int := max 1 (r.line.getD 0)

/-- A run declares the rules that its results refer to, each once and in the order of first use. -/
structure Run where
  rules : List Rule
  results : List Result
  deriving DecidableEq, Repr

/-- Declares a rule; one of the same name is replaced where it stands. -/
def declare (rules : List Rule) (rule : Rule) : List Rule :=
  if rules.any (·.id = rule.id) then rules.map fun r => if r.id = rule.id then rule else r
  else rules ++ [rule]

def results (a : Analysis) : List Result :=
  a.leaks.map (fun l => ⟨ruleOfLeak l.kind l.severity, l.fix, a.filename, l.line⟩) ++
    a.warnings.map (fun w => ⟨ruleOfWarning w.kind, w.message, a.filename, w.line⟩)

/-- The first rule of each name. -/
def rulesOf (rs : List Result) : List Rule :=
  rs.foldl (fun rules r => if rules.any (·.id = r.rule.id) then rules else rules ++ [r.rule]) []

def runOf (a : Analysis) : Run := ⟨rulesOf (results a), results a⟩

def merge (runs : List Run) : Run :=
  ⟨(runs.flatMap Run.rules).foldl declare [], runs.flatMap Run.results⟩

/-- The run of several results; there is none of no result. -/
def combine? : List Analysis → Option Run
  | [] => none
  | [a] => some (runOf a)
  | as => some (merge (as.map runOf))

def Rule.document (r : Rule) : Document :=
  .object [("id", .text r.id), ("name", .text r.name),
    ("shortDescription", .object [("text", .text r.about)]),
    ("defaultConfiguration", .object [("level", .text r.level.name)])]

def Result.document (r : Result) : Document :=
  .object [("ruleId", .text r.rule.id), ("level", .text r.rule.level.name),
    ("message", .object [("text", .text r.text)]),
    ("locations", .list [.object [("physicalLocation", .object
      [("artifactLocation", .object [("uri", .text r.uri)]),
        ("region", .object [("startLine", .int r.startLine)])])]])]

def schema : String :=
  "https://raw.githubusercontent.com/oasis-tcs/sarif-spec/master/Schemata/sarif-schema-2.1.0.json"

def Run.document (r : Run) : Document :=
  .object [("$schema", .text schema), ("version", .text "2.1.0"),
    ("runs", .list [.object
      [("tool", .object [("driver", .object
          [("name", .text "LeakLens"), ("version", .text "0.1.0"),
            ("rules", .list (r.rules.map Rule.document))])]),
        ("results", .list (r.results.map Result.document))]])]

end HeapAudit.Sarif
