import HeapAudit.Analyzer
import HeapAudit.Files.Glob

namespace HeapAudit

/-- The language of a file by its suffix, or else another one. -/
def detectLanguage (p : Path) (default : Value) : Value :=
  match Language.ofExtension? p.suffix with
  | some l => .text l.name
  | none => default

/-- The files of a directory that fit a pattern, or have a known suffix, in order. -/
def sourceFiles (fs : FileSystem) (p : Path) (pattern : Option String) :
    Except Glob.PatternError (List Path) := do
  let pattern := pattern.filter (· ≠ "")
  let found ← match pattern with
    | some text => return sorted (Glob.find fs (← Glob.parse text) p)
    | none => pure (Glob.find fs ⟨[.descend, .wild [.anyText]], false⟩ p)
  return sorted (found.filter fun q => (Language.ofExtension? q.suffix).isSome)
where
  sorted (paths : List Path) : List Path := (paths.filter fs.isFile).mergeSort Path.le

namespace Analyzer

def fileLanguage (a : Analyzer) (p : Path) (language : Value) : Value :=
  match language with
  | .null => detectLanguage p a.language
  | v => v

def analyzeFile (a : Analyzer) (serial : Nat) (fs : FileSystem) (path : String) (language : Value) :
    Except Refusal (Analysis × Nat) :=
  let p := Path.ofText path
  match fs.read? p with
  | none => .error (.notFound path)
  | some source => a.analyze serial (.text source) p.text (a.fileLanguage p language)

def fileRemarks (a : Analyzer) (serial : Nat) (fs : FileSystem) (path : String) (language : Value) :
    List String :=
  let p := Path.ofText path
  match fs.read? p with
  | none => []
  | some source => match a.check (.text source) with
    | .ok text => a.remarks serial text p.text (a.requested (a.fileLanguage p language))
    | .error _ => []

/-- What came of one file. -/
structure FileOutcome where
  path : String
  result : Except Refusal Analysis
  remarks : List String

/-- The analyses of files one after the other, whose allocations are numbered throughout. -/
def analyzeFiles (a : Analyzer) (fs : FileSystem) (language : Value) :
    (serial : Nat) → List Path → List FileOutcome
  | _, [] => []
  | serial, p :: rest =>
    let remarks := a.fileRemarks serial fs p.text language
    match a.analyzeFile serial fs p.text language with
    | .ok (result, next) => ⟨p.text, .ok result, remarks⟩ :: analyzeFiles a fs language next rest
    | .error refusal => ⟨p.text, .error refusal, remarks⟩ :: analyzeFiles a fs language serial rest

end Analyzer

def analyses (outcomes : List Analyzer.FileOutcome) : List Analysis :=
  outcomes.filterMap fun o => o.result.toOption

end HeapAudit
