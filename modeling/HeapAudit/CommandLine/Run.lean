import HeapAudit.CommandLine.Options
import HeapAudit.Files.Sources
import HeapAudit.Frontends
import HeapAudit.Report.Plain
import HeapAudit.Report.Sarif
import HeapAudit.Report.Whole

namespace HeapAudit.CommandLine

/-- Why a run is broken off. -/
inductive Failure where
  | pattern (e : Glob.PatternError)
  | oversized (e : Report.Oversized)
  | unwritable (e : Document.Unwritable)
  | write (e : WriteError)
  /-- There is no result to report on. -/
  | noResult
  deriving DecidableEq, Repr

def Failure.message : Failure → String
  | .pattern e => e.message
  | .oversized e => e.message
  | .unwritable e => e.message
  | .write e => e.message
  | .noResult => "list index out of range"

structure Outcome where
  exit : Nat
  out : String := ""
  err : List String := []
  files : FileSystem

/-- The report on results in a format. -/
def report (time : String) (format : Format) (results : List Analysis) : Except Failure String :=
  match format with
  | .text => ((results.mapM Report.full).map String.join).mapError .oversized
  | .json => ((Report.combined results).write Document.standard).mapError .unwritable
  | .sarif => match Sarif.combine? results with
    -- The only integers here are the numbers of lines.
    | some run => .ok (run.document.render Document.standard)
    | none => .error .noResult
  | .export =>
    ((Report.combinedExport time results).write Document.standard).mapError .unwritable
  | .share => ((results.mapM Report.share).map ("\n".intercalate ·)).mapError .oversized

/-- The language asked for, if it is one. -/
def languageOf (asked : Option String) : Except String (Option Language) :=
  match asked with
  | none => .ok none
  | some text => match Language.ofName? text with
    | some l => .ok (some l)
    | none => .error (Language.unsupported text)

def fileLines (verbose : Bool) (o : Analyzer.FileOutcome) : List String :=
  (if verbose then o.remarks else []) ++
    match o.result with
    | .ok _ => []
    | .error refusal => ["Error: " ++ o.path ++ ": " ++ refusal.message]

/-- The results of the files, in the order asked for. -/
def ordered (o : Options) (outcomes : List Analyzer.FileOutcome) : List Analysis :=
  match o.sort with
  | some k => (analyses outcomes).map (·.sorted k)
  | none => analyses outcomes

/-- Files that could not be analyzed make a run fail too. -/
def exitCode (o : Options) (outcomes : List Analyzer.FileOutcome) : Nat :=
  let refused := outcomes.any fun f => match f.result with
    | .ok _ => false
    | .error _ => true
  if refused || o.failOn.fails (ordered o outcomes) then 1 else 0

/-- Writes the report where it is asked for. -/
def deliver (fs : FileSystem) (output : Option String) (text : String) :
    Except Failure (String × FileSystem) :=
  match output.filter (· ≠ "") with
  | some path => ((fs.write path text).mapError .write).map (("", ·))
  | none => .ok (text ++ "\n", fs)

def analyzeFiles (time : String) (fs : FileSystem) (o : Options) (language : Option Language)
    (paths : List Path) : Except Failure Outcome := do
  let a : Analyzer :=
    { language := .text ((language.map Language.name).getD "c"), maxChars := some o.maxChars,
      chain := ScriptParser.ready.chain }
  let given := match language with
    | some l => Value.text l.name
    | none => .null
  let outcomes := a.analyzeFiles fs given 1 paths
  let err := outcomes.flatMap (fileLines o.verbose)
  let results := ordered o outcomes
  let exit := exitCode o outcomes
  if results.isEmpty then return { exit, err, files := fs }
  let (out, files) ← deliver fs o.output (← report time o.format results)
  return { exit, out, err, files }

def runAnalyze (time : String) (fs : FileSystem) (o : Options) : Except Failure Outcome := do
  let target := Path.ofText o.target
  if (fs.at? target).isNone then
    return { exit := 1, err := ["Error: Target not found: " ++ o.target], files := fs }
  match languageOf o.language with
  | .error message => return { exit := 1, err := ["Error: " ++ message], files := fs }
  | .ok language =>
    let paths ← if fs.isFile target then pure [target]
      else (sourceFiles fs target o.pattern).mapError .pattern
    if paths.isEmpty then
      return { exit := 1, err := ["No files found to analyze."], files := fs }
    analyzeFiles time fs o language paths

/-- A run with arguments; `time` is what exports are stamped with. -/
def run (time : String) (fs : FileSystem) (args : List String) : Except Failure Outcome :=
  match request args with
  | .error e => .ok { exit := 2, err := [e.message], files := fs }
  | .ok (.help topic) => .ok { exit := 0, out := topic.help, files := fs }
  | .ok (.analyze o) => runAnalyze time fs o

end HeapAudit.CommandLine
