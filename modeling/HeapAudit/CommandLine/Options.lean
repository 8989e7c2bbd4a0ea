import HeapAudit.CommandLine.Arguments
import HeapAudit.CommandLine.Help
import HeapAudit.Number.Read
import HeapAudit.Sorting
import HeapAudit.Verdict

namespace HeapAudit.CommandLine
open Text Number

inductive Format where
  | text
  | json
  | sarif
  | share
  | «export»
  deriving DecidableEq, Repr

namespace Format

def all : List Format := [text, json, sarif, share, «export»]

def name : Format → String
  | text => "text"
  | json => "json"
  | sarif => "sarif"
  | share => "share"
  | «export» => "export"

end Format

structure Options where
  target : String := ""
  language : Option String := none
  pattern : Option String := none
  format : Format := .text
  output : Option String := none
  sort : Option SortKey := none
  maxChars : Int := 100000
  failOn : FailOn := .leak
  verbose : Bool := false
  /-- Only the help is asked for. -/
  help : Bool := false
  deriving DecidableEq, Repr

inductive Setting where
  | help
  | language
  | pattern
  | format
  | output
  | sort
  | maxChars
  | failOn
  | verbose
  deriving DecidableEq, Repr

def helpFlag : Flag Setting := ⟨.help, ["-h", "--help"], false⟩

def analyzeFlags : List (Flag Setting) :=
  [helpFlag, ⟨.language, ["-l", "--language"], true⟩, ⟨.pattern, ["-p", "--pattern"], true⟩,
    ⟨.format, ["-f", "--format"], true⟩, ⟨.output, ["-o", "--output"], true⟩,
    ⟨.sort, ["--sort"], true⟩, ⟨.maxChars, ["--max-chars"], true⟩,
    ⟨.failOn, ["--fail-on"], true⟩, ⟨.verbose, ["-v", "--verbose"], false⟩]

def invalidChoice (value : String) (choices : List String) : String :=
  "invalid choice: " ++ quote value ++ " (choose from " ++
    ", ".intercalate (choices.map quote) ++ ")"

/-- The choice that a value names. -/
def choose {α : Type} (all : List α) (name : α → String) (value : String) : Except String α :=
  match all.find? (name · = value) with
  | some a => .ok a
  | none => .error (invalidChoice value (all.map name))

def wholeNumber (value : String) : Except String Int :=
  match readInt? value with
  | some n => .ok n
  | none => .error ("invalid int value: " ++ quote value)

def assign (s : Setting) (value : Option String) (o : Options) : Except String Options :=
  let v := value.getD ""
  match s with
  | .help => .ok { o with help := true }
  | .language => .ok { o with language := some v }
  | .pattern => .ok { o with pattern := some v }
  | .format => (choose Format.all Format.name v).map fun format => { o with format }
  | .output => .ok { o with output := some v }
  | .sort => (choose SortKey.all SortKey.name v).map fun k => { o with sort := some k }
  | .maxChars => (wholeNumber v).map fun maxChars => { o with maxChars }
  | .failOn => (choose FailOn.all FailOn.name v).map fun failOn => { o with failOn }
  | .verbose => .ok { o with verbose := true }

def program : Command Setting Options := ⟨[helpFlag], .rest, assign, Options.help⟩

def analyze : Command Setting Options := ⟨analyzeFlags, .single, assign, Options.help⟩

inductive UsageError where
  /-- Arguments before the command, or of the command itself. -/
  | program (e : ArgumentError)
  | analyze (e : ArgumentError)
  | noSuchCommand (given : String)
  | noTarget
  | unrecognized (args : List String)
  deriving DecidableEq, Repr

def UsageError.message : UsageError → String
  | .program e => "leaklens: error: " ++ e.message
  | .analyze e => "leaklens analyze: error: " ++ e.message
  | .noSuchCommand given =>
    "leaklens: error: argument command: " ++ invalidChoice given ["analyze"]
  | .noTarget => "leaklens analyze: error: the following arguments are required: target"
  | .unrecognized args => "leaklens: error: unrecognized arguments: " ++ " ".intercalate args

inductive Request where
  | help (topic : Topic)
  | analyze (o : Options)
  deriving DecidableEq, Repr

/-- A request for an analysis, and the arguments that are left. -/
def analyzeRequest (args : List String) : Except UsageError (Request × List String) := do
  let c ← (analyze.collect {} args).mapError .analyze
  if c.settings.help then return (.help .analyze, [])
  match c.position with
  | some [target] => return (.analyze { c.settings with target }, c.left)
  | _ => throw .noTarget

def request (args : List String) : Except UsageError Request := do
  let c ← (program.collect {} args).mapError .program
  if c.settings.help then return .help .program
  match c.position with
  | some (command :: rest) =>
    if command ≠ "analyze" then throw (.noSuchCommand command)
    match ← analyzeRequest rest with
    | (.help topic, _) => return .help topic
    | (r, left) => if c.left ++ left ≠ [] then throw (.unrecognized (c.left ++ left)) else return r
  | _ => if c.left ≠ [] then throw (.unrecognized c.left) else return .help .program

end HeapAudit.CommandLine
