import HeapAudit.Analysis
import HeapAudit.Comment
import HeapAudit.Extraction
import HeapAudit.Language
import HeapAudit.Quality

namespace HeapAudit
open Text

/-- Why a source is not analyzed. -/
inductive Refusal where
  | notText (type : String)
  | empty
  | tooLarge (size : Nat) (limit : Int)
  | notFound (path : String)
  deriving DecidableEq, Repr

def Refusal.message : Refusal → String
  | .notText type => "Source code must be a string, not " ++ type
  | .empty => "Source code is empty"
  | .tooLarge size limit =>
    "Source code is too large (" ++ toString size ++ " characters, limit " ++ toString limit ++ ")"
  | .notFound path => "File not found: " ++ path

structure Analyzer where
  /-- The language of sources that come without one. -/
  language : Value := .text "c"
  maxChars : Option Int := none
  chain : Language → List Frontend
  /-- What is remarked when the chain for a language is put together. -/
  chainRemarks : Language → List String := fun _ => []
  estimator : Estimator := .standard
  /-- Why the ledger cannot be opened, or the lines cannot be searched, if they cannot. -/
  ledgerFault : Option String := none
  qualityFault : Option String := none

namespace Analyzer

def check (a : Analyzer) : Value → Except Refusal String
  | .text source =>
    if source = "" then .error .empty
    else match a.maxChars with
      | some limit =>
        if limit < source.length then .error (.tooLarge source.length limit) else .ok source
      | none => .ok source
  | v => .error (.notText v.typeName)

/-- A language given for a single source comes first. -/
def requested (a : Analyzer) (language : Value) : String :=
  Language.requestedName (match language with | .null => a.language | v => v)

def extraction (a : Analyzer) (language : Language) (source : String) : Extraction :=
  .run (a.chain language) (Comment.strip source)

/-- The ledger after all events of a source; its names are numbered from `serial` on. -/
def ledger (a : Analyzer) (language : Language) (serial : Nat) (source : String) : Ledger :=
  Ledger.run a.estimator { language, serial } (a.extraction language source).events

def quality (source : String) : List Warning := Quality.scan Quality.rules (lines source.toList)

/-- The result of a source, and the number for the next allocation. -/
def analyzeText (a : Analyzer) (serial : Nat) (source filename requested : String) :
    Analysis × Nat :=
  let language := Language.resolve (.text requested)
  match a.ledgerFault with
  | some why => (.failed requested why filename, serial)
  | none =>
    let l := a.ledger language serial source
    match a.qualityFault with
    | some why => (.failed requested why filename, l.serial)
    | none =>
      ({ language := requested
         allocations := l.allocations
         frees := l.frees
         leaks := l.leaks
         warnings := l.warnings ++ quality source
         timeline := l.timeline
         extractor := (a.extraction language source).extractor
         filename }, l.serial)

def analyze (a : Analyzer) (serial : Nat) (source : Value) (filename : String := "<input>")
    (language : Value := .null) : Except Refusal (Analysis × Nat) :=
  (a.check source).map fun text => a.analyzeText serial text filename (a.requested language)

/-- What is remarked while events are entered. -/
def ledgerRemarks (estimate : Estimator) (l : Ledger) (events : List Event) : List String :=
  let (l, remarks) := events.foldl
    (fun (l, remarks) e => (l.process estimate (some e), l.remarks estimate (some e) :: remarks))
    (l, [])
  remarks.reverse.flatten ++ l.finishRemarks

def qualityRemarks (source : String) : List String :=
  match quality source with
  | [] => []
  | found => ["[Quality] " ++ toString found.length ++ " unsafe function calls"]

/-- What is remarked while a source is analyzed. -/
def remarks (a : Analyzer) (serial : Nat) (source filename requested : String) : List String :=
  let language := Language.resolve (.text requested)
  let cleaned := Comment.strip source
  let start := ["[Scanner] Analyzing " ++ filename ++ " as " ++ language.name ++ "..."] ++
    a.chainRemarks language ++ Extraction.remarks cleaned (a.chain language)
  match a.ledgerFault with
  | some _ => start
  | none =>
    let entered := start ++ ledgerRemarks a.estimator { language, serial }
      (a.extraction language source).events
    match a.qualityFault with
    | some _ => entered
    | none =>
      let (result, _) := a.analyzeText serial source filename requested
      entered ++ qualityRemarks source ++
        ["[Scanner] Analysis complete: " ++ toString result.leaks.length ++ " leaks, " ++
          toString result.warnings.length ++ " warnings"]

end Analyzer

end HeapAudit
