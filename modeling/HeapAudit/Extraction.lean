import HeapAudit.Event

namespace HeapAudit

/-- What a frontend makes of a source. -/
inductive Outcome where
  | failed (why : String)
  /-- The source is not for this frontend. -/
  | refused
  | found (events : List Event)

structure Frontend where
  name : String
  run : String → Outcome
  /-- What the frontend itself remarks on a source. -/
  remarks : String → List String := fun _ => []

structure Extraction where
  events : List Event
  /-- The frontend that found the events. -/
  extractor : String

namespace Extraction

/-- Stands for the frontend when none has looked at the whole source. -/
def noExtractor : String := "none"

def nameOrNone (last : Option String) : String :=
  match last with
  | some name => if name = "" then noExtractor else name
  | none => noExtractor

/-- Runs the rest of a chain, given the last frontend that found nothing. -/
def runFrom (source : String) (last : Option String) : List Frontend → Extraction
  | [] => ⟨[], nameOrNone last⟩
  | f :: rest =>
    match f.run source with
    | .failed _ | .refused => runFrom source last rest
    | .found [] => runFrom source (some f.name) rest
    | .found (e :: events) => ⟨e :: events, f.name⟩

/-- The first frontend that finds any event decides; one that fails or refuses the source is as good
as absent. -/
def run (chain : List Frontend) (source : String) : Extraction := runFrom source none chain

/-- What is remarked while a chain is run. -/
def remarks (source : String) : List Frontend → List String
  | [] => []
  | f :: rest =>
    match f.run source with
    | .failed why =>
      ("[Extractor] " ++ f.name ++ " frontend failed: " ++ why) :: remarks source rest
    | .refused => f.remarks source ++ remarks source rest
    | .found [] => f.remarks source ++ remarks source rest
    | .found events =>
      f.remarks source ++ ["[Extractor] " ++ toString events.length ++ " events from " ++ f.name ++
        " frontend"]

end Extraction

end HeapAudit
