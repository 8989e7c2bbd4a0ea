import HeapAudit.Advice
import HeapAudit.Size

namespace HeapAudit

/-- Why an event could not be handled. -/
inductive Fault where
  | unsizable (why : Size.Unsizable)
  /-- There was no event. -/
  | missing
  /-- A part of the analysis failed. -/
  | broken (message : String)
  deriving DecidableEq, Repr

def Fault.message : Fault → String
  | .unsizable why => why.message
  | .missing => "'NoneType' object has no attribute 'variable'"
  | .broken message => message

/-- Measures the events; a doubt is remarked, and only a fault leaves an event without a size. -/
structure Estimator where
  size : Language → Event → Except Fault Int
  doubt : Language → Event → Option Size.Doubt := fun _ _ => none

def Estimator.standard : Estimator where
  size language e := (Size.estimate language e).mapError .unsizable
  doubt := Size.doubt?

/-- The live allocations of each variable, the latest first. -/
abbrev Holdings := List (String × List Allocation)

namespace Holdings

def get? (holdings : Holdings) (var : String) : Option (List Allocation) :=
  (holdings.find? (·.1 = var)).map (·.2)

def put (holdings : Holdings) (var : String) (stack : List Allocation) : Holdings :=
  if holdings.any (·.1 = var) then
    holdings.map fun entry => if entry.1 = var then (var, stack) else entry
  else holdings ++ [(var, stack)]

def erase (holdings : Holdings) (var : String) : Holdings := holdings.filter (·.1 ≠ var)

def live (holdings : Holdings) : List Allocation := holdings.flatMap (·.2)

end Holdings

structure Sample where
  line : Int
  memory : Int
  deriving DecidableEq, Repr

/-- Every variable has a stack of live allocations. Binding a variable again evicts its live
allocation as a leak, a release takes the latest one off, and whatever is live at the end is a leak.
Every event adds one sample to the timeline, also one that could not be handled. -/
structure Ledger where
  language : Language
  /-- The number that the next allocation's name ends in. -/
  serial : Nat := 1
  holdings : Holdings := []
  memory : Int := 0
  timeline : List Sample := []
  allocations : List Allocation := []
  frees : List Free := []
  leaks : List Leak := []
  warnings : List Warning := []
  finished : Bool := false

namespace Ledger

def serialText (n : Nat) : String :=
  let digits := toString n
  String.ofList (List.replicate (12 - digits.length) '0') ++ digits

def allocationId (var : String) (line : LineNo) (serial : Nat) : String :=
  var ++ "_line" ++ line.text ++ "_" ++ serialText serial

def leakOf (a : Allocation) (kind : LeakKind) (fix : String) : Leak :=
  { var := a.var, line := a.line, primitive := a.primitive, size := a.size, inLoop := a.inLoop,
    function := a.function, kind, fix, id := a.id }

/-- Takes the live allocation of a variable off as a leak, if there is one. -/
def evict (l : Ledger) (var : String) (line : LineNo) : Ledger :=
  match l.holdings.get? var with
  | some (a :: rest) =>
    { l with
      holdings := l.holdings.put var rest
      memory := l.memory - a.size
      leaks := l.leaks ++
        [leakOf a .reassignment (Advice.onReassignment l.language a line)] }
  | _ => l

def record (l : Ledger) (e : Event) (size : Int) : Allocation :=
  { id := allocationId e.var e.line l.serial, var := e.var, line := e.line,
    primitive := e.primitive, size, inLoop := e.inLoop, function := e.function,
    isArray := e.isArray, lineText := e.lineText }

def enter (l : Ledger) (a : Allocation) : Ledger :=
  { l with
    holdings := l.holdings.put a.var (a :: (l.holdings.get? a.var).getD [])
    allocations := l.allocations ++ [a]
    memory := l.memory + a.size }

/-- An allocation is named before it is measured, so one that cannot be measured uses up a
number, and what was bound before has left the ledger. -/
def allocate (estimate : Estimator) (l : Ledger) (e : Event) : Ledger × Option Fault :=
  let l := l.evict e.var e.line
  let next := { l with serial := l.serial + 1 }
  match estimate.size l.language e with
  | .ok size => (next.enter (l.record e size), none)
  | .error fault => (next, some fault)

def warn (l : Ledger) (e : Event) (kind : WarningKind) (message : String) : Ledger :=
  { l with
    warnings := l.warnings ++
      [{ kind, line := e.line, message, lineText := e.lineText, var := some e.var }] }

def potentialDoubleFree (var : String) : String :=
  "free() called on " ++ var ++ " which may not be allocated or already freed."

def doubleFree (var : String) : String :=
  "free() called on " ++ var ++ " which has already been freed."

def checkRelease (l : Ledger) (a : Allocation) (e : Event) : Ledger :=
  if Advice.mismatched a.primitive e.primitive then
    { l with
      warnings := l.warnings ++
        [{ kind := .mismatchedDeallocation, line := e.line,
           message := Advice.onMismatch l.language a e.primitive,
           lineText := e.lineText, var := some a.var }] }
  else l

def release (l : Ledger) (e : Event) : Ledger :=
  match l.holdings.get? e.var with
  | none => l.warn e .potentialDoubleFree (potentialDoubleFree e.var)
  | some [] => l.warn e .doubleFree (doubleFree e.var)
  | some (a :: rest) =>
    let freed : Free :=
      { var := e.var, line := e.line, primitive := e.primitive, freed := a.id,
        lineText := e.lineText }
    checkRelease
      { l with
        frees := l.frees ++ [freed]
        memory := l.memory - a.size
        holdings := if rest.isEmpty then l.holdings.erase e.var else l.holdings.put e.var rest }
      a e

/-- One event, without its sample. Nothing happens to an event that names no variable. -/
def handle (estimate : Estimator) (l : Ledger) : Option Event → Ledger × Option Fault
  | none => (l, some .missing)
  | some e =>
    if e.var = "" then (l, none)
    else match e.kind with
      | .allocation => l.allocate estimate e
      | .deallocation => (l.release e, none)
      | .unclassified => (l, none)

def sample (l : Ledger) (line : LineNo) : Ledger :=
  { l with timeline := l.timeline ++ [⟨line.getD 0, l.memory⟩] }

def process (estimate : Estimator) (l : Ledger) (e : Option Event) : Ledger :=
  (l.handle estimate e).1.sample (e.bind Event.line)

/-- Every allocation that is still live is a leak, in the order of allocation. -/
def finish (l : Ledger) : Ledger :=
  if l.finished then l
  else
    let live := l.holdings.live.map (·.id)
    let unreleased := l.allocations.filter fun a => live.contains a.id
    { l with
      finished := true
      leaks := l.leaks ++ unreleased.map fun a =>
        leakOf a .unreleased (Advice.onUnreleased l.language a) }

/-- What is remarked while an event is processed. -/
def remarks (estimate : Estimator) (l : Ledger) (e : Option Event) : List String :=
  let shown := (e.map Event.summary).getD "None"
  let failure := ((l.handle estimate e).2.map fun fault =>
    "[Tracker] error processing " ++ shown ++ ": " ++ fault.message).toList
  match e with
  | none => failure
  | some e =>
    if e.var = "" then ["[Tracker] skipping event without a variable: " ++ e.fields]
    else match e.kind with
      | .allocation =>
        ((estimate.doubt l.language e).map fun d =>
          "[Size] could not size " ++ e.var ++ " at line " ++ e.line.text ++ ": " ++
            d.message).toList ++ failure
      | .deallocation => []
      | .unclassified => ["[Tracker] skipping unknown event: " ++ e.fields]

def finishRemarks (l : Ledger) : List String :=
  if l.finished then []
  else
    ["[Tracker] " ++ toString l.allocations.length ++ " allocations, " ++
      toString l.frees.length ++ " frees, " ++ toString l.finish.leaks.length ++ " leaks"]

def run (estimate : Estimator) (l : Ledger) (events : List Event) : Ledger :=
  (events.foldl (fun l e => l.process estimate (some e)) l).finish

end Ledger

end HeapAudit
