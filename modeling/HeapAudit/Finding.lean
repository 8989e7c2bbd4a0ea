import HeapAudit.Event

namespace HeapAudit

inductive Severity where
  | high
  | medium
  | low
  | info
  deriving DecidableEq, Repr

def Severity.name : Severity → String
  | .high => "high"
  | .medium => "medium"
  | .low => "low"
  | .info => "info"

inductive LeakKind where
  /-- The variable was bound again while its memory was live. -/
  | reassignment
  /-- The memory was live at the end. -/
  | unreleased
  deriving DecidableEq, Repr

def LeakKind.name : LeakKind → String
  | .reassignment => "reassignment"
  | .unreleased => "unreleased"

def LeakKind.title : LeakKind → String
  | .reassignment => "Reassignment"
  | .unreleased => "Unreleased"

def LeakKind.capitals : LeakKind → String
  | .reassignment => "REASSIGNMENT"
  | .unreleased => "UNRELEASED"

inductive WarningKind where
  | potentialDoubleFree
  | doubleFree
  | mismatchedDeallocation
  | unsafeFunction
  | analysisError
  deriving DecidableEq, Repr

namespace WarningKind

def all : List WarningKind :=
  [potentialDoubleFree, doubleFree, mismatchedDeallocation, unsafeFunction, analysisError]

def name : WarningKind → String
  | potentialDoubleFree => "Potential Double Free"
  | doubleFree => "Double Free"
  | mismatchedDeallocation => "Mismatched Deallocation"
  | unsafeFunction => "Unsafe Function"
  | analysisError => "Analysis Error"

def severity : WarningKind → Severity
  | potentialDoubleFree => .medium
  | doubleFree => .high
  | mismatchedDeallocation => .high
  | unsafeFunction => .medium
  | analysisError => .info

end WarningKind

structure Allocation where
  id : String
  var : String
  line : LineNo
  primitive : String
  size : Int
  inLoop : Bool := false
  function : Option String := none
  isArray : Bool := false
  lineText : String := ""
  deriving DecidableEq, Repr

structure Free where
  var : String
  line : LineNo
  primitive : String
  /-- The allocation that was freed. -/
  freed : String
  lineText : String := ""
  deriving DecidableEq, Repr

structure Leak where
  var : String
  line : LineNo
  primitive : String
  size : Int
  inLoop : Bool
  function : Option String
  kind : LeakKind
  fix : String
  id : String
  deriving DecidableEq, Repr

def Leak.severity (_ : Leak) : Severity := .high

structure Warning where
  kind : WarningKind
  line : LineNo
  message : String
  lineText : String := ""
  var : Option String := none
  deriving DecidableEq, Repr

def Warning.severity (w : Warning) : Severity := w.kind.severity

end HeapAudit
