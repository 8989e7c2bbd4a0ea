import HeapAudit.Event
import HeapAudit.Form
import HeapAudit.Scope

namespace HeapAudit.LineScan
open Text

/-- The forms to look for, in order. -/
structure Tables where
  acquisitions : List AcquisitionForm := acquisitionForms
  releases : List ReleaseForm := ReleaseForm.all

/-- A statement that is not complete yet. -/
structure Pending where
  /-- The lines so far, trimmed and without the mark of continuation. -/
  parts : List Chars
  balance : Int
  /-- The number and the trimmed text of the first line. -/
  line : Nat
  head : Chars
  deriving DecidableEq, Repr

structure State where
  scopes : List Scope := []
  depth : Int := 0
  pending : Option Pending := none
  /-- A directive goes on in the next line. -/
  inDirective : Bool := false
  events : List Event := []

def acquisition? (tables : Tables) (scopes : List Scope) (line : Nat) (head segment : Chars) :
    Option Event :=
  (tables.acquisitions.findSome? (·.find? segment)).map fun found =>
    { kind := .allocation
      var := String.ofList found.var
      line := some line
      primitive := found.primitive
      arguments := .text (String.ofList found.arguments)
      function := Scope.function? scopes
      inLoop := Scope.inLoop scopes
      isArray := found.isArray
      lineText := String.ofList head }

def release? (tables : Tables) (scopes : List Scope) (line : Nat) (head segment : Chars) :
    Option Event :=
  (tables.releases.findSome? fun form => (form.find? segment).map (form, ·)).map
    fun (form, var) =>
      { kind := .deallocation
        var := String.ofList var
        line := some line
        primitive := form.primitive
        function := Scope.function? scopes
        inLoop := Scope.inLoop scopes
        isArray := form.isArray
        lineText := String.ofList head }

/-- A segment gives at most one acquisition and then at most one release. -/
def segmentEvents (tables : Tables) (scopes : List Scope) (line : Nat) (head segment : Chars) :
    List Event :=
  (acquisition? tables scopes line head segment).toList ++
    (release? tables scopes line head segment).toList

def Pending.statement (p : Pending) : Chars := joinWith [' '] p.parts

def Pending.events (tables : Tables) (scopes : List Scope) (p : Pending) : List Event :=
  (Statement.segments p.statement).flatMap (segmentEvents tables scopes p.line p.head)

def isContinued (line : Chars) : Bool := endsWith ['\\'] line

/-- A trimmed line without its mark of continuation. -/
def contents (line : Chars) : Chars :=
  if isContinued line then trimRight line.dropLast else line

def Pending.add (pending : Option Pending) (number : Nat) (line : Chars) : Pending :=
  let text := contents line
  let balance := Statement.bracketBalance text
  match pending with
  | some p => { p with parts := p.parts ++ [text], balance := p.balance + balance }
  | none => { parts := [text], balance, line := number, head := line }

/-- Whether the statement is complete with this line. -/
def completes (language : Language) (p : Pending) (line : Chars) : Bool :=
  if isContinued line then false
  else if language.endsAtNewline then p.balance ≤ 0
  else endsWith [';'] line || endsWith ['{'] line || endsWith ['}'] line

def State.flush (tables : Tables) (s : State) : State :=
  match s.pending with
  | some p => { s with pending := none, events := s.events ++ p.events tables s.scopes }
  | none => s

/-- A trimmed line that is neither blank nor part of a directive, with its indentation. -/
def State.take (language : Language) (tables : Tables) (s : State) (number : Nat)
    (indentation : Nat) (line : Chars) : State :=
  let scopes :=
    if language.indented && s.pending.isNone then Scope.closeIndented indentation s.scopes
    else s.scopes
  let level : Int := if language.indented then indentation else s.depth
  let scopes := Scope.openHeads level line scopes
  let closes := line.count '}'
  let depth := s.depth + (line.count '{' : Nat) - (closes : Nat)
  let scopes := if language.indented then scopes else Scope.markBraced depth scopes
  let pending := Pending.add s.pending number line
  let completed := completes language pending line
  let s := { s with scopes, depth, pending := some pending }
  let s := if completed then s.flush tables else s
  if language.indented then s
  else { s with scopes := Scope.closeBraced depth (0 < closes) completed s.scopes }

/-- Whether a trimmed line starts a directive or continues one. -/
def State.isDirective (language : Language) (s : State) (line : Chars) : Bool :=
  s.inDirective || (language.hasDirectives && line.head? == some '#' && s.pending.isNone)

def State.scanLine (language : Language) (tables : Tables) (s : State) (number : Nat)
    (line : Chars) : State :=
  let trimmed := trim line
  if trimmed.isEmpty then s
  else if s.isDirective language trimmed then { s with inDirective := isContinued trimmed }
  else s.take language tables number (indent line) trimmed

def scanLines (language : Language) (tables : Tables) :
    (s : State) → (number : Nat) → List Chars → State
  | s, _, [] => s
  | s, number, line :: rest =>
    scanLines language tables (s.scanLine language tables number line) (number + 1) rest

/-- The events of a source whose comments have been removed. A statement that is still open at the
end is read as it is. -/
def extract (language : Language) (tables : Tables) (source : String) : List Event :=
  ((scanLines language tables {} 1 (lines source.toList)).flush tables).events

end HeapAudit.LineScan
