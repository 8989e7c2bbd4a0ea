import HeapAudit.Value

namespace HeapAudit

/-- A line number; some events have none. -/
abbrev LineNo := Option Int

def LineNo.text (line : LineNo) : String :=
  match line with
  | some n => toString n
  | none => "None"

/-- What stands between the brackets of an acquisition: text as written, values already evaluated,
or a single value. -/
inductive Arguments where
  | text (s : String)
  | values (vs : List Value)
  | single (v : Value)

inductive EventKind where
  | allocation
  | deallocation
  /-- Neither of the two; such an event changes nothing. -/
  | unclassified
  deriving DecidableEq, Repr

/-- Memory that is acquired and bound to a variable, or memory of a variable that is released. -/
structure Event where
  kind : EventKind
  var : String
  line : LineNo
  primitive : String
  arguments : Arguments := .text ""
  function : Option String := none
  inLoop : Bool := false
  isArray : Bool := false
  lineText : String := ""

def EventKind.name : EventKind → String
  | .allocation => "Allocation"
  | .deallocation => "Deallocation"
  | .unclassified => "MemoryEvent"

def Arguments.shown : Arguments → String
  | .text s => s
  | .values vs => ", ".intercalate (vs.map Value.shown)
  | .single v => v.plain

def Event.summary (e : Event) : String :=
  match e.kind with
  | .deallocation => e.primitive ++ "(" ++ e.var ++ ") @" ++ e.line.text
  | _ => e.var ++ " = " ++ e.primitive ++ "(" ++ e.arguments.shown ++ ") @" ++ e.line.text

/-- A list of values in round brackets; a single one keeps its comma. -/
def Arguments.quoted : Arguments → String
  | .text s => Text.quote s
  | .values [v] => "(" ++ v.shown ++ ",)"
  | .values vs => "(" ++ ", ".intercalate (vs.map Value.shown) ++ ")"
  | .single v => v.shown

/-- Every field of an event, for diagnostics. -/
def Event.fields (e : Event) : String :=
  e.kind.name ++ "(variable=" ++ Text.quote e.var ++ ", line=" ++ e.line.text ++
    ", primitive=" ++ Text.quote e.primitive ++ ", raw_arguments=" ++ e.arguments.quoted ++
    ", enclosing_function=" ++ (e.function.map Text.quote).getD "None" ++
    ", in_loop=" ++ (Value.bool e.inLoop).shown ++
    ", is_array_form=" ++ (Value.bool e.isArray).shown ++
    ", line_text=" ++ Text.quote e.lineText ++ ")"

end HeapAudit
