import HeapAudit.Number.Shortest
import HeapAudit.Text.Quoted

namespace HeapAudit
open Number

/-- A value that is known only when a source or a request is read: an evaluated argument of a call,
or a field of a request that may hold anything. -/
inductive Value where
  | null
  | bool (b : Bool)
  | int (n : Int)
  | real (x : Binary64)
  | text (s : String)
  | list (vs : List Value)
  | record (fields : List (String × Value))
  deriving Inhabited

namespace Value

mutual

/-- The text of a value inside other text: strings are quoted. -/
def shown : Value → String
  | .null => "None"
  | .bool b => if b then "True" else "False"
  | .int n => toString n
  | .real x => x.text
  | .text s => Text.quote s
  | .list vs => "[" ++ ", ".intercalate (shownAll vs) ++ "]"
  | .record fields => "\x7b" ++ ", ".intercalate (shownFields fields) ++ "\x7d"

def shownAll : List Value → List String
  | [] => []
  | v :: vs => shown v :: shownAll vs

def shownFields : List (String × Value) → List String
  | [] => []
  | (k, v) :: fields => (Text.quote k ++ ": " ++ shown v) :: shownFields fields

end

/-- The text of a value on its own: a string stands for itself. -/
def plain : Value → String
  | .text s => s
  | v => v.shown

/-- Null, false, zero and everything empty do not hold. -/
def holds : Value → Bool
  | .null => false
  | .bool b => b
  | .int n => n != 0
  | .real x => !x.isZero
  | .text s => !s.isEmpty
  | .list vs => !vs.isEmpty
  | .record fields => !fields.isEmpty

def typeName : Value → String
  | .null => "NoneType"
  | .bool _ => "bool"
  | .int _ => "int"
  | .real _ => "float"
  | .text _ => "str"
  | .list _ => "list"
  | .record _ => "dict"

def isNumber : Value → Bool
  | .int _ | .real _ => true
  | _ => false

end Value

end HeapAudit
