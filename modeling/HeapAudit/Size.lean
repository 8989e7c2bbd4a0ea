import HeapAudit.Event
import HeapAudit.Language
import HeapAudit.Number.Read
import HeapAudit.Statement
import HeapAudit.Text.Scan

namespace HeapAudit.Size
open Text Number

def typeSizes : List (String × Nat) :=
  [("char", 1), ("int", 4), ("float", 4), ("double", 8), ("long long", 8)]

def defaultTypeSize : Nat := 4

/-- The first keyword that occurs in a type's name decides. -/
def ofType (name : Chars) : Nat :=
  ((typeSizes.find? fun (keyword, _) => occurs keyword.toList name).map (·.2)).getD defaultTypeSize

/-- Why argument text could not be measured; the language's element size is used instead. -/
inductive Doubt where
  | numeral (e : NumeralError)
  | notText (type : String)
  | notList (type : String)
  /-- An integer has too many digits to be written. -/
  | unwritable
  deriving DecidableEq, Repr

def Doubt.message : Doubt → String
  | .numeral (.malformed text) => "invalid literal for int() with base 10: " ++ Text.quote text
  | .numeral (.tooLong digits) =>
    "Exceeds the limit (" ++ toString digitLimit ++
      " digits) for integer string conversion: value has " ++ toString digits ++
      " digits; use sys.set_int_max_str_digits() to increase the limit"
  | .notText type => "expected string or bytes-like object, got '" ++ type ++ "'"
  | .notList type => "'" ++ type ++ "' object is not iterable"
  | .unwritable => unwritableMessage

/-- The value of a run of decimal digits. -/
def numeral (cs : Chars) : Except Doubt Nat := (readDigits cs).mapError .numeral

/-- Zero counts as one. -/
def atLeastOne (n : Nat) : Nat := if n = 0 then 1 else n

/-- A count made of digits; anything else counts as one. -/
def count (cs : Chars) : Except Doubt Nat :=
  let text := trim cs
  if text.isEmpty || !text.all isFigure then .ok 1
  else if text.all isDigit then (numeral text).map atLeastOne
  else .error (.numeral (.malformed (String.ofList text)))

/-- The first run of digits that does not continue a name. -/
def firstInteger (cs : Chars) : Except Doubt (Option Nat) :=
  match searchName (run? isDigit) cs with
  | some (digits, _) => (numeral digits).map some
  | none => .ok none

def firstIntegerOrOne (cs : Chars) : Except Doubt Nat :=
  (firstInteger cs).map fun n => atLeastOne (n.getD 1)

/-- `sizeof(type)`: the type, trimmed, and the text after it. -/
def sizeOf? (cs : Chars) : Option (Chars × Chars) := do
  let rest ← opens? "sizeof".toList '(' cs
  let isInside := fun c => c != '(' && c != ')'
  let after ← char? ')' (rest.dropWhile isInside)
  some (trim (rest.takeWhile isInside), after)

/-- `count * sizeof(type)`, as the count and the type. -/
def countTimesType? (cs : Chars) : Option (Chars × Chars) := do
  let (n, rest) ← run? isNamePart cs
  let rest ← char? '*' (trimLeft rest)
  let (type, _) ← sizeOf? (trimLeft rest)
  some (n, type)

/-- `sizeof(type) * count`, as the count and the type. -/
def typeTimesCount? (cs : Chars) : Option (Chars × Chars) := do
  let (type, rest) ← sizeOf? cs
  let rest ← char? '*' (trimLeft rest)
  let (n, _) ← run? isNamePart (trimLeft rest)
  some (n, type)

def product? (cs : Chars) : Option (Chars × Chars) :=
  searchName countTimesType? cs <|> search (fun _ => true) typeTimesCount? none cs

/-- Count and size of the elements, each of them a bare number or one. -/
def ofCalloc (cs : Chars) : Except Doubt Nat := do
  let parts := Statement.argumentList cs
  let n ← count (parts.getD 0 [])
  let size ← count (parts.getD 1 [])
  .ok (n * size)

def ofText (primitive : String) (cs : Chars) : Except Doubt Nat :=
  if primitive = "calloc" then ofCalloc cs
  else if primitive = "new[]" then (firstIntegerOrOne cs).map (· * defaultTypeSize)
  else if primitive = "new" then .ok defaultTypeSize
  else match product? cs with
    | some (n, type) => (count n).map (· * ofType type)
    | none => firstIntegerOrOne cs

def isWritable : Value → Bool
  | .int n => Number.isWritable n
  | _ => true

/-- The text of evaluated arguments; a value that is not known leaves a gap. -/
def argumentText (vs : List Value) : Except Doubt Chars :=
  if vs.all isWritable then
    .ok (", ".intercalate (vs.map fun
      | .null => ""
      | v => v.plain)).toList
  else .error .unwritable

/-- The size of a call in C or C++. -/
def ofCall (primitive : String) : Arguments → Except Doubt Nat
  | .text s => ofText primitive s.toList
  | .values vs => (argumentText vs).bind (ofText primitive)
  | .single v =>
    if !v.holds then ofText primitive []
    else if primitive = "new" then .ok defaultTypeSize
    else if primitive = "calloc" then .error (.notList v.typeName)
    else .error (.notText v.typeName)

/-- A size before it is made whole. -/
inductive Amount where
  | whole (n : Int)
  | real (x : Binary64)
  deriving DecidableEq, Repr

def leadingInteger (cs : Chars) : Except Doubt Nat :=
  match run? isDigit (trimLeft cs) with
  | some (digits, _) => (numeral digits).map atLeastOne
  | none => .ok 1

/-- Elements of a size, counted by the first argument; a count of zero is one. -/
def ofElements (element : Nat) : Arguments → Except Doubt Amount
  | .values (.int n :: _) => .ok (.whole (element * (if n = 0 then 1 else n)))
  | .values (.real x :: _) =>
    .ok (if x.isZero then .whole element
      else .real ((Binary64.ofRatio false element 1).mul x))
  | .values _ => .ok (.whole element)
  | .text s => (leadingInteger s.toList).map fun n => .whole (element * n : Nat)
  | .single v =>
    if v.holds then (leadingInteger v.plain.toList).map fun n => .whole (element * n : Nat)
    else .ok (.whole element)

def measure (language : Language) (e : Event) : Except Doubt Amount :=
  if language.isCFamily then (ofCall e.primitive e.arguments).map fun n => .whole n
  else ofElements language.elementSize e.arguments

/-- Why an event has no size at all. -/
inductive Unsizable where
  | infinite
  | notANumber
  deriving DecidableEq, Repr

def Unsizable.message : Unsizable → String
  | .infinite => "cannot convert float infinity to integer"
  | .notANumber => "cannot convert float NaN to integer"

def Amount.toWhole : Amount → Except Unsizable Int
  | .whole n => .ok n
  | .real (.finite s m e) => .ok (Binary64.whole s m e)
  | .real (.infinite _) => .error .infinite
  | .real .nan => .error .notANumber

/-- How many bytes an acquisition takes, at least one. In C and C++ the argument text decides;
elsewhere the first number counts elements of the size that the language has for them. -/
def estimate (language : Language) (e : Event) : Except Unsizable Int :=
  let amount := match measure language e with
    | .ok amount => amount
    | .error _ => .whole language.elementSize
  amount.toWhole.map (max 1)

/-- What could not be measured about an event, for diagnostics. -/
def doubt? (language : Language) (e : Event) : Option Doubt :=
  match measure language e with
  | .ok _ => none
  | .error d => some d

end HeapAudit.Size
