import HeapAudit.Statement
import HeapAudit.Text.Scan

namespace HeapAudit
open Text

/-- How the variable is written before the equals sign. -/
inductive Binding where
  /-- `type *name =` -/
  | spacedPointer
  /-- `type* name =` -/
  | attachedPointer
  /-- `name =` -/
  | plain
  deriving DecidableEq, Repr

/-- What is written after the equals sign. -/
inductive Maker where
  /-- `malloc(…)` -/
  | call
  /-- `(type) malloc(…)` -/
  | castCall
  /-- `new Type(…)` -/
  | construct
  /-- `new Type[…]` -/
  | constructArray
  /-- `new Type` -/
  | constructPlain
  deriving DecidableEq, Repr

/-- What a form found in a segment. -/
structure Found where
  var : Chars
  primitive : String
  arguments : Chars
  isArray : Bool
  deriving DecidableEq, Repr

/-- The variable and the text after the equals sign. -/
def assigned? (cs : Chars) : Option (Chars × Chars) := do
  let (var, rest) ← word? cs
  let rest ← char? '=' (trimLeft rest)
  some (var, trimLeft rest)

def Binding.read? : Binding → Chars → Option (Chars × Chars)
  | .plain, cs => assigned? cs
  | .spacedPointer, cs => do
    let (_, rest) ← word? cs
    let rest ← blanks? rest
    let rest ← char? '*' rest
    assigned? (trimLeft rest)
  | .attachedPointer, cs => do
    let (_, rest) ← word? cs
    let rest ← char? '*' rest
    assigned? (trimLeft rest)

def allocators : List String := ["malloc", "calloc", "realloc"]

/-- The allocator called here, and the text after its opening parenthesis. -/
def allocatorCall? (cs : Chars) : Option (String × Chars) :=
  allocators.findSome? fun f => (opens? f.toList '(' cs).map (f, ·)

/-- A cast: anything up to the first closing parenthesis. -/
def cast? (cs : Chars) : Option Chars := do
  let rest ← char? '(' cs
  let rest ← char? ')' (rest.dropWhile (· ≠ ')'))
  some (trimLeft rest)

def isTypeChar (c : Char) : Bool := isWord c || c == ':' || c == '.'

/-- `new` and a type's name. -/
def newType? (cs : Chars) : Option Chars := do
  let rest ← literal? "new".toList cs
  let rest ← blanks? rest
  let (_, rest) ← run? isTypeChar rest
  some rest

def isTypeArgumentChar (c : Char) : Bool := c != ';' && c != '(' && c != ')'

/-- Tries `f` after each `>` of a reversed text, the last one first. -/
def afterAngle {α : Type} (f : Chars → Option α) : (before after : Chars) → Option α
  | [], _ => none
  | c :: before, after =>
    match if c = '>' then f after else none with
    | some a => some a
    | none => afterAngle f before (c :: after)

/-- Type arguments in angle brackets, which reach as far as `f` allows, or none at all. -/
def pastTypeArguments {α : Type} (f : Chars → Option α) (cs : Chars) : Option α :=
  let inside := (char? '<' (trimLeft cs)).bind fun rest =>
    afterAngle f (rest.takeWhile isTypeArgumentChar).reverse (rest.dropWhile isTypeArgumentChar)
  inside <|> f cs

def opening? (cs : Chars) : Option Chars := char? '(' (trimLeft cs)

/-- The text in square brackets, which is not empty. -/
def elementCount? (cs : Chars) : Option Chars := do
  let rest ← char? '[' (trimLeft cs)
  let inside := rest.takeWhile (· ≠ ']')
  let _ ← char? ']' (rest.dropWhile (· ≠ ']'))
  if inside.isEmpty then none else some (trim inside)

def Maker.read? : Maker → (var rest : Chars) → Option Found
  | .call, var, rest => do
    let (f, rest) ← allocatorCall? rest
    some ⟨var, f, Statement.callArguments rest, false⟩
  | .castCall, var, rest => do
    let rest ← cast? rest
    let (f, rest) ← allocatorCall? rest
    some ⟨var, f, Statement.callArguments rest, false⟩
  | .construct, var, rest => do
    let rest ← newType? rest
    let rest ← pastTypeArguments opening? rest
    some ⟨var, "new", Statement.callArguments rest, false⟩
  | .constructArray, var, rest => do
    let rest ← newType? rest
    let count ← pastTypeArguments elementCount? rest
    some ⟨var, "new[]", count, true⟩
  | .constructPlain, var, rest => do
    let _ ← newType? rest
    some ⟨var, "new", [], false⟩

structure AcquisitionForm where
  name : String
  binding : Binding
  maker : Maker
  deriving DecidableEq, Repr

def AcquisitionForm.at? (form : AcquisitionForm) (cs : Chars) : Option Found := do
  let (var, rest) ← form.binding.read? cs
  form.maker.read? var rest

def AcquisitionForm.find? (form : AcquisitionForm) (segment : Chars) : Option Found :=
  searchWord form.at? segment

/-- The forms are tried in order, each from the left of a segment, and the first that is found
decides. -/
def acquisitionForms : List AcquisitionForm :=
  [⟨"typed_pointer", .spacedPointer, .call⟩,
    ⟨"typed_pointer_attached", .attachedPointer, .call⟩,
    ⟨"cast_assignment", .plain, .castCall⟩,
    ⟨"assignment", .plain, .call⟩,
    ⟨"typed_new_call", .spacedPointer, .construct⟩,
    ⟨"typed_new_call_attached", .attachedPointer, .construct⟩,
    ⟨"typed_new_array", .spacedPointer, .constructArray⟩,
    ⟨"typed_new_array_attached", .attachedPointer, .constructArray⟩,
    ⟨"typed_new", .spacedPointer, .constructPlain⟩,
    ⟨"typed_new_attached", .attachedPointer, .constructPlain⟩,
    ⟨"new_call", .plain, .construct⟩,
    ⟨"new_array", .plain, .constructArray⟩,
    ⟨"new", .plain, .constructPlain⟩]

inductive ReleaseForm where
  | free
  | deleteArray
  | delete
  deriving DecidableEq, Repr

namespace ReleaseForm

def name : ReleaseForm → String
  | free => "free"
  | deleteArray => "delete_array"
  | delete => "delete"

def primitive : ReleaseForm → String
  | free => "free"
  | deleteArray => "delete[]"
  | delete => "delete"

def isArray : ReleaseForm → Bool
  | deleteArray => true
  | _ => false

/-- The variable released here. -/
def at? : ReleaseForm → Chars → Option Chars
  | free, cs => do
    let rest ← opens? "free".toList '(' cs
    let (var, rest) ← word? (trimLeft rest)
    let _ ← char? ')' (trimLeft rest)
    some var
  | deleteArray, cs => do
    let rest ← opens? "delete".toList '[' cs
    let rest ← char? ']' (trimLeft rest)
    let rest := trimLeft rest
    let (var, _) ← word? (((char? '(' rest).map trimLeft).getD rest)
    some var
  | delete, cs => do
    let rest ← literal? "delete".toList cs
    let rest ← ((opening? rest).map trimLeft) <|> blanks? rest
    let (var, _) ← word? rest
    some var

def find? (form : ReleaseForm) (segment : Chars) : Option Chars := searchWord form.at? segment

def all : List ReleaseForm := [free, deleteArray, delete]

end ReleaseForm

end HeapAudit
