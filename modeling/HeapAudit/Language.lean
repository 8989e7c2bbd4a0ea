import HeapAudit.Text.Lower
import HeapAudit.Value

namespace HeapAudit

inductive Language where
  | c
  | cpp
  | javascript
  | python
  | java
  | rust
  | go
  deriving DecidableEq, Repr

namespace Language

def all : List Language := [c, cpp, javascript, python, java, rust, go]

def name : Language → String
  | c => "c"
  | cpp => "cpp"
  | javascript => "javascript"
  | python => "python"
  | java => "java"
  | rust => "rust"
  | go => "go"

/-- Other names in use. -/
def aliases : List (String × Language) :=
  [("c++", cpp), ("cxx", cpp), ("js", javascript), ("node", javascript), ("py", python),
    ("rs", rust), ("golang", go)]

/-- A name as it is looked up: trimmed and in small letters. -/
def key (name : String) : String := Text.lower (Text.strip name)

def ofName? (text : String) : Option Language :=
  let k := key text
  match aliases.find? (·.1 = k) with
  | some (_, l) => some l
  | none => all.find? (·.name = k)

/-- Only text names a language. -/
def ofValue? : Value → Option Language
  | .text s => ofName? s
  | _ => none

/-- A name that is not known is read as C. -/
def resolve (v : Value) : Language := (ofValue? v).getD c

/-- The name a result carries: the language's own name, or what was asked for, trimmed and in
small letters. -/
def requestedName : Value → String
  | .null => name c
  | v => match ofValue? v with
    | some l => l.name
    | none => key v.plain

def isCFamily : Language → Bool
  | c | cpp => true
  | _ => false

/-- Bytes taken by one counted element. -/
def elementSize : Language → Nat
  | javascript | python | rust | go => 8
  | java | c | cpp => 4

/-- Statements end with the line unless a bracket is open. -/
def endsAtNewline : Language → Bool
  | python | go => true
  | _ => false

/-- Bodies are delimited by indentation instead of braces. -/
def indented : Language → Bool
  | python => true
  | _ => false

/-- Lines that start with a hash are directives or comments. -/
def hasDirectives : Language → Bool
  | javascript => false
  | _ => true

def extensions : List (String × Language) :=
  [(".c", c), (".h", c), (".cpp", cpp), (".cc", cpp), (".cxx", cpp), (".hpp", cpp), (".hh", cpp),
    (".js", javascript), (".mjs", javascript), (".cjs", javascript), (".jsx", javascript),
    (".py", python), (".java", java), (".rs", rust), (".go", go)]

def ofExtension? (extension : String) : Option Language :=
  (extensions.find? (·.1 = Text.lower extension)).map (·.2)

def unsupported (asked : String) : String :=
  "Unsupported language: " ++ asked ++ " (expected one of " ++
    ", ".intercalate (all.map name) ++ ")"

end Language

end HeapAudit
