import HeapAudit.Text.Utf8

namespace HeapAudit.Syntax
open Text

/-- The kinds of node that carry meaning here; every other kind is only named. -/
inductive Kind where
  | declarator
  | lexicalDeclaration
  | variableDeclaration
  | assignment
  | construction
  | binary
  | array
  | object
  | pair
  | shorthand
  | method
  | spread
  | identifier
  | member
  | number
  | null
  | undefined
  | comment
  | functionDeclaration
  | generatorDeclaration
  | functionExpression
  | function
  | generatorFunction
  | arrow
  | forLoop
  | forInLoop
  | whileLoop
  | doLoop
  | other (name : String)
  deriving DecidableEq, Repr, Inhabited

namespace Kind

def names : List (String × Kind) :=
  [("variable_declarator", declarator), ("lexical_declaration", lexicalDeclaration),
    ("variable_declaration", variableDeclaration), ("assignment_expression", assignment),
    ("new_expression", construction), ("binary_expression", binary), ("array", array),
    ("object", object), ("pair", pair), ("shorthand_property_identifier", shorthand),
    ("method_definition", method), ("spread_element", spread), ("identifier", identifier),
    ("member_expression", member), ("number", number), ("null", null),
    ("undefined", undefined), ("comment", comment), ("function_declaration", functionDeclaration),
    ("generator_function_declaration", generatorDeclaration),
    ("function_expression", functionExpression), ("function", function),
    ("generator_function", generatorFunction), ("arrow_function", arrow),
    ("for_statement", forLoop), ("for_in_statement", forInLoop), ("while_statement", whileLoop),
    ("do_statement", doLoop)]

def ofName (name : String) : Kind :=
  ((names.find? (·.1 = name)).map (·.2)).getD (other name)

def isFunction : Kind → Bool
  | functionDeclaration | generatorDeclaration | functionExpression | function
  | generatorFunction | arrow | method => true
  | _ => false

def isLoop : Kind → Bool
  | forLoop | forInLoop | whileLoop | doLoop => true
  | _ => false

/-- Kinds that count as members of an object. -/
def isMember : Kind → Bool
  | pair | shorthand | method | spread => true
  | _ => false

def isDeclaration : Kind → Bool
  | lexicalDeclaration | variableDeclaration => true
  | _ => false

end Kind

inductive Field where
  | name
  | value
  | constructor
  | arguments
  | left
  | right
  | operator
  | key
  | other (name : String)
  deriving DecidableEq, Repr

def Field.ofName : String → Field
  | "name" => .name
  | "value" => .value
  | "constructor" => .constructor
  | "arguments" => .arguments
  | "left" => .left
  | "right" => .right
  | "operator" => .operator
  | "key" => .key
  | unnamed => .other unnamed

/-- A node knows its kind, the field of its parent that it fills, the bytes it covers and the row it
starts on. -/
structure Node where
  kind : Kind
  named : Bool
  field : Option Field
  /-- The first byte, and the first byte after the node. -/
  first : Int
  past : Int
  row : Int
  children : List Node
  deriving Inhabited

namespace Node

/-- The first child that fills a field. -/
def child? (n : Node) (f : Field) : Option Node := n.children.find? (·.field = some f)

theorem child?_mem {n c : Node} {f : Field} (h : n.child? f = some c) : c ∈ n.children :=
  List.mem_of_find?_eq_some h

theorem sizeOf_lt_of_mem {n c : Node} (h : c ∈ n.children) : sizeOf c < sizeOf n := by
  cases n
  have := List.sizeOf_lt_of_mem h
  simp only [mk.sizeOf_spec]
  dsimp only at this
  omega

/-- The node as the filling of a field. -/
def filling (n : Node) (f : Field) : Node := { n with field := some f }

/-- Named children other than comments. -/
def items (n : Node) : List Node := n.children.filter fun c => c.named && c.kind != .comment

mutual

/-- The number of nodes of a tree. -/
def count : Node → Nat
  | ⟨_, _, _, _, _, _, children⟩ => countAll children + 1

def countAll : List Node → Nat
  | [] => 0
  | n :: ns => count n + countAll ns

end

end Node

/-- A source with its bytes and its lines. -/
structure Source where
  bytes : Array UInt8
  lines : Array Chars

namespace Source

def ofText (text : String) : Source :=
  { bytes := (encode text.toList).toArray, lines := (Text.lines text.toList).toArray }

/-- A byte position: a negative one counts from the end, and one out of range is moved to the
nearest end. -/
def position (s : Source) (i : Int) : Nat :=
  let size : Int := s.bytes.size
  (min (if i < 0 then max 0 (i + size) else i) size).toNat

def text (s : Source) (n : Node) : String :=
  String.ofList (decode (s.bytes.extract (s.position n.first) (s.position n.past)).toList)

/-- The trimmed text of a line, counted from one. -/
def lineText (s : Source) (line : Int) : String :=
  if 0 < line ∧ line ≤ s.lines.size then
    String.ofList (trim (s.lines.getD (line - 1).toNat []))
  else ""

end Source

end HeapAudit.Syntax
