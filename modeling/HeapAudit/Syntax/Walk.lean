import HeapAudit.Event
import HeapAudit.Syntax.Evaluate

namespace HeapAudit.Syntax

/-- The name a function has, or the one it is bound to. -/
def functionName (source : Source) (n : Node) (parent : Option Node) : String :=
  let bound := parent.bind fun p =>
    match p.kind with
    | .declarator => p.child? .name
    | .pair => p.child? .key
    | .assignment => p.child? .left
    | _ => none
  match n.child? .name <|> bound with
  | some name => source.text name
  | none => "anonymous"

/-- What a declared value makes. -/
structure Making where
  primitive : String
  arguments : List Value
  isArray : Bool

def constructed (source : Source) (value : Node) : Making :=
  let primitive := match value.child? .constructor with
    | some c => if c.kind = .identifier ∨ c.kind = .member then source.text c else "new"
    | none => "new"
  let items := ((value.child? .arguments).map Node.items).getD []
  ⟨primitive, items.map (evaluate source maxNesting), primitive == "Array"⟩

def making? (source : Source) (value : Node) : Option Making :=
  match value.kind with
  | .construction => some (constructed source value)
  | .array => some ⟨"Array", [.int value.items.length], true⟩
  | .object =>
    let members := value.children.filter fun c => c.named && c.kind.isMember
    some ⟨"Object", [.int members.length], false⟩
  | _ => none

/-- A node to visit and what is around it. -/
structure Visit where
  node : Node
  parent : Option Node
  function : Option String
  inLoop : Bool

def Visit.acquisition? (source : Source) (v : Visit) : Option Event := do
  let value ← v.node.child? .value
  let made ← making? source value
  let var := match v.node.child? .name with
    | some name => if name.kind = .identifier then source.text name else "unknown"
    | none => "unknown"
  let anchor := (v.parent.filter (·.kind.isDeclaration)).getD v.node
  let line := anchor.row + 1
  some
    { kind := .allocation, var, line := some line, primitive := made.primitive,
      arguments := .values made.arguments, function := v.function, inLoop := v.inLoop,
      isArray := made.isArray, lineText := source.lineText line }

def isNull (source : Source) (n : Node) : Bool :=
  match n.kind with
  | .null | .undefined => true
  | .identifier => source.text n == "undefined"
  | _ => false

def Visit.release? (source : Source) (v : Visit) : Option Event := do
  let left ← v.node.child? .left
  let right ← v.node.child? .right
  if left.kind = .identifier ∧ isNull source right then
    let line := v.node.row + 1
    some
      { kind := .deallocation, var := source.text left, line := some line,
        primitive := "null-assignment", function := v.function, inLoop := v.inLoop,
        lineText := source.lineText line }
  else none

def Visit.event? (source : Source) (v : Visit) : Option Event :=
  match v.node.kind with
  | .declarator => v.acquisition? source
  | .assignment => v.release? source
  | _ => none

/-- The visits to the children of a node: a function starts anew, a loop is around its parts. -/
def Visit.inner (source : Source) (v : Visit) : List Visit :=
  let kind := v.node.kind
  let function :=
    if kind.isFunction then some (functionName source v.node v.parent) else v.function
  let inLoop := if kind.isFunction then false else v.inLoop || kind.isLoop
  v.node.children.map fun c => { node := c, parent := some v.node, function, inLoop }

/-- The number of nodes that are still to be visited. -/
def weight (stack : List Visit) : Nat := Node.countAll (stack.map Visit.node)

theorem countAll_append (ns ms : List Node) :
    Node.countAll (ns ++ ms) = Node.countAll ns + Node.countAll ms := by
  induction ns with
  | nil => simp [Node.countAll]
  | cons n ns ih => simp only [List.cons_append, Node.countAll, ih, Nat.add_assoc]

theorem weight_inner (source : Source) (v : Visit) (stack : List Visit) :
    weight (v.inner source ++ stack) < weight (v :: stack) := by
  have h : v.node.count = Node.countAll v.node.children + 1 := by
    cases v.node
    rfl
  have inner : (v.inner source).map Visit.node = v.node.children := by
    simp [Visit.inner, Function.comp_def]
  simp only [weight, List.map_append, List.map_cons, countAll_append, Node.countAll, h, inner]
  omega

/-- Visits a stack of nodes until it is empty. -/
def walkFrom (source : Source) (done : List Event) : List Visit → List Event
  | [] => done.reverse
  | v :: stack =>
    walkFrom source ((v.event? source).toList ++ done) (v.inner source ++ stack)
termination_by stack => weight stack
decreasing_by exact weight_inner source v stack

/-- The nodes are visited parents first and left to right, each with the innermost function around
it and whether a loop of that function is around it. -/
def walk (source : Source) (root : Node) : List Event :=
  walkFrom source [] [{ node := root, parent := none, function := none, inLoop := false }]

/-- The doubts about the arguments of the constructions that are declared, in order. -/
def walkDoubts (source : Source) (done : List Doubt) : List Visit → List Doubt
  | [] => done.reverse
  | v :: stack =>
    let items := if v.node.kind = .declarator then
        (((v.node.child? .value).filter (·.kind = .construction)).bind
          (·.child? .arguments)).map Node.items
      else none
    let found := (items.getD []).flatMap (doubts source maxNesting)
    walkDoubts source (found.reverse ++ done) (v.inner source ++ stack)
termination_by stack => weight stack
decreasing_by exact weight_inner source v stack

def remarks (source : Source) (root : Node) : List String :=
  (walkDoubts source [] [{ node := root, parent := none, function := none, inLoop := false }]).map
    fun d => "[Extractor] could not evaluate argument: " ++ d.message

end HeapAudit.Syntax
