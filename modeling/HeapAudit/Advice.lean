import HeapAudit.Finding
import HeapAudit.Language

namespace HeapAudit.Advice

def mallocFamily : List String := ["malloc", "calloc", "realloc"]

/-- The release that fits an acquisition. -/
def release? (primitive : String) : Option String :=
  if mallocFamily.contains primitive then some "free"
  else if primitive = "new" then some "delete"
  else if primitive = "new[]" then some "delete[]"
  else none

def releases : List String := ["free", "delete", "delete[]"]

/-- The statement that releases a variable. Outside C and C++ dropping the reference is enough. -/
def hint (language : Language) (var primitive : String) : String :=
  if !language.isCFamily && !mallocFamily.contains primitive then var ++ " = null;"
  else match (release? primitive).getD "free" with
    | "free" => "free(" ++ var ++ ");"
    | release => release ++ " " ++ var ++ ";"

def onReassignment (language : Language) (a : Allocation) (line : LineNo) : String :=
  "Memory leak: " ++ a.var ++ " was reassigned on line " ++ line.text ++
    " without freeing the previous allocation on line " ++ a.line.text ++ ". Add " ++
    hint language a.var a.primitive ++ " before the reassignment."

/-- Functions in which memory is not handed to a caller. -/
def entryPoints : List String := ["main", "Main", "wmain", "WinMain", "__main__"]

def onUnreleased (language : Language) (a : Allocation) : String :=
  let release := hint language a.var a.primitive
  if a.inLoop then
    "Add " ++ release ++
      " inside the loop after use, or collect pointers and free them after the loop."
  else match a.function.filter (fun f => f ≠ "" && !entryPoints.contains f) with
    | some f =>
      "Memory allocated in " ++ f ++ "() on line " ++ a.line.text ++
        ". Ensure caller frees this memory, or free it before function return."
    | none => "Add " ++ release ++ " before function return or at appropriate cleanup point."

/-- Whether memory acquired one way must not be released the other way. -/
def mismatched (acquired released : String) : Bool :=
  match release? acquired with
  | some expected => releases.contains released && released != expected
  | none => false

def onMismatch (language : Language) (a : Allocation) (released : String) : String :=
  let family := if mallocFamily.contains a.primitive then "malloc-family" else a.primitive
  "Mismatched allocation/deallocation for '" ++ a.var ++ "': allocated with " ++ family ++
    " on line " ++ a.line.text ++ " but released with " ++ released ++ ". Use " ++
    hint language a.var a.primitive

end HeapAudit.Advice
