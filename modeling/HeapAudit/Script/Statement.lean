import HeapAudit.Script.Expression

namespace HeapAudit.Script
open Text Syntax Reader

/-- A name or a pattern that is declared. -/
def binding (sub : Sub) (bound : Nat) : Reader Node := do
  let e ← match ← ahead with
    | '[' :: _ => array sub bound
    | '{' :: _ => object sub bound
    | _ => name
  match pattern? e with
  | some b => return b
  | none => failure

def declarator (sub : Sub) (bound : Nat) : Reader Node := node do
  let b ← binding sub bound
  let value ← initializer? sub true
  return (.declarator, b.filling .name :: (value.map (·.filling .value)).toList)

/-- Declarators with commas between them. -/
def declarators (sub : Sub) (bound : Nat) : Reader (List Node) := do
  let first ← declarator sub bound
  let rest ← many bound do
    if ← accept "," then return some (← declarator sub bound) else return none
  return first :: rest

/-- The last declarator has a value, so an operator could go on after it. -/
def lastHasValue (ds : List Node) : Bool :=
  match ds.getLast? with
  | some d => (d.child? .value).isSome
  | none => false

def declaration (sub : Sub) (bound : Nat) (w : String) : Reader Node := node do
  keyword w
  let ds ← declarators sub bound
  semicolon (lastHasValue ds)
  return (if w = "var" then .variableDeclaration else .lexicalDeclaration, ds)

/-- The word for block scoped variables introduces a declaration if a name or a pattern follows in
the same statement. -/
def beginsLet : Reader Bool := fun p =>
  (do
    keyword "let"
    require (!(← endsHere true))
    match ← ahead with
    | '[' :: _ => return true
    | '{' :: _ => return true
    | cs =>
      let w := wordOf cs
      return w != "" && !isReserved w : Reader Bool).run p |>.elim (some (false, p))
    fun (b, _) => some (b, p)

def block (sub : Sub) (bound : Nat) : Reader Node := named "statement_block" do
  sign "\x7b"
  let body ← many bound do
    if ← nextIs "\x7d" then return none else return some (← sub .statement)
  sign "\x7d"
  return body

def expressionStatement (sub : Sub) : Reader Node := named "expression_statement" do
  let e ← sub (.expression true)
  semicolon true
  return [e]

/-- A block, or an object where it cannot be a block. -/
def braced (sub : Sub) : Reader Node :=
  sub .block <|> do
    require (← mayOpenObject)
    expressionStatement sub

def condition (sub : Sub) : Reader Node := do
  sign "("
  let e ← sub (.expression false)
  sign ")"
  return e

def conditional (sub : Sub) : Reader Node := named "if_statement" do
  keyword "if"
  let test ← condition sub
  let yes ← sub .statement
  if ← acceptWord "else" then return [test, yes, ← sub .statement] else return [test, yes]

/-- The bracket of a loop over what an iterable or an object holds. -/
def iteration (sub : Sub) (bound : Nat) : Reader (List Node) := do
  sign "("
  let declared : Reader (List Node) := do
    let w ← word
    require (w == "var" || w == "let" || w == "const")
    let b ← binding sub bound
    let value ← if w = "var" then initializer? sub false else pure none
    return b :: value.toList
  let iterated : Reader (List Node) := do
    let w ← word
    require (w == "in" || w == "of")
    return [← sub (.expression false)]
  let left ← (do
      let left ← declared
      return left ++ (← iterated)) <|> do
      let left ← sub .target
      return left :: (← iterated)
  sign ")"
  return left

def optionalUntil (sub : Sub) (close : String) : Reader (List Node) := do
  let found ← if ← nextIs close then pure [] else pure [← sub (.expression false)]
  sign close
  return found

/-- The bracket of a loop with a start, a test and a step. -/
def counting (sub : Sub) (bound : Nat) : Reader (List Node) := do
  sign "("
  let w ← wordAhead
  let start ← if w == "var" || w == "const" || (← beginsLet) then
      pure [← declaration sub bound w]
    else optionalUntil sub ";"
  let test ← optionalUntil sub ";"
  let step ← optionalUntil sub ")"
  return start ++ test ++ step

def forLoop (sub : Sub) (bound : Nat) : Reader Node := node do
  keyword "for"
  let awaited ← acceptWord "await"
  let (kind, head) ← (do return (Kind.forInLoop, ← iteration sub bound)) <|> do
    require (!awaited)
    return (Kind.forLoop, ← counting sub bound)
  return (kind, head ++ [← sub .statement])

def whileLoop (sub : Sub) : Reader Node := node do
  keyword "while"
  let test ← condition sub
  return (.whileLoop, [test, ← sub .statement])

def doLoop (sub : Sub) : Reader Node := node do
  keyword "do"
  let body ← sub .statement
  keyword "while"
  return (.doLoop, [body, ← condition sub])

def leave (sub : Sub) (w : String) : Reader Node := named (w ++ "_statement") do
  keyword w
  if ← accept ";" then return []
  else if ← endsHere false then return []
  else if w = "return" then
    let e ← sub (.expression true)
    semicolon true
    return [e]
  else
    let label ← name
    semicolon false
    return [label]

def throwing (sub : Sub) : Reader Node := named "throw_statement" do
  keyword "throw"
  let e ← sub (.expression true)
  semicolon true
  return [e]

def trying (sub : Sub) (bound : Nat) : Reader Node := named "try_statement" do
  keyword "try"
  let body ← sub .block
  let handler ← if ← acceptWord "catch" then
      let parameter ← if ← accept "(" then
          let b ← binding sub bound
          sign ")"
          pure [b]
        else pure []
      pure (parameter ++ [← sub .block])
    else pure []
  let finalizer ← if ← acceptWord "finally" then pure [← sub .block] else pure []
  return body :: handler ++ finalizer

/-- One case of a switch with its statements. -/
def switchCase (sub : Sub) (bound : Nat) : Reader (Option Node) := do
  if ← nextIs "\x7d" then return none
  else some <$> named "switch_case" do
    let value ← if ← acceptWord "default" then pure []
      else
        keyword "case"
        pure [← sub (.expression false)]
    sign ":"
    let body ← many bound do
      if (← nextIs "\x7d") || (← nextIsWord "case") || (← nextIsWord "default") then return none
      else return some (← sub .statement)
    return value ++ body

def switching (sub : Sub) (bound : Nat) : Reader Node := named "switch_statement" do
  keyword "switch"
  let value ← condition sub
  sign "\x7b"
  let cases ← many bound (switchCase sub bound)
  sign "\x7d"
  return value :: cases

def withObject (sub : Sub) : Reader Node := named "with_statement" do
  keyword "with"
  let e ← condition sub
  return [e, ← sub .statement]

/-- The words and the star in front of the name of a function or a class, if a name follows. -/
def namedAhead : Reader Bool := fun p =>
  (do
    if ← acceptWord "async" then require (!(← endsHere true))
    let w ← word
    require (w == "function" || w == "class")
    if w == "function" then let _ ← accept "*"
    let own ← wordAhead
    return own != "" && !isReserved own : Reader Bool).run p |>.elim (some (false, p))
    fun (b, _) => some (b, p)

def functionDeclaration (sub : Sub) (bound : Nat) : Reader Node := node do
  let _ ← acceptWord "async"
  let (generator, parts) ← functionParts sub bound
  return (if generator then .generatorDeclaration else .functionDeclaration, parts)

def classDeclaration (sub : Sub) (bound : Nat) : Reader Node :=
  named "class_declaration" (classParts sub bound)

/-- A name of a module's import or export: a name, the word for the default, or a string. -/
def moduleName : Reader Node := name <|> plainWord "default" .identifier <|> stringLiteral

/-- Names in braces, each with another one after it if it is renamed. -/
def moduleNames (bound : Nat) : Reader Unit := do
  sign "\x7b"
  let _ ← listed bound
    (do
      let n ← moduleName
      if ← acceptWord "as" then moduleName else return n)
    "\x7d"

/-- Where a module is, with attributes. -/
def moduleSource (sub : Sub) (bound : Nat) : Reader (List Node) := do
  let source ← stringLiteral
  let w ← wordAhead
  if w == "with" || (w == "assert" && !(← endsHere false)) then
    keyword w
    return [source, ← object sub bound]
  else return [source]

def fromSource (sub : Sub) (bound : Nat) : Reader (List Node) := do
  keyword "from"
  moduleSource sub bound

/-- All names of a module under one name. -/
def namespaceImport : Reader Unit := do
  sign "*"
  keyword "as"
  let _ ← name

def importClause (bound : Nat) : Reader Unit := do
  if ← nextIs "*" then namespaceImport
  else if ← nextIs "\x7b" then moduleNames bound
  else
    let _ ← name
    if ← accept "," then
      if ← nextIs "*" then namespaceImport else moduleNames bound

def importing (sub : Sub) (bound : Nat) : Reader Node := named "import_statement" do
  keyword "import"
  let source ← moduleSource sub bound <|> do
    importClause bound
    fromSource sub bound
  semicolon false
  return source

def declared (sub : Sub) (bound : Nat) : Reader Node := do
  match ← wordAhead with
  | "var" => declaration sub bound "var"
  | "const" => declaration sub bound "const"
  | "let" => declaration sub bound "let"
  | "class" => classDeclaration sub bound
  | w =>
    require (w == "function" || w == "async")
    functionDeclaration sub bound

/-- A declaration with a name, or else a value. -/
def exportDefault (sub : Sub) (bound : Nat) : Reader (List Node) := do
  keyword "default"
  if ← namedAhead then return [← declared sub bound]
  else
    let e ← sub (.single true)
    semicolon true
    return [e.filling .value]

def exportNames (sub : Sub) (bound : Nat) : Reader (List Node) := do
  let source ← if ← accept "*" then
      if ← acceptWord "as" then let _ ← moduleName
      fromSource sub bound
    else
      moduleNames bound
      if !(← endsHere false) && (← nextIsWord "from") then fromSource sub bound else pure []
  semicolon false
  return source

def exporting (sub : Sub) (bound : Nat) : Reader Node := named "export_statement" do
  keyword "export"
  if ← nextIsWord "default" then exportDefault sub bound
  else if (← nextIs "*") || (← nextIs "\x7b") then exportNames sub bound
  else return [← declared sub bound]

def labeled (sub : Sub) : Reader Node := named "labeled_statement" do
  let _ ← name
  sign ":"
  return [← sub .statement]

def debugging : Reader Node := named "debugger_statement" do
  keyword "debugger"
  semicolon false
  return []

def ofWord (sub : Sub) (bound : Nat) (w : String) : Reader Node :=
  match w with
  | "var" => declaration sub bound w
  | "const" => declaration sub bound w
  | "let" => do
    if ← beginsLet then declaration sub bound w else labeled sub <|> expressionStatement sub
  | "function" => do
    if ← namedAhead then functionDeclaration sub bound else expressionStatement sub
  | "async" => do
    if ← namedAhead then functionDeclaration sub bound
    else labeled sub <|> expressionStatement sub
  | "class" => do
    if ← namedAhead then classDeclaration sub bound else expressionStatement sub
  | "if" => conditional sub
  | "for" => forLoop sub bound
  | "while" => whileLoop sub
  | "do" => doLoop sub
  | "return" => leave sub w
  | "break" => leave sub w
  | "continue" => leave sub w
  | "throw" => throwing sub
  | "try" => trying sub bound
  | "switch" => switching sub bound
  | "with" => withObject sub
  | "debugger" => debugging
  | "import" => importing sub bound <|> expressionStatement sub
  | "export" => exporting sub bound
  | _ => labeled sub <|> expressionStatement sub

def statement (sub : Sub) (bound : Nat) : Reader Node := do
  match ← ahead with
  | ';' :: _ => named "empty_statement" do sign ";"; return []
  | '{' :: _ => braced sub
  | cs => ofWord sub bound (wordOf cs)

end HeapAudit.Script
