import HeapAudit.Script.Cover
import HeapAudit.Script.Reader

namespace HeapAudit.Script
open Text Syntax Reader

/-- Reads a token of a known length. -/
def token (kind : Kind) (length : Chars → Nat) : Reader Node := node do
  let p ← get
  require (length p.rest ≠ 0)
  advance (length p.rest)
  return (kind, [])

def name : Reader Node := node do
  require (!isReserved (← word))
  return (.identifier, [])

def stringLiteral : Reader Node := token (.other "string") fun cs =>
  match cs with
  | c :: rest => if c == '"' || c == '\'' then ((stringFrom c 0 rest).map (· + 1)).getD 0 else 0
  | [] => 0

def regex : Reader Node := token (.other "regex") fun cs =>
  match cs with
  | '/' :: rest => ((regexLength rest).map (· + 1)).getD 0
  | _ => 0

def number : Reader Node := token .number numberLength

/-- A name that belongs to a class. -/
def privateName : Reader Node := token (.other "private_property_identifier") fun cs =>
  match cs with
  | '#' :: rest => if nameLength rest = 0 then 0 else nameLength rest + 1
  | _ => 0

def propertyWord : Reader Node := token (.other "property_identifier") nameLength

/-- Pieces of text and substituted expressions up to the closing mark. -/
def templatePieces (sub : Sub) (found : List Node) : Reader (Option (List Node)) := do
  let p ← get
  match templateFrom 0 p.rest with
  | some (n, .substitution) =>
    advance n
    let e ← sub (.expression false)
    sign "\x7d"
    return some (e :: found)
  | _ => return none

def template (sub : Sub) (bound : Nat) : Reader Node := named "template_string" do
  let p ← get
  require (p.rest.head? == some '`')
  advance 1
  let found ← loop (templatePieces sub) bound []
  let q ← get
  match templateFrom 0 q.rest with
  | some (n, .closing) =>
    advance n
    return found.reverse
  | _ => failure

/-- An expression, or all that an iterable holds. -/
def element (sub : Sub) : Reader Node := do
  if ← nextIs "..." then
    node do
      sign "..."
      return (.spread, [← sub (.single false)])
  else sub (.single false)

/-- Items with commas between them, some of which may be left out. -/
def listed (bound : Nat) (item : Reader Node) (close : String) : Reader (List Node) := do
  let (found, _) ← loop
    (fun (found, separated) => do
      if ← nextIs close then return none
      else if ← accept "," then return some (found, true)
      else
        require separated
        return some ((← item) :: found, false))
    bound ([], true)
  sign close
  return found.reverse

def arguments (sub : Sub) (bound : Nat) : Reader Node := named "arguments" do
  sign "("
  listed bound (element sub) ")"

def array (sub : Sub) (bound : Nat) : Reader Node := node do
  sign "["
  return (.array, ← listed bound (element sub) "]")

/-- What stands between round brackets, which are parameters if an arrow follows. -/
structure Bracketed where
  items : List Node
  /-- A comma stands at the end. -/
  trailing : Bool

def bracketed (sub : Sub) (bound : Nat) : Reader Bracketed := do
  sign "("
  let (found, separated) ← loop
    (fun (found, separated) => do
      if !separated || (← nextIs ")") then return none
      else
        let e ← element sub
        return some (e :: found, ← accept ","))
    bound ([], true)
  sign ")"
  return ⟨found.reverse, separated⟩

def parameterList (items : List Node) : Reader (List Node) :=
  match patterns? items with
  | some ps => pure ps
  | none => failure

def parameters (sub : Sub) (bound : Nat) : Reader Node := named "formal_parameters" do
  parameterList (← bracketed sub bound).items

/-- What is left after a gap. -/
def pastGap (cs : Chars) : Chars := cs.drop (gapFrom .plain 0 0 cs)

/-- A brace follows the bracket that closes the one at the front. -/
def bodyFollows (depth : Nat) : Chars → Bool
  | [] => false
  | c :: cs =>
    if c == '(' then bodyFollows (depth + 1) cs
    else if c == ')' then
      if depth ≤ 1 then (pastGap cs).head? == some '{' else bodyFollows (depth - 1) cs
    else bodyFollows depth cs

/-- What stands after an opening brace may be a member of an object where a block is expected. -/
def beginsMember (cs : Chars) : Bool :=
  let cs := pastGap cs
  let w := wordOf cs
  if w = "" then
    match cs with
    | c :: _ => "[\"'.,*0123456789".toList.contains c
    | [] => false
  else if isReserved w then false
  else
    let after := pastGap (cs.drop w.length)
    match after with
    | '(' :: _ => bodyFollows 0 after
    | c :: _ => ":,\x7d=".toList.contains c || ["get", "set", "async", "static"].contains w
    | [] => false

/-- The next brace may open an object where a block is expected. -/
def mayOpenObject : Reader Bool := return beginsMember ((← ahead).drop 1)

/-- The part of an arrow function after its parameters. -/
def arrowBody (sub : Sub) (last : Bool) : Reader Node := do
  sign "=>"
  if ← nextIs "\x7b" then
    sub .block <|> do
      require (← mayOpenObject)
      sub (.single last)
  else sub (.single last)

/-- Round brackets: the parameters of an arrow function, or an expression. -/
def bracketedOrArrow (sub : Sub) (bound : Nat) (last : Bool) : Reader Node := do
  let p ← start
  let inner ← bracketed sub bound
  if ← nextIs "=>" then
    let ps ← parameterList inner.items
    let body ← arrowBody sub last
    let q ← get
    return ⟨.arrow, true, none, p.offset, q.offset, p.row, ps ++ [body]⟩
  else
    require (!inner.items.isEmpty && !inner.trailing && inner.items.all (·.kind != .spread))
    let q ← get
    return ⟨parenthesized, true, none, p.offset, q.offset, p.row, inner.items⟩

/-- A function from its word on; the name may be missing. -/
def functionParts (sub : Sub) (bound : Nat) : Reader (Bool × List Node) := do
  keyword "function"
  let generator ← accept "*"
  let own ← if ← nextIs "(" then pure [] else pure [(← name).filling .name]
  let ps ← parameters sub bound
  let body ← sub .block
  return (generator, own ++ [ps, body])

def functionExpression (sub : Sub) (bound : Nat) : Reader Node := node do
  let _ ← acceptWord "async"
  let (generator, parts) ← functionParts sub bound
  return (if generator then .generatorFunction else .functionExpression, parts)

/-- The name of a property: a word of any kind, a private name, a literal or a computed one. -/
def propertyName (sub : Sub) : Reader Node := do
  match ← ahead with
  | '[' :: _ => named "computed_property_name" do
      sign "["
      let e ← sub (.single false)
      sign "]"
      return [e]
  | '#' :: _ => privateName
  | cs =>
    if nameLength cs ≠ 0 then propertyWord
    else stringLiteral <|> number

/-- The text begins the name of a property. -/
def beginsProperty (cs : Chars) : Bool :=
  match cs with
  | c :: _ => nameLength cs != 0 || c == '[' || c == '#' || c == '"' || c == '\'' || c.isDigit
  | [] => false

/-- Reads a word in front of a member if a name follows it; in a class, one that ends its line is a
name itself. -/
def modifier (inClass : Bool) (w : String) : Reader Bool :=
  (do
    keyword w
    require (!(inClass && (← endsHere false)))
    let cs ← ahead
    require (beginsProperty cs || cs.head? == some '*')
    return true) <|> pure false

structure Modifiers where
  static : Bool
  /-- Any other word or a star stands before the name. -/
  special : Bool

def modifiers (inClass : Bool) : Reader Modifiers := do
  let static ← modifier inClass "static"
  let async ← modifier inClass "async"
  let accessor ← (do require (← modifier inClass "get"); return true) <|> modifier inClass "set"
  let star ← accept "*"
  return ⟨static, async || accessor || star⟩

def methodRest (sub : Sub) (bound : Nat) (key : Node) : Reader (Kind × List Node) := do
  let ps ← parameters sub bound
  let body ← sub .block
  return (.method, [key.filling .name, ps, body])

/-- A member of an object. -/
def member (sub : Sub) (bound : Nat) : Reader Node := do
  if ← nextIs "..." then element sub
  else node do
    let ms ← modifiers false
    let w ← wordAhead
    let key ← propertyName sub
    if ← nextIs "(" then methodRest sub bound key
    else
      require (!ms.static && !ms.special)
      if ← accept ":" then
        return (.pair, [key.filling .key, (← sub (.single false)).filling .value])
      else
        require (w != "" && !isReserved w)
        if ← accept "=" then
          let value ← sub (.single false)
          return (defaultedName, [{ key with kind := .shorthand }.filling .left,
            value.filling .right])
        else return (.shorthand, [])

def object (sub : Sub) (bound : Nat) : Reader Node := node do
  sign "\x7b"
  return (.object, ← listed bound (member sub bound) "\x7d")

def initializer? (sub : Sub) (last : Bool) : Reader (Option Node) := do
  if ← accept "=" then return some (← sub (.single last)) else return none

/-- A member of a class, if there is another one. -/
def classMember (sub : Sub) (bound : Nat) : Reader (Option Node) := do
  if ← nextIs "\x7d" then return none
  else if ← nextIs ";" then
    return some (← named "empty" do sign ";"; return [])
  else
    some <$> ((named "class_static_block" do
      keyword "static"
      return [← sub .block]) <|> node do
        let ms ← modifiers true
        let key ← propertyName sub
        if ← nextIs "(" then methodRest sub bound key
        else
          require (!ms.special)
          let value ← initializer? sub true
          semicolon value.isSome
          return (.other "field_definition",
            key.filling (.other "property") :: (value.map (·.filling .value)).toList))

def classBody (sub : Sub) (bound : Nat) : Reader Node := named "class_body" do
  sign "\x7b"
  let members ← many bound (classMember sub bound)
  sign "\x7d"
  return members

/-- A class from its word on; the name may be missing. -/
def classParts (sub : Sub) (bound : Nat) : Reader (List Node) := do
  keyword "class"
  let own ← if (← nextIs "\x7b") || (← nextIsWord "extends") then pure []
    else pure [(← name).filling .name]
  let heritage ← if ← acceptWord "extends" then pure [← sub (.operand false 14)] else pure []
  let body ← classBody sub bound
  return own ++ heritage ++ [body]

/-- An arrow function of one parameter. -/
def arrowOfName (sub : Sub) (last : Bool) : Reader Node := node do
  let parameter ← name
  let body ← arrowBody sub last
  return (.arrow, [parameter.filling (.other "parameter"), body])

/-- Brackets after the word for asynchronous functions: parameters if an arrow follows, else the
arguments of a call. -/
def asynchronousBrackets (sub : Sub) (bound : Nat) (last : Bool) (w : Node) : Reader Node := do
  let args ← arguments sub bound
  if ← nextIs "=>" then
    let ps ← parameterList args.children
    let body ← arrowBody sub last
    extend w .arrow (ps ++ [body])
  else extend w (.other "call_expression") [w.filling (.other "function"), args.filling .arguments]

/-- What starts with the word for asynchronous functions, which may also be a plain name. -/
def asynchronous (sub : Sub) (bound : Nat) (last : Bool) : Reader Node := do
  let w ← name
  if last && (← endsHere true) then return w
  else if ← nextIsWord "function" then
    let (generator, parts) ← functionParts sub bound
    extend w (if generator then .generatorFunction else .functionExpression) parts
  else if ← nextIs "(" then asynchronousBrackets sub bound last w
  else if ← nextIs "=>" then
    let body ← arrowBody sub last
    extend w .arrow [w.filling (.other "parameter"), body]
  else
    (do
      let f ← arrowOfName sub last
      extend w .arrow f.children) <|> pure w

/-- Properties of the words for construction and import. -/
def metaProperty (w property : String) : Reader Node := named "meta_property" do
  keyword w
  sign "."
  keyword property
  return []

def plainWord (w : String) (kind : Kind) : Reader Node := node do
  keyword w
  return (kind, [])

def primaryOfWord (sub : Sub) (bound : Nat) (last : Bool) (w : String) : Reader Node :=
  match w with
  | "function" => functionExpression sub bound
  | "async" => asynchronous sub bound last
  | "class" => named "class" (classParts sub bound)
  | "new" => metaProperty "new" "target" <|> sub .construction
  | "import" => metaProperty "import" "meta" <|> do
      let n ← plainWord "import" (.other "import")
      require (← nextIs "(")
      return n
  | "this" => plainWord "this" (.other "this")
  | "super" => plainWord "super" (.other "super")
  | "null" => plainWord "null" .null
  | "true" => plainWord "true" (.other "true")
  | "false" => plainWord "false" (.other "false")
  | "undefined" => arrowOfName sub last <|> plainWord "undefined" .undefined
  | _ => arrowOfName sub last <|> name

def primary (sub : Sub) (bound : Nat) (last : Bool) : Reader Node := do
  match ← ahead with
  | '(' :: _ => bracketedOrArrow sub bound last
  | '[' :: _ => array sub bound
  | '{' :: _ => object sub bound
  | '`' :: _ => template sub bound
  | '/' :: _ => regex
  | '"' :: _ => stringLiteral
  | '\'' :: _ => stringLiteral
  | '#' :: _ => do
      let n ← privateName
      require (← nextIsWord "in")
      return n
  | cs =>
    if nameLength cs ≠ 0 then primaryOfWord sub bound last (wordOf cs) else number

/-- The name after a point. -/
def accessed : Reader Node := do
  let n ← privateName <|> propertyWord
  return n.filling (.other "property")

def subscripted (sub : Sub) (e : Node) : Reader Node := do
  sign "["
  let index ← sub (.expression false)
  sign "]"
  extend e subscript [e.filling (.other "object"), index.filling (.other "index")]

def called (sub : Sub) (bound : Nat) (e : Node) : Reader Node := do
  let args ← arguments sub bound
  extend e (.other "call_expression") [e.filling (.other "function"), args.filling .arguments]

/-- Adds one access or call to an expression, if one follows; calls may be excluded. -/
def suffix (sub : Sub) (bound : Nat) (calls : Bool) (e : Node) : Reader (Option Node) := do
  match ← ahead with
  | '`' :: _ =>
    let t ← template sub bound
    some <$> extend e (.other "call_expression") [e.filling (.other "function"), t]
  | cs => match sign? cs with
    | some "." =>
      sign "."
      some <$> (do extend e .member [e.filling (.other "object"), ← accessed])
    | some "?." =>
      sign "?."
      if ← nextIs "[" then some <$> subscripted sub e
      else if ← nextIs "(" then
        if calls then some <$> called sub bound e else failure
      else some <$> (do extend e .member [e.filling (.other "object"), ← accessed])
    | some "[" => some <$> subscripted sub e
    | some "(" => if calls then some <$> called sub bound e else return none
    | _ => return none

def suffixes (sub : Sub) (bound : Nat) (calls : Bool) (e : Node) : Reader Node :=
  loop (suffix sub bound calls) bound e

/-- A construction takes the first call brackets as its arguments. -/
def construction (sub : Sub) (bound : Nat) : Reader Node := node do
  keyword "new"
  let base ← if ← nextIsWord "new" then metaProperty "new" "target" <|> sub .construction
    else primary sub bound false
  let made ← suffixes sub bound false base
  let args ← if ← nextIs "(" then
      pure [(← arguments sub bound).filling .arguments]
    else pure []
  return (.construction, made.filling .constructor :: args)

def augmented : List String :=
  ["+=", "-=", "*=", "/=", "%=", "^=", "&=", "|=", ">>=", ">>>=", "<<=", "**=", "&&=", "||=",
    "??="]

/-- An assignment to what was read. -/
def assigned (sub : Sub) (last : Bool) (e : Node) : Reader Node := do
  match sign? (← ahead) with
  | some "=" =>
    let left ← if e.kind == parenthesized then pure e
      else match pattern? e with
        | some target => pure target
        | none => failure
    sign "="
    let right ← sub (.single last)
    extend e .assignment [left.filling .left, right.filling .right]
  | some s =>
    require (augmented.contains s && (e.kind == parenthesized || e.kind == .identifier ||
      e.kind == .undefined || e.kind == .member || e.kind == subscript))
    sign s
    let right ← sub (.single last)
    extend e (.other "augmented_assignment_expression") [e.filling .left, right.filling .right]
  | none => failure

/-- An assignment may be made to this. -/
def isAssignable (k : Kind) : Bool :=
  isTarget k || k == .object || k == .array || k == parenthesized

def isAssignmentSign (s : Option String) : Bool :=
  match s with
  | some s => s == "=" || augmented.contains s
  | none => false

def postfixed (sub : Sub) (bound : Nat) (last : Bool) : Reader Node := do
  let e ← suffixes sub bound true (← primary sub bound last)
  let s := sign? (← ahead)
  if isAssignable e.kind && isAssignmentSign s then assigned sub last e
  else if s == some "++" || s == some "--" then
    if last && (← endsHere true) then return e
    else
      sign (s.getD "")
      extend e (.other "update_expression") [e]
  else return e

/-- Binds tighter than every operator between operands. -/
def unaryLevel : Nat := 14

def unaryOf (sub : Sub) (last : Bool) (kind : String) (mark : Reader Unit) : Reader Node :=
  named kind do
    mark
    return [← sub (.operand last unaryLevel)]

/-- No operand can follow. -/
def closes (cs : Chars) : Bool :=
  match cs with
  | [] => true
  | c :: _ => c == ')' || c == ']' || c == '}' || c == ',' || c == ';' || c == ':'

def yielded (sub : Sub) (last : Bool) : Reader Node := named "yield_expression" do
  keyword "yield"
  if ← accept "*" then return [← sub (.single last)]
  else if last && (← endsHere true) then return []
  else if closes (← ahead) then return []
  else return [← sub (.single last)]

def unary (sub : Sub) (bound : Nat) (last : Bool) : Reader Node := do
  let cs ← ahead
  match sign? cs with
  | some "!" => unaryOf sub last "unary_expression" (sign "!")
  | some "~" => unaryOf sub last "unary_expression" (sign "~")
  | some "+" => unaryOf sub last "unary_expression" (sign "+")
  | some "-" => unaryOf sub last "unary_expression" (sign "-")
  | some "++" => unaryOf sub last "update_expression" (sign "++")
  | some "--" => unaryOf sub last "update_expression" (sign "--")
  | _ => match wordOf cs with
    | "typeof" => unaryOf sub last "unary_expression" (keyword "typeof")
    | "void" => unaryOf sub last "unary_expression" (keyword "void")
    | "delete" => unaryOf sub last "unary_expression" (keyword "delete")
    | "await" => unaryOf sub last "await_expression" (keyword "await")
    | "yield" => yielded sub last
    | _ => postfixed sub bound last

/-- How tight an operator binds. -/
def level? : String → Option Nat
  | "??" => some 1
  | "||" => some 2
  | "&&" => some 3
  | "|" => some 4
  | "^" => some 5
  | "&" => some 6
  | "==" | "!=" | "===" | "!==" => some 7
  | "<" | ">" | "<=" | ">=" | "instanceof" | "in" => some 8
  | "<<" | ">>" | ">>>" => some 9
  | "+" | "-" => some 10
  | "*" | "/" | "%" => some 11
  | "**" => some 12
  | _ => none

/-- The operator between two operands at the front of the text. -/
def operatorAhead (cs : Chars) : String :=
  match sign? cs with
  | some s => s
  | none => wordOf cs

/-- Only powers are grouped from the right. -/
def rightLevel (operator : String) (level : Nat) : Nat :=
  if operator = "**" then level - 1 else level

def operation (sub : Sub) (last : Bool) (level : Nat) (left : Node) : Reader (Option Node) := do
  let operator := operatorAhead (← ahead)
  match level? operator with
  | none => return none
  | some l =>
    if l ≤ level then return none
    else
      let p ← start
      advance operator.length
      let q ← get
      let mark : Node :=
        ⟨.other operator, false, some .operator, p.offset, q.offset, p.row, []⟩
      let right ← sub (.operand last (rightLevel operator l))
      some <$> extend left .binary [left.filling .left, mark, right.filling .right]

def operands (sub : Sub) (bound : Nat) (last : Bool) (level : Nat) : Reader Node := do
  let first ← unary sub bound last
  if level = unaryLevel then return first
  else loop (operation sub last level) bound first

def single (sub : Sub) (bound : Nat) (last : Bool) : Reader Node := do
  let e ← operands sub bound last 0
  if ← nextIs "?" then
    sign "?"
    let yes ← sub (.single false)
    sign ":"
    let no ← sub (.single last)
    extend e (.other "ternary_expression") [e, yes, no]
  else return e

def sequence (sub : Sub) (bound : Nat) (last : Bool) : Reader Node := do
  let e ← single sub bound last
  if ← nextIs "," then
    let rest ← many bound do
      if ← accept "," then return some (← sub (.single last)) else return none
    extend e (.other "sequence_expression") (e :: rest)
  else return e

/-- What may be assigned or iterated to, without an assignment. -/
def target (sub : Sub) (bound : Nat) : Reader Node := do
  let e ← suffixes sub bound true (← primary sub bound false)
  if e.kind == parenthesized then return e
  else match pattern? e with
    | some t => return t
    | none => failure

end HeapAudit.Script
