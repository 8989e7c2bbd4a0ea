import HeapAudit.Script.Place

namespace HeapAudit.Script
open Text

def isHexDigit (c : Char) : Bool := c.isDigit || ('a' ≤ c && c ≤ 'f') || ('A' ≤ c && c ≤ 'F')

/-- Characters that neither start nor continue a name. -/
def isBreaking (c : Char) : Bool :=
  c.toNat < 0x20 || isGap c || ":;`\"'@#.,|^&<=>+-*/\\%?!~()[]\x7b\x7d".toList.contains c

/-- The length of a character given by its code, after the backslash and the letter. -/
def unicodeLength : Chars → Nat
  | '{' :: cs =>
    let digits := cs.takeWhile isHexDigit
    if digits ≠ [] ∧ (cs.drop digits.length).head? = some '}' then digits.length + 2 else 0
  | cs =>
    let digits := (cs.take 4).takeWhile isHexDigit
    if digits.length = 4 then 4 else 0

/-- Counts the characters that continue a name; `skip` of them are known to do so. -/
def nameFrom (skip n : Nat) : Chars → Nat
  | [] => n
  | c :: cs => match skip with
    | k + 1 => nameFrom k (n + 1) cs
    | 0 =>
      if !isBreaking c then nameFrom 0 (n + 1) cs
      else match c, cs with
        | '\\', 'u' :: rest =>
          if unicodeLength rest = 0 then n else nameFrom (unicodeLength rest + 1) (n + 1) cs
        | _, _ => n

def nameLength : Chars → Nat
  | [] => 0
  | c :: cs => if c.isDigit then 0 else nameFrom 0 0 (c :: cs)

/-- Digits with single underscores between them. -/
def digitsFrom (p : Char → Bool) (n : Nat) : Chars → Nat
  | [] => n
  | '_' :: c :: cs => if p c && n != 0 then digitsFrom p (n + 2) cs else n
  | c :: cs => if p c then digitsFrom p (n + 1) cs else n

def digitsLength (p : Char → Bool) (cs : Chars) : Nat := digitsFrom p 0 cs

def exponentLength : Chars → Nat
  | e :: cs =>
    if e == 'e' || e == 'E' then
      let sign := match cs with
        | c :: _ => if c == '+' || c == '-' then 1 else 0
        | [] => 0
      let digits := digitsLength Char.isDigit (cs.drop sign)
      if digits = 0 then 0 else 1 + sign + digits
    else 0
  | [] => 0

/-- A number in a base that a letter after a zero names. -/
def basedLength (p : Char → Bool) (cs : Chars) : Nat :=
  let n := digitsLength p cs
  if n = 0 then 1
  else if (cs.drop n).head? = some 'n' then n + 3 else n + 2

/-- These digits may be the whole part of a decimal. -/
def isWholePart : Chars → Bool
  | ['0'] => true
  | '0' :: c :: _ => '1' ≤ c && c ≤ '9'
  | _ => true

def fractionLength (cs : Chars) : Nat :=
  let n := digitsLength Char.isDigit cs
  n + exponentLength (cs.drop n)

def decimalLength (cs : Chars) : Nat :=
  let n := digitsLength Char.isDigit cs
  match cs.drop n with
  | 'n' :: _ => n + 1
  | '.' :: rest => if isWholePart (cs.take n) then n + 1 + fractionLength rest else n
  | rest => if isWholePart (cs.take n) then n + exponentLength rest else n

def numberLength : Chars → Nat
  | '0' :: x :: cs =>
    if x == 'x' || x == 'X' then basedLength isHexDigit cs
    else if x == 'b' || x == 'B' then basedLength (fun c => c == '0' || c == '1') cs
    else if x == 'o' || x == 'O' then basedLength (fun c => '0' ≤ c && c ≤ '7') cs
    else decimalLength ('0' :: x :: cs)
  | '.' :: cs => if digitsLength Char.isDigit cs = 0 then 0 else 1 + fractionLength cs
  | cs => decimalLength cs

/-- Whether what follows a backslash is an escape. -/
def isEscape : Chars → Bool
  | 'x' :: cs => ((cs.take 2).takeWhile isHexDigit).length == 2
  | 'u' :: cs => unicodeLength cs != 0
  | _ :: _ => true
  | [] => false

/-- The length of a string after its opening quote, with the closing one. -/
def stringFrom (quote : Char) (n : Nat) : Chars → Option Nat
  | [] => none
  | '\\' :: '\r' :: '\n' :: cs => stringFrom quote (n + 3) cs
  | '\\' :: c :: cs => if isEscape (c :: cs) then stringFrom quote (n + 2) cs else none
  | c :: cs =>
    if c == quote then some (n + 1)
    else if c == '\n' || c == '\r' || c == '\\' then none
    else stringFrom quote (n + 1) cs

/-- What ends a piece of a template. -/
inductive TemplateEnd where
  | closing
  | substitution

/-- The length of a piece of a template, with what ends it. -/
def templateFrom (n : Nat) : Chars → Option (Nat × TemplateEnd)
  | [] => none
  | '\\' :: c :: cs => if isEscape (c :: cs) then templateFrom (n + 2) cs else none
  | '$' :: '{' :: _ => some (n + 2, .substitution)
  | c :: cs =>
    if c == '`' then some (n + 1, .closing)
    else if c == '\\' then none
    else templateFrom (n + 1) cs

/-- The length of a regular expression after its opening slash, with the closing one. -/
def regexFrom (inClass : Bool) (n : Nat) : Chars → Option Nat
  | [] => none
  | '\\' :: c :: cs => if c == '\n' then none else regexFrom inClass (n + 2) cs
  | c :: cs =>
    if c == '\n' || c == '\\' then none
    else if inClass then regexFrom (c != ']') (n + 1) cs
    else if c == '/' then (if n = 0 then none else some (n + 1))
    else regexFrom (c == '[') (n + 1) cs

def regexLength (cs : Chars) : Option Nat :=
  (regexFrom false 0 cs).map fun n =>
    n + ((cs.drop n).takeWhile fun c => 'a' ≤ c && c ≤ 'z').length

/-- Signs, a longer one before its beginnings. -/
def signs : List String :=
  [">>>=", "...", "===", "!==", "**=", "<<=", ">>=", ">>>", "&&=", "||=", "??=", "=>", "==",
    "!=", "<=", ">=", "&&", "||", "??", "?.", "++", "--", "+=", "-=", "*=", "/=", "%=", "&=",
    "|=", "^=", "<<", ">>", "**", "\x7b", "\x7d", "(", ")", "[", "]", ".", ";", ",", "<", ">",
    "+", "-", "*", "/", "%", "&", "|", "^", "!", "~", "?", ":", "=", "#", "@"]

def signTable : List (String × Chars) := signs.map fun s => (s, s.toList)

/-- The mark of optional access is not followed by a digit. -/
def isAccess (cs : Chars) : Bool :=
  match cs.drop 2 with
  | c :: _ => !c.isDigit
  | [] => true

/-- The longest sign at the front. -/
def sign? (cs : Chars) : Option String :=
  (signTable.find? fun (s, text) => text.isPrefixOf cs && (s != "?." || isAccess cs)).map (·.1)

def reservedWords : List String :=
  ["break", "case", "catch", "class", "const", "continue", "debugger", "default", "delete", "do",
    "else", "export", "extends", "false", "finally", "for", "function", "if", "import", "in",
    "instanceof", "new", "null", "return", "super", "switch", "this", "throw", "true", "try",
    "typeof", "var", "void", "while", "with"]

def isReserved (word : String) : Bool := reservedWords.contains word

end HeapAudit.Script
