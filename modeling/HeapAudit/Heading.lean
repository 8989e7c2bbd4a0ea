import HeapAudit.Text.Scan

namespace HeapAudit.Heading
open Text

/-- One of some words at the start of a word, followed by an opening bracket. -/
def anyOpens (words : List String) (bracket : Char) (cs : Chars) : Bool :=
  (searchWord (fun cs => words.findSome? fun w => opens? w.toList bracket cs) cs).isSome

/-- A text starts with a word and not with a longer one. -/
def startsWithWord (word : String) (cs : Chars) : Bool :=
  match literal? word.toList cs with
  | some rest => !(rest.head?.any isWord)
  | none => false

def isControl (line : Chars) : Bool := anyOpens ["if", "while", "for", "switch"] '(' line

def isLoop (line : Chars) : Bool :=
  let body := ((char? '}' line).map trimLeft).getD line
  anyOpens ["for", "while"] '(' line || startsWithWord "for" body || startsWithWord "while" body ||
    startsWithWord "do" line || anyOpens ["loop"] '{' line

/-- Words that stand before a parenthesis without naming a function. -/
def notNames : List String :=
  ["func", "function", "fn", "def", "if", "while", "for", "switch", "catch", "return", "sizeof",
    "elif", "with"]

/-- A line that starts with one of these is a call, an expression or a control statement. -/
def notDefinitions : List String :=
  ["return", "new", "else", "delete", "throw", "case", "await", "yield", "print", "if", "elif",
    "for", "while", "do", "switch", "with", "catch", "except", "assert", "raise", "del", "not",
    "and", "or", "in", "go", "defer", "loop", "match", "class"]

def isPlainChar (c : Char) : Bool :=
  c != '=' && c != '(' && c != ')' && c != '{' && c != '}' && c != ';'

/-- The last word of a text, if only blanks follow it, and the text before it. -/
def lastWord? (cs : Chars) : Option (Chars × Chars) :=
  match run? isWord (cs.reverse.dropWhile isBlank) with
  | some (word, before) => some (before.reverse, word.reverse)
  | none => none

/-- After the parameters nothing is left but plain text, and at most one opening brace. -/
def plainTail (cs : Chars) : Bool :=
  match cs.reverse.dropWhile isBlank with
  | '{' :: rest => rest.all isPlainChar
  | rest => rest.all isPlainChar

/-- The text after an opening parenthesis ends the head: its last closing parenthesis is on the
same line and is followed by a plain tail. -/
def endsHead (afterOpen : Chars) : Bool :=
  let reversed := afterOpen.reverse
  match reversed.dropWhile (· ≠ ')') with
  | [] => false
  | _ :: params => plainTail (reversed.takeWhile (· ≠ ')')).reverse && !params.contains '\n'

/-- A name before the first parenthesis of a text, with the text before the name. -/
def named? (cs : Chars) : Option (Chars × Chars) := do
  let rest ← char? '(' (cs.dropWhile isPlainChar)
  let (before, word) ← lastWord? (cs.takeWhile isPlainChar)
  if notNames.contains (String.ofList word) || !endsHead rest then none else some (before, word)

/-- As `named?`, but after a first group in parentheses. -/
def namedAfterGroup? (cs : Chars) : Option (Chars × Chars) := do
  let rest ← char? '(' (cs.dropWhile isPlainChar)
  let isInside := fun c => c != '(' && c != ')'
  let after ← char? ')' (rest.dropWhile isInside)
  let (before, word) ← named? after
  some (cs.takeWhile isPlainChar ++ '(' :: rest.takeWhile isInside ++ ')' :: before, word)

/-- What stands before the name makes the line a definition. -/
def introduces (before : Chars) : Bool :=
  let before := trim before
  match blankParts before with
  | [] => false
  | first :: _ =>
    !endsWith ['.'] before && !endsWith ['-', '>'] before &&
      !notDefinitions.contains (String.ofList first)

/-- The name of the function whose definition starts on a trimmed line. -/
def functionName? (line : Chars) : Option Chars :=
  if line.contains ';' || isControl line then none
  else match named? line <|> namedAfterGroup? line with
    | some (before, word) => if introduces before then some word else none
    | none => none

end HeapAudit.Heading
