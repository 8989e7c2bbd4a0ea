import HeapAudit.Text.Basic
import HeapAudit.Text.Word

namespace HeapAudit.Text

/-- Like every reader here it gives what it read and the text after it, or nothing. -/
def char? (c : Char) : Chars → Option Chars
  | d :: rest => if d = c then some rest else none
  | [] => none

def literal? (word cs : Chars) : Option Chars :=
  if word.isPrefixOf cs then some (cs.drop word.length) else none

/-- At least one blank. -/
def blanks? : Chars → Option Chars
  | c :: rest => if isBlank c then some (trimLeft rest) else none
  | [] => none

/-- The longest nonempty run of characters of a class. -/
def run? (p : Char → Bool) (cs : Chars) : Option (Chars × Chars) :=
  match cs.takeWhile p with
  | [] => none
  | word => some (word, cs.dropWhile p)

def word? (cs : Chars) : Option (Chars × Chars) := run? isWord cs

/-- A word followed by an opening bracket, with blanks between them if any. -/
def opens? (word : Chars) (bracket : Char) (cs : Chars) : Option Chars := do
  let rest ← literal? word cs
  char? bracket (trimLeft rest)

/-- The first result of `f`, tried at every position whose preceding character passes. -/
def search {α : Type} (allowed : Option Char → Bool) (f : Chars → Option α) :
    Option Char → Chars → Option α
  | before, [] => if allowed before then f [] else none
  | before, c :: cs =>
    match if allowed before then f (c :: cs) else none with
    | some a => some a
    | none => search allowed f (some c) cs

def notWord (before : Option Char) : Bool := !(before.any isWord)

def isNamePart (c : Char) : Bool := isWord c || c == '.'

def notNamePart (before : Option Char) : Bool := !(before.any isNamePart)

/-- The first result of `f` at the start of a word. -/
def searchWord {α : Type} (f : Chars → Option α) (cs : Chars) : Option α :=
  search notWord f none cs

/-- The first result of `f` at the start of a run of word characters and points. -/
def searchName {α : Type} (f : Chars → Option α) (cs : Chars) : Option α :=
  search notNamePart f none cs

end HeapAudit.Text
