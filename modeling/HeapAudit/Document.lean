import HeapAudit.Number.Read
import HeapAudit.Text.Quoted

namespace HeapAudit

/-- A JSON document. Fields keep the order they are given in, and text is written in ASCII. -/
inductive Document where
  | null
  | bool (b : Bool)
  | int (n : Int)
  | text (s : String)
  | list (items : List Document)
  | object (fields : List (String × Document))

namespace Document
open Text

def ofOption : Option String → Document
  | some s => .text s
  | none => .null

def ofLine : Option Int → Document
  | some n => .int n
  | none => .null

/-- A code unit of UTF-16 as an escape. -/
def unitEscape (n : Nat) : Chars := '\\' :: 'u' :: hex 4 n

def escapeChar (c : Char) : Chars :=
  let n := c.toNat
  if c = '"' ∨ c = '\\' then ['\\', c]
  else if c = '\n' then ['\\', 'n']
  else if c = '\r' then ['\\', 'r']
  else if c = '\t' then ['\\', 't']
  else if n = 8 then ['\\', 'b']
  else if n = 12 then ['\\', 'f']
  else if 32 ≤ n ∧ n < 127 then [c]
  else if n < 0x10000 then unitEscape n
  else unitEscape (0xD800 + (n - 0x10000) / 0x400) ++ unitEscape (0xDC00 + (n - 0x10000) % 0x400)

def quoteText (s : String) : String :=
  String.ofList ('"' :: s.toList.flatMap escapeChar ++ ['"'])

/-- How a document is laid out: on one line, or one item a line with an indentation. -/
abbrev Layout := Option String

def newline (layout : Layout) (depth : Nat) : String :=
  match layout with
  | some unit => "\n" ++ String.join (List.replicate depth unit)
  | none => ""

def separator (layout : Layout) (depth : Nat) : String :=
  if layout.isSome then "," ++ newline layout depth else ", "

def enclose (layout : Layout) (depth : Nat) (left right : String) (items : List String) : String :=
  if items.isEmpty then left ++ right
  else
    left ++ newline layout (depth + 1) ++ (separator layout (depth + 1)).intercalate items ++
      newline layout depth ++ right

mutual

def renderAt (layout : Layout) (depth : Nat) : Document → String
  | .null => "null"
  | .bool b => if b then "true" else "false"
  | .int n => toString n
  | .text s => quoteText s
  | .list items => enclose layout depth "[" "]" (renderItems layout (depth + 1) items)
  | .object fields => enclose layout depth "\x7b" "\x7d" (renderFields layout (depth + 1) fields)

def renderItems (layout : Layout) (depth : Nat) : List Document → List String
  | [] => []
  | d :: ds => renderAt layout depth d :: renderItems layout depth ds

def renderFields (layout : Layout) (depth : Nat) : List (String × Document) → List String
  | [] => []
  | (k, d) :: fields =>
    (quoteText k ++ ": " ++ renderAt layout depth d) :: renderFields layout depth fields

end

def render (layout : Layout) (d : Document) : String := renderAt layout 0 d

mutual

/-- Every integer of a document can be written. -/
def isWritable : Document → Bool
  | .int n => Number.isWritable n
  | .list items => areWritable items
  | .object fields => haveWritable fields
  | .null | .bool _ | .text _ => true

def areWritable : List Document → Bool
  | [] => true
  | d :: ds => isWritable d && areWritable ds

def haveWritable : List (String × Document) → Bool
  | [] => true
  | (_, d) :: fields => isWritable d && haveWritable fields

end

/-- An integer of the document has too many digits. -/
inductive Unwritable where
  | unwritable
  deriving DecidableEq, Repr

def Unwritable.message (_ : Unwritable) : String := Number.unwritableMessage

def write (layout : Layout) (d : Document) : Except Unwritable String :=
  if d.isWritable then .ok (d.render layout) else .error .unwritable

/-- Two blanks for each level. -/
def standard : Layout := some "  "

end Document

end HeapAudit
