import HeapAudit.Finding
import HeapAudit.Text.Scan

namespace HeapAudit.Quality
open Text

structure Rule where
  function : String
  message : String
  deriving DecidableEq, Repr

/-- A function that has bounded versions. -/
def unbounded (function advice : String) : Rule :=
  ⟨function, function ++ "() used without bounds checking. Consider using " ++ advice ++ "."⟩

def rules : List Rule :=
  [unbounded "strcpy" "strncpy() or strcpy_s()",
    unbounded "strcat" "strncat() or strcat_s()",
    unbounded "sprintf" "snprintf()",
    unbounded "vsprintf" "vsnprintf()",
    ⟨"gets", "gets() cannot limit the input length. Use fgets() instead."⟩,
    unbounded "wcscpy" "wcsncpy() or wcscpy_s()",
    unbounded "wcscat" "wcsncat() or wcscat_s()"]

/-- The function is called here: its name is followed by an opening parenthesis, and does not
continue a longer name or a member access. -/
def calledAt (function : Chars) (before : Option Char) (cs : Chars) : Bool :=
  notNamePart before && (opens? function '(' cs).isSome

/-- How long the text of a call is, up to and with the parenthesis. -/
def callLength (function cs : Chars) : Nat := function.length + indent (cs.drop function.length) + 1

/-- The search goes on at `next`, after the text of the last call. -/
def sitesFrom (function : Chars) (done : List Nat) (i next : Nat) (before : Option Char) :
    Chars → List Nat
  | [] => done.reverse
  | c :: cs =>
    if next ≤ i ∧ calledAt function before (c :: cs) then
      sitesFrom function (i :: done) (i + 1) (i + callLength function (c :: cs)) (some c) cs
    else sitesFrom function done (i + 1) next (some c) cs

/-- The positions in a line at which a function is called. -/
def callSites (function line : Chars) : List Nat := sitesFrom function [] 0 0 none line

def lineWarnings (rules : List Rule) (number : Nat) (line : Chars) : List Warning :=
  rules.flatMap fun rule => (callSites rule.function.toList line).map fun _ =>
    { kind := .unsafeFunction, line := some number, message := rule.message,
      lineText := String.ofList (trim line) }

def scanFrom (rules : List Rule) (number : Nat) (lines : List Chars) : List Warning :=
  (lines.zipIdx number).flatMap fun (line, n) => lineWarnings rules n line

/-- Lines are taken as they are, comments and strings included. -/
def scan (rules : List Rule) (lines : List Chars) : List Warning := scanFrom rules 1 lines

end HeapAudit.Quality
