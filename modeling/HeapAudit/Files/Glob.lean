import HeapAudit.Files.Tree

namespace HeapAudit.Glob
open Text

/-- A set of characters, as ranges. -/
structure CharSet where
  negated : Bool
  ranges : List (Char × Char)
  deriving DecidableEq, Repr

def CharSet.has (s : CharSet) (c : Char) : Bool :=
  s.ranges.any (fun (low, high) => low ≤ c && c ≤ high) != s.negated

inductive Symbol where
  | anyText
  | anyChar
  | oneOf (set : CharSet)
  | literal (c : Char)
  deriving DecidableEq, Repr

/-- The ranges of a set; a minus at either end stands for itself. -/
def ranges : Chars → List (Char × Char)
  | low :: '-' :: high :: cs => (low, high) :: ranges cs
  | c :: cs => (c, c) :: ranges cs
  | [] => []

/-- The inside of a set and how many characters it takes with the closing bracket, which does not
close at the front. -/
def setBody? (cs : Chars) : Option (Chars × Nat) :=
  let mark := if cs.head? = some '!' then 1 else 0
  let lead := if (cs.drop mark).head? = some ']' then mark + 1 else mark
  let inside := cs.take lead ++ (cs.drop lead).takeWhile (· ≠ ']')
  if inside.length < cs.length then some (inside, inside.length + 1) else none

def charSet (inside : Chars) : CharSet :=
  match inside with
  | '!' :: cs => ⟨true, ranges cs⟩
  | cs => ⟨false, ranges cs⟩

/-- Reads a pattern of names, past the `skip` characters that a set has taken. -/
def symbolsFrom (skip : Nat) : Chars → List Symbol
  | [] => []
  | c :: cs => match skip with
    | k + 1 => symbolsFrom k cs
    | 0 => match c with
      | '*' => .anyText :: symbolsFrom 0 cs
      | '?' => .anyChar :: symbolsFrom 0 cs
      | '[' => match setBody? cs with
        | some (inside, n) => .oneOf (charSet inside) :: symbolsFrom n cs
        | none => .literal '[' :: symbolsFrom 0 cs
      | _ => .literal c :: symbolsFrom 0 cs

def fits : List Symbol → Chars → Bool
  | [], cs => cs.isEmpty
  | .anyText :: ss, [] => fits ss []
  | .anyText :: ss, c :: cs => fits ss (c :: cs) || fits (.anyText :: ss) cs
  | _ :: _, [] => false
  | .anyChar :: ss, _ :: cs => fits ss cs
  | .oneOf set :: ss, c :: cs => set.has c && fits ss cs
  | .literal d :: ss, c :: cs => c == d && fits ss cs
termination_by ss cs => ss.length + cs.length

/-- A component is a name, a pattern of names with `*`, `?` and character sets, or `**`, which
stands for any directories. -/
inductive Step where
  /-- Any directories, or none. -/
  | descend
  | wild (symbols : List Symbol)
  | exact (name : String)
  deriving DecidableEq, Repr

/-- A path pattern; one that ends in a slash is only for directories. -/
structure Pattern where
  steps : List Step
  onlyFolders : Bool
  deriving DecidableEq, Repr

inductive PatternError where
  | notRelative
  | misplaced
  | noComponent
  | onlySlash
  deriving DecidableEq, Repr

def PatternError.message : PatternError → String
  | .notRelative => "Non-relative patterns are unsupported"
  | .misplaced => "Invalid pattern: '**' can only be an entire path component"
  | .noComponent => "tuple index out of range"
  | .onlySlash => "'_TerminatingSelector' object has no attribute 'select_from'"

def isWild (component : Chars) : Bool := component.any fun c => c == '*' || c == '?' || c == '['

def step (component : String) : Except PatternError Step :=
  let cs := component.toList
  if component = "**" then .ok .descend
  else if occurs "**".toList cs then .error .misplaced
  else if isWild cs then .ok (.wild (symbolsFrom 0 cs))
  else .ok (.exact component)

def parse (text : String) : Except PatternError Pattern := do
  let p := Path.ofText text
  if p.root ≠ "" then throw .notRelative
  let onlyFolders : Bool := text.toList.getLast? = some '/'
  if p.parts = [] then throw (if onlyFolders then .onlySlash else .noComponent)
  return ⟨← p.parts.mapM step, onlyFolders⟩

mutual

/-- The components that lead to the directories of a tree, itself included. -/
def folders : FileTree → List (List String)
  | .file _ => []
  | .directory entries => [] :: foldersOf entries

def foldersOf : List (String × FileTree) → List (List String)
  | [] => []
  | (name, t) :: rest => (folders t).map (name :: ·) ++ foldersOf rest

end

/-- The directories from a path down. -/
def foldersFrom (fs : FileSystem) (p : Path) : List Path :=
  match fs.at? p with
  | some here => (folders here).map fun parts => { p with parts := p.parts ++ parts }
  | none => []

def entriesAt (fs : FileSystem) (p : Path) : List (String × FileTree) :=
  ((fs.at? p).map FileTree.entries).getD []

/-- What the steps lead to from a path; every step but the last leads to directories. -/
def select (fs : FileSystem) (onlyFolders : Bool) : List Step → Path → List Path
  | [], p => [p]
  | .descend :: rest, p => ((foldersFrom fs p).flatMap (select fs onlyFolders rest)).eraseDups
  | .wild symbols :: rest, p =>
    let folder := onlyFolders || !rest.isEmpty
    (entriesAt fs p).flatMap fun (name, entry) =>
      if (!folder || entry.isDirectory) && fits symbols name.toList then
        select fs onlyFolders rest (p.child name)
      else []
  | .exact name :: rest, p =>
    let folder := onlyFolders || !rest.isEmpty
    let next := p.child name
    if if folder then fs.isFolder next else (fs.at? next).isSome then
      select fs onlyFolders rest next
    else []

def find (fs : FileSystem) (pattern : Pattern) (p : Path) : List Path :=
  if fs.isFolder p then select fs pattern.onlyFolders pattern.steps p else []

end HeapAudit.Glob
