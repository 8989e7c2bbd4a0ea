import HeapAudit.Files.Path
import HeapAudit.Text.Quoted
import HeapAudit.Text.Utf8

namespace HeapAudit
open Text

inductive FileTree where
  | file (bytes : List UInt8)
  | directory (entries : List (String × FileTree))

namespace FileTree

def empty : FileTree := .directory []

def isDirectory : FileTree → Bool
  | .directory _ => true
  | .file _ => false

def entries : FileTree → List (String × FileTree)
  | .directory es => es
  | .file _ => []

def entry? (t : FileTree) (name : String) : Option FileTree :=
  (t.entries.find? (·.1 = name)).map (·.2)

/-- Why a path leads nowhere. -/
inductive Dead where
  | missing
  /-- A file is on the way. -/
  | blocked
  deriving DecidableEq, Repr

/-- Follows components, with the directories above at hand, the nearest first. -/
def follow (above : List FileTree) (here : FileTree) : List String → Except Dead FileTree
  | [] => .ok here
  | part :: rest =>
    match here with
    | .file _ => .error .blocked
    | .directory _ =>
      if part = ".." then
        match above with
        | up :: above => follow above up rest
        | [] => follow [] here rest
      else
        match here.entry? part with
        | some next => follow (here :: above) next rest
        | none => .error .missing

def setEntry (es : List (String × FileTree)) (name : String) (t : FileTree) :
    List (String × FileTree) :=
  if es.any (·.1 = name) then es.map fun e => if e.1 = name then (name, t) else e
  else es ++ [(name, t)]

/-- Changes what is at the end of a route; directories on the way that are missing are made, and at
its end an empty directory is changed then. -/
def change (f : FileTree → FileTree) (here : FileTree) : List String → FileTree
  | [] => f here
  | part :: rest =>
    match here with
    | .file _ => here
    | .directory es =>
      let inner := (here.entry? part).getD empty
      .directory (setEntry es part (change f inner rest))

end FileTree

/-- Why a file cannot be written. -/
inductive WriteError where
  | noSuchFile (path : String)
  | isDirectory (path : String)
  | notDirectory (path : String)
  deriving DecidableEq, Repr

def WriteError.message : WriteError → String
  | .noSuchFile path => "[Errno 2] No such file or directory: " ++ quote path
  | .isDirectory path => "[Errno 21] Is a directory: " ++ quote path
  | .notDirectory path => "[Errno 20] Not a directory: " ++ quote path

def WriteError.ofDead (path : String) : FileTree.Dead → WriteError
  | .missing => .noSuchFile path
  | .blocked => .notDirectory path

/-- A tree with the directory that relative paths start from. The step up from the root stays
there. -/
structure FileSystem where
  root : FileTree
  /-- The directory that relative paths start from. -/
  current : List String

namespace FileSystem

/-- The way to a path from the root. -/
def route (fs : FileSystem) (p : Path) : List String :=
  if p.root = "" then fs.current ++ p.parts else p.parts

def follow (fs : FileSystem) (p : Path) : Except FileTree.Dead FileTree :=
  FileTree.follow [] fs.root (fs.route p)

def at? (fs : FileSystem) (p : Path) : Option FileTree := (fs.follow p).toOption

def isFile (fs : FileSystem) (p : Path) : Bool :=
  match fs.at? p with
  | some (.file _) => true
  | _ => false

def isFolder (fs : FileSystem) (p : Path) : Bool :=
  match fs.at? p with
  | some (.directory _) => true
  | _ => false

/-- The text of a file: bytes that are no UTF-8 are replaced, and lines end alike. -/
def read? (fs : FileSystem) (p : Path) : Option String :=
  match fs.at? p with
  | some (.file bytes) => some (String.ofList (unifyNewlines (decode bytes)))
  | _ => none

/-- A route without steps up. -/
def straight (parts : List String) : List String :=
  (parts.foldl (fun done part => if part = ".." then done.tail else part :: done) []).reverse

def change (fs : FileSystem) (f : FileTree → FileTree) (p : Path) : FileSystem :=
  { fs with root := fs.root.change f (straight (fs.route p)) }

def put (fs : FileSystem) (entry : FileTree) (p : Path) : FileSystem := fs.change (fun _ => entry) p

/-- Makes a directory, unless something is there. -/
def makeFolder (fs : FileSystem) (p : Path) : FileSystem := fs.change id p

/-- Writes a file, which a path that ends in a slash does not name. -/
def write (fs : FileSystem) (path content : String) : Except WriteError FileSystem := do
  let p := Path.ofText path
  let slash := path.toList.getLast? = some '/'
  match fs.follow p with
  | .ok (.directory _) => throw (.isDirectory path)
  | .ok (.file _) => if slash then throw (.notDirectory path)
  | .error _ =>
    match fs.follow p.parent with
    | .error dead => throw (.ofDead path dead)
    | .ok (.file _) => throw (.notDirectory path)
    | .ok (.directory _) => if slash then throw (.isDirectory path)
  return fs.put (.file (encode content.toList)) p

end FileSystem

end HeapAudit
