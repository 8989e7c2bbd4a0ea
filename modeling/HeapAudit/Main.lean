import HeapAudit.CommandLine.Run
import Std.Time.Format

namespace HeapAudit.Main

/-- What is at an absolute route, without what files hold. Links to directories are left out. -/
partial def outline (route : List String) : IO (Option FileTree) := do
  let path := "/" ++ "/".intercalate route
  try
    let place ← IO.FS.realPath path
    if ← place.isDir then
      let mut entries := []
      for entry in ← place.readDir do
        let linked := (← entry.path.symlinkMetadata).type == .symlink
        unless linked && (← entry.path.isDir) do
          if let some t ← outline (route ++ [entry.fileName]) then
            entries := (entry.fileName, t) :: entries
      return some (.directory entries)
    else return some (.file [])
  catch _ => return none

/-- Adds what is at a path. -/
def addOutline (fs : FileSystem) (p : Path) : IO FileSystem := do
  match ← outline (fs.route p) with
  | some t => return fs.put t p
  | none => return fs

/-- Adds what a file holds, if it can be read. -/
def addBytes (fs : FileSystem) (p : Path) : IO FileSystem := do
  try
    let bytes ← IO.FS.readBinFile ("/" ++ "/".intercalate (fs.route p))
    return fs.put (.file bytes.toList) p
  catch _ => return fs

/-- Adds the directories on the way to a path. -/
def addWay (fs : FileSystem) (p : Path) : IO FileSystem := do
  let mut fs := fs
  let route := fs.route p
  for n in List.range route.length do
    let above : Path := ⟨"/", route.take n⟩
    try
      if ← (← IO.FS.realPath above.text).isDir then fs := fs.makeFolder above
    catch _ => pure ()
  return fs

/-- The part of the disk that an analysis with these options may look at. -/
def load (current : List String) (o : CommandLine.Options) : IO FileSystem := do
  let target := Path.ofText o.target
  let mut fs ← addOutline ⟨.empty, current⟩ target
  let sources := if fs.isFile target then [target]
    else ((sourceFiles fs target o.pattern).toOption).getD []
  for p in sources do
    fs ← addBytes fs p
  if let some output := o.output then
    fs ← addWay fs (.ofText output)
    fs ← addBytes fs (.ofText output)
  return fs

def bytesAt? (fs : FileSystem) (p : Path) : Option (List UInt8) :=
  match fs.at? p with
  | some (.file bytes) => some bytes
  | _ => none

/-- Writes the file at a path if the run has changed it. -/
def store (before after : FileSystem) (path : String) : IO Unit := do
  let p := Path.ofText path
  if let some bytes := bytesAt? after p then
    if bytesAt? before p ≠ some bytes then
      IO.FS.writeBinFile path (ByteArray.mk bytes.toArray)

/-- The moment, as exports are stamped with it. -/
def stamp : IO String := do
  let moment := Std.Time.DateTime.ofTimestamp (← Std.Time.Timestamp.now) .UTC
  return moment.format "uuuu-MM-dd'T'HH:mm:ss.SSSSSSxxx"

end HeapAudit.Main

open HeapAudit in
/-- What a run may look at is read from the disk first, then the run is computed, and what it says
and writes is carried out. -/
def main (args : List String) : IO UInt32 := do
  let current := Path.components (← IO.currentDir).toString
  let options? := match CommandLine.request args with
    | .ok (.analyze o) => some o
    | _ => none
  let fs ← match options? with
    | some o => Main.load current o
    | none => pure ⟨.empty, current⟩
  match CommandLine.run (← Main.stamp) fs args with
  | .error e =>
    IO.eprintln ("Error: " ++ e.message)
    return 1
  | .ok o =>
    for line in o.err do
      IO.eprintln line
    IO.print o.out
    if let some path := options?.bind (·.output) then
      Main.store fs o.files path
    return UInt32.ofNat o.exit
