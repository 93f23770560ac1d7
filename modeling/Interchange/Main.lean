import Interchange.CommandLine.Run

/-!
# The program

The files that a request names are looked up, the request is carried out on them, and the changes
are written back. All decisions are those of the request.
-/
namespace Interchange.Main

open CommandLine

def usage : String :=
  "usage: interchange [-v] convert INPUT [-o OUTPUT] [--from FORMAT] [--to FORMAT]\n" ++
  "                   [-t NAME[:ARG]]... [--extract-media DIR] [--pretty]\n" ++
  "                   [--preserve-source] [--use-source-info] [--no-embed]\n" ++
  "       interchange formats\n" ++
  "       interchange transforms\n"

/-- The entry of a file system for a place. -/
def entry (place : Place) : IO.FS.DirEntry := ⟨"", "/".intercalate place⟩

/-- The names in a directory, none if there is no such directory. -/
def namesIn (place : Place) : IO (List String) := do
  let path := (entry place).path
  unless ← path.isDir do return []
  return (← path.readDir).toList.map (·.fileName)

/-- The tree with what is found at a place, if anything is. -/
def observe (tree : FileTree) (place : Place) : IO FileTree := do
  let path := (entry place).path
  if ← path.isDir then return tree.put place .directory
  unless ← path.pathExists do return tree
  return tree.put place (.file (.bytes (← IO.FS.readBinFile path)))

/-- The tree with the files that a conversion may touch. -/
def observeFor (request : ConvertRequest) (tree : FileTree) : IO FileTree := do
  let mut places := request.paths.flatMap tree.trail
  if let some directory := request.mediaDirectory? then
    let place := ((tree.trail (.ofText directory)).getLast?).getD tree.home
    places := places ++ (← namesIn place).map fun name => place ++ [name]
  places.eraseDups.foldlM observe tree

partial def readToEnd (stream : IO.FS.Stream) (data : ByteArray) : IO ByteArray := do
  let chunk ← stream.read 65536
  if chunk.isEmpty then return data else readToEnd stream (data ++ chunk)

def standardInput (request : Request) : IO ByteArray := do
  match request with
  | .convert request =>
    if request.input = Format.standardStream then readToEnd (← IO.getStdin) .empty
    else return .empty
  | _ => return .empty

def standardOutput (data : ByteArray) : IO Unit := do
  let stream ← IO.getStdout
  stream.write data
  stream.flush

/-- Carries out what changed. -/
def store (before after : FileTree) : IO Unit := do
  for place in before.newDirectories after do
    IO.FS.createDirAll ((entry place).path)
  for (place, content) in before.changedFiles after do
    IO.FS.writeBinFile ((entry place).path) content.data

/-- The levels of a tree that a thousand nested calls go through, two for each. -/
def room : Nat := 500

def perform (request : Request) : IO UInt32 := do
  let home := Path.ofText (← IO.currentDir).toString
  let unseen := FileTree.ofHome home.names
  let before ← match request with
    | .convert request => observeFor request unseen
    | _ => pure unseen
  match report request room before (.bytes (← standardInput request)) with
  | .error error =>
    IO.eprintln error.message
    return 1
  | .ok report =>
    store before report.files
    standardOutput report.output.payload.data
    report.lines.forM fun line => IO.eprintln line
    return report.exitCode.toUInt32

def run (arguments : List String) : IO UInt32 := do
  match parse arguments with
  | .ok request => perform request
  | .error refusal =>
    if refusal = .usage then IO.eprint usage else IO.print usage
    return refusal.exitCode.toUInt32

end Interchange.Main

def main (arguments : List String) : IO UInt32 := Interchange.Main.run arguments
