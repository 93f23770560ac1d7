import Interchange.OrderedMap
import Interchange.Path
import Interchange.Text.Quoted
import Interchange.Word.Library.Saving
import Interchange.Word.Reader
import Interchange.Word.Writer

/-!
# File trees

Directories and the files in them, as a program sees them from its working directory. A path is
followed name by name: every name but the last has to be that of a directory, and two dots lead to
the directory above. What a file holds is bytes, or a package that has just been composed and is
packed only when its bytes are asked for. A package can be read before and after.
-/
namespace Interchange

inductive Payload where
  | bytes (data : ByteArray)
  | composition (composition : Word.Composition)

instance : Inhabited Payload := ⟨.bytes .empty⟩

/-- What a writer gives. -/
inductive Output where
  | text (text : String)
  | composition (composition : Word.Composition)

namespace Payload

def data : Payload → ByteArray
  | .bytes data => data
  | .composition composed => composed.toBytes

/-- Reads a payload as a package. -/
def readPackage (payload : Payload) (options : ReadOptions) : ReadResult :=
  match payload with
  | .bytes data => Word.readArchive data options
  | .composition composed => Word.read composed.package options

end Payload

def Output.payload : Output → Payload
  | .text written => .bytes written.toUTF8
  | .composition composed => .composition composed

/-- Why a file cannot be used. -/
inductive FileFault where
  | missing
  | alreadyThere
  | notDirectory
  | isDirectory
  /-- No name can be handed on with a zero character in it. -/
  | zeroInName
deriving DecidableEq

namespace FileFault

/-- The number that the system gives; it does not come to see a name with a zero. -/
def number? : FileFault → Option Nat
  | .missing => some 2
  | .alreadyThere => some 17
  | .notDirectory => some 20
  | .isDirectory => some 21
  | .zeroInName => none

def text : FileFault → String
  | .missing => "No such file or directory"
  | .alreadyThere => "File exists"
  | .notDirectory => "Not a directory"
  | .isDirectory => "Is a directory"
  | .zeroInName => "embedded null byte"

end FileFault

structure FileError where
  fault : FileFault
  path : Path
deriving DecidableEq

def FileError.message (error : FileError) : String :=
  match error.fault.number? with
  | none => error.fault.text
  | some number =>
    "[Errno " ++ Number.natText number ++ "] " ++ error.fault.text ++ ": " ++
      Text.quoted error.path.toText

inductive Stored where
  | directory
  | file (content : Payload)

/-- The names from the root to a file or a directory. -/
abbrev Place := List String

/-- What is stored at each place; the root is always a directory. -/
structure FileTree where
  /-- The working directory. -/
  home : Place
  entries : OrderedMap Place Stored

namespace FileTree

def get? (tree : FileTree) (place : Place) : Option Stored :=
  if place = [] then some .directory else tree.entries.get? place

def put (tree : FileTree) (place : Place) (stored : Stored) : FileTree :=
  { tree with entries := tree.entries.insert place stored }

/-- Two dots lead to the directory above. -/
def step (place : Place) (name : String) : Place :=
  if name = ".." then place.dropLast else place ++ [name]

/-- Where a path starts. -/
def start (tree : FileTree) (path : Path) : Place := if path.isAbsolute then [] else tree.home

/-- The place that names lead to; what is there is not looked at. -/
def follow (tree : FileTree) (place : Place) : List String → Except FileFault Place
  | [] => .ok place
  | name :: names =>
    match tree.get? place with
    | none => .error .missing
    | some (.file _) => .error .notDirectory
    | some .directory => tree.follow (step place name) names

def hasZero (name : String) : Bool := name.toList.contains '\x00'

def locate (tree : FileTree) (path : Path) : Except FileError Place :=
  if path.names.any hasZero then .error ⟨.zeroInName, path⟩
  else (tree.follow (tree.start path) path.names).mapError (⟨·, path⟩)

/-- All places on the way along a path, the first and the last among them. -/
def trail (tree : FileTree) (path : Path) : List Place :=
  path.names.scanl step (tree.start path)

def isDirectory (tree : FileTree) (path : Path) : Bool :=
  match (tree.locate path).toOption.bind tree.get? with
  | some .directory => true
  | _ => false

def read (tree : FileTree) (path : Path) : Except FileError Payload := do
  let place ← tree.locate path
  match tree.get? place with
  | none => .error ⟨.missing, path⟩
  | some .directory => .error ⟨.isDirectory, path⟩
  | some (.file content) => .ok content

def write (tree : FileTree) (path : Path) (content : Payload) : Except FileError FileTree := do
  let place ← tree.locate path
  match tree.get? place with
  | some .directory => .error ⟨.isDirectory, path⟩
  | _ => .ok (tree.put place (.file content))

def makeDirectory (tree : FileTree) (path : Path) : Except FileError FileTree := do
  let place ← tree.locate path
  match tree.get? place with
  | some _ => .error ⟨.alreadyThere, path⟩
  | none => .ok (tree.put place .directory)

/-- A directory made or found. -/
def makeOrFind (tree : FileTree) (path : Path) : Except FileError FileTree :=
  match tree.makeDirectory path with
  | .ok tree => .ok tree
  | .error error => if tree.isDirectory path then .ok tree else .error error

/-- A directory made or found after those above it. -/
def ensureFrom (root : String) (tree : FileTree) : List String → Except FileError FileTree
  | [] => tree.makeOrFind ⟨root, []⟩
  | name :: above =>
    let path : Path := ⟨root, (name :: above).reverse⟩
    match tree.makeDirectory path with
    | .error ⟨.missing, _⟩ => do
      let tree ← ensureFrom root tree above
      tree.makeOrFind path
    | _ => tree.makeOrFind path

def ensureDirectory (tree : FileTree) (path : Path) : Except FileError FileTree :=
  ensureFrom path.root tree path.names.reverse

/-- Writes a file in a directory that is made if need be. -/
def save (tree : FileTree) (path : Path) (content : Payload) : Except FileError FileTree := do
  let tree ← tree.ensureDirectory path.parent
  tree.write path content

/-- An empty working directory. -/
def ofHome (home : Place) : FileTree := ⟨home, OrderedMap.empty.insert home .directory⟩

/-- A working directory with files in it. -/
def ofFiles (files : List (Path × Payload)) : FileTree :=
  files.foldl (fun tree (path, content) => (tree.save path content).toOption.getD tree)
    (ofHome ["home"])

def files (tree : FileTree) : List (Place × Payload) :=
  tree.entries.entries.filterMap fun (place, stored) =>
    match stored with
    | .file content => some (place, content)
    | .directory => none

def directories (tree : FileTree) : List Place :=
  tree.entries.entries.filterMap fun (place, stored) =>
    match stored with
    | .file _ => none
    | .directory => some place

def sameContent : Payload → Payload → Bool
  | .bytes a, .bytes b => a.data == b.data
  | _, _ => false

/-- The files that are new or have other content than before. -/
def changedFiles (before after : FileTree) : List (Place × Payload) :=
  after.files.filter fun (place, content) =>
    !(before.files.any fun old => old.1 = place && sameContent old.2 content)

/-- The directories that are new, each after those above it. -/
def newDirectories (before after : FileTree) : List Place :=
  after.directories.filter fun place => !before.directories.contains place

/-- The names below the working directory, of a place there. -/
def relative? (tree : FileTree) (place : Place) : Option Place :=
  if tree.home.isPrefixOf place then some (place.drop tree.home.length) else none

/-- The changed files in and below the working directory, directory by directory. -/
def changes (before after : FileTree) : List (Place × Payload) :=
  let changed := (changedFiles before after).filterMap fun (place, content) =>
    (after.relative? place).map (·, content)
  changed.mergeSort fun a b => !decide (b.1 < a.1)

end FileTree

end Interchange
