import Interchange.Text.Lines

/-!
# Paths

A path is a root and the names below it; names that are empty or a single dot are left out. Two
slashes at the start, but not more, are a root of their own.
-/
namespace Interchange

structure Path where
  root : String
  names : List String
deriving DecidableEq, Inhabited

namespace Path

def rootOf (cs : List Char) : String :=
  match cs with
  | '/' :: '/' :: '/' :: _ => "/"
  | '/' :: '/' :: _ => "//"
  | '/' :: _ => "/"
  | _ => ""

def ofText (text : String) : Path :=
  let cs := text.toList
  ⟨rootOf cs, ((Text.splitAt '/' cs).filter fun piece => piece ≠ [] ∧ piece ≠ ['.']).map String.ofList⟩

def toText (path : Path) : String :=
  if path.root = "" ∧ path.names = [] then "." else path.root ++ "/".intercalate path.names

def isAbsolute (path : Path) : Bool := path.root != ""

/-- The last name; a bare root has none. -/
def name (path : Path) : String := path.names.getLastD ""

/-- What follows the last dot of a name, with the dot, unless the dot comes first or last. -/
def suffixOf (name : String) : String :=
  let reversed := name.toList.reverse
  let ending := reversed.takeWhile (· ≠ '.')
  let stem := (reversed.dropWhile (· ≠ '.')).drop 1
  if ending.isEmpty ∨ stem.isEmpty then "" else String.ofList ('.' :: ending.reverse)

def suffix (path : Path) : String := suffixOf path.name

def parent (path : Path) : Path := { path with names := path.names.dropLast }

/-- A path from another one on; an absolute path stands for itself. -/
def join (base path : Path) : Path :=
  if path.isAbsolute then path else ⟨base.root, base.names ++ path.names⟩

end Path

end Interchange
