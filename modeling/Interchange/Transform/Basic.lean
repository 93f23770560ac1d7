import Interchange.Document.Basic
import Interchange.Number.Numeral
import Interchange.Transform.Rewriting

/-!
# Transforms

A transform gives a new document with a rewritten tree; metadata and resources stay, and so does
what is known of the source unless the transform is about that. Transforms are chosen by name, some
with an argument after a colon, and applied one after the other.

The tree is rebuilt by recursion, which goes as deep as nested calls may go. How many levels of
nodes that is depends on who calls and is given as a number, the room; a transform of a tree with
more levels fails under its name.
-/
namespace Interchange

inductive Transform where
  | shiftHeadings (shift : HeadingShift)
  | stripEmpty
  | mergeText
  | unwrapSingleChild
  | dropSourceInfo

/-- Why a transform cannot be made or applied. -/
inductive TransformFault where
  | unknown (name : String)
  | noArgument (name : String)
  | notInteger (argument : String)
  | boundsCrossed (least most : Int)
  | level (fault : ValueFault)
  /-- A function on nodes gave something else. -/
  | notNode (kind : String)
  /-- The tree has more levels than there is room for. -/
  | tooDeep (name : String)

namespace Transform

/-- Each name with what the transform does, by name. -/
def catalog : List (String × String) := [
  ("drop-source-info", "Clear the source format info so writers cannot consult it."),
  ("merge-text", "Merge adjacent text siblings into one text node."),
  ("shift-headings", "Shift all heading levels by a fixed amount."),
  ("strip-empty", "Remove whitespace-only text nodes and childless paragraphs, spans and divs."),
  ("unwrap-single-child", "Replace a div or span that has exactly one child by that child.")]

def names : List String := catalog.map (·.1)

def name : Transform → String
  | .shiftHeadings _ => "shift-headings"
  | .stripEmpty => "strip-empty"
  | .mergeText => "merge-text"
  | .unwrapSingleChild => "unwrap-single-child"
  | .dropSourceInfo => "drop-source-info"

/-- The transforms that take no argument. -/
def plain? : String → Option Transform
  | "strip-empty" => some .stripEmpty
  | "merge-text" => some .mergeText
  | "unwrap-single-child" => some .unwrapSingleChild
  | "drop-source-info" => some .dropSourceInfo
  | _ => none

end Transform

def TransformFault.message : TransformFault → String
  | .unknown name =>
    "transform failed: unknown transform '" ++ name ++ "' (known: " ++
      ", ".intercalate Transform.names ++ ")"
  | .noArgument name => "transform failed: '" ++ name ++ "' takes no argument"
  | .notInteger argument =>
    "transform failed: shift-headings expects an integer, got '" ++ argument ++ "'"
  | .boundsCrossed least most =>
    "transform failed: min_level " ++ Number.intText least ++ " is above max_level " ++
      Number.intText most
  | .level fault => fault.message
  | .notNode kind => "transform failed: map function returned " ++ kind ++ ", not a Node"
  | .tooDeep name => "transform failed: " ++ name ++ ": document tree is too deep"

namespace Transform

def shiftBetween (delta least most : Int) : Except TransformFault Transform :=
  if h : least ≤ most then .ok (.shiftHeadings ⟨delta, least, most, h⟩)
  else .error (.boundsCrossed least most)

/-- A shift by the number that an argument gives. -/
def shiftBy : Option String → Except TransformFault Transform
  | none => .ok (.shiftHeadings .standard)
  | some argument =>
    match Number.readInt? argument.toList with
    | some delta => .ok (.shiftHeadings { HeadingShift.standard with delta })
    | none => .error (.notInteger argument)

/-- The name of a transform and the argument after the first colon. -/
def splitSpec (spec : String) : String × Option String :=
  let cs := spec.toList
  let name := String.ofList (cs.takeWhile (· ≠ ':'))
  match cs.dropWhile (· ≠ ':') with
  | [] => (name, none)
  | _ :: argument => (name, some (String.ofList argument))

def ofSpec (spec : String) : Except TransformFault Transform :=
  let (given, argument) := splitSpec spec
  let name := String.ofList (Text.strip given.toList)
  if name = "shift-headings" then shiftBy argument
  else match plain? name, argument with
    | some transform, none => .ok transform
    | some _, some _ => .error (.noArgument name)
    | none, _ => .error (.unknown given)

/-- The document with its tree rebuilt, if there is room for all its levels. -/
def rewrite (transform : Transform) (make : Node → Except TransformFault Node) (room : Nat)
    (doc : Document) : Except TransformFault Document :=
  match doc.content.rebuild (.tooDeep transform.name) make room with
  | .ok content => .ok { doc with content }
  | .error fault => .error fault

/-- What a transform makes of a document when recursion has room for so many levels. The tree is not
looked at where only the source is dropped. -/
def apply (transform : Transform) (room : Nat) (doc : Document) : Except TransformFault Document :=
  match transform with
  | .shiftHeadings shift => transform.rewrite (fun node => (shift.moved node).mapError .level) room doc
  | .stripEmpty => transform.rewrite (fun node => .ok node.withoutEmpty) room doc
  | .mergeText => transform.rewrite (fun node => .ok node.withMerged) room doc
  | .unwrapSingleChild => transform.rewrite (fun node => .ok node.unwrapped) room doc
  | .dropSourceInfo => .ok { doc with source := none }

/-- The transforms one after the other; the first fault ends it. -/
def applyAll (transforms : List Transform) (room : Nat) (doc : Document) :
    Except TransformFault Document :=
  transforms.foldlM (fun doc transform => transform.apply room doc) doc

def ofSpecs (specs : List String) : Except TransformFault (List Transform) := specs.mapM ofSpec

end Transform

end Interchange
