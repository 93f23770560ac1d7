import Interchange.Document.Builders
import Interchange.Json.Basic

/-!
# Building nodes by name

The constructors of the shared vocabulary and of mathematics, chosen by name and given their
arguments in order or by name. A property may be given any value that properties take.
-/
namespace Interchange

inductive Argument where
  | node (node : Node)
  | nodes (nodes : List Node)
  | value (value : Json)

inductive ConstructFault where
  | unknown (constructor : String)
  | missing (parameter : String)
  | property (fault : ValueFault)
  | notNodes (kind : String)
  | notNode (kind : String)

def ConstructFault.message : ConstructFault → String
  | .unknown name => "no constructor is named " ++ name
  | .missing parameter => "missing argument: " ++ Text.quoted parameter
  | .property fault => fault.message
  | .notNodes kind => "'" ++ kind ++ "' object is not iterable"
  | .notNode kind => "Children must be Node instances, got " ++ kind

namespace Construct

/-- What the parameters are bound to. -/
abbrev Arguments := List (String × Argument)

/-- Arguments in order take the parameters from the first on. -/
def bind (parameters : List String) (ordered : List Argument) (named : Arguments) : Arguments :=
  parameters.zip ordered ++ named

def argument? (args : Arguments) (parameter : String) : Option Argument :=
  OrderedMap.lookup parameter args

def required (args : Arguments) (parameter : String) : Except ConstructFault Argument :=
  match argument? args parameter with
  | some arg => .ok arg
  | none => .error (.missing parameter)

def asValue : Argument → Except ConstructFault Json
  | .value v => .ok v
  | .node _ => .error (.property .absent)
  | .nodes _ => .error (.property .absent)

def asNode : Argument → Except ConstructFault Node
  | .node node => .ok node
  | .nodes _ => .error (.notNode (Json.kindName (.list [] : Json)))
  | .value v => .error (.notNode v.kindName)

def asNodes : Argument → Except ConstructFault (List Node)
  | .nodes nodes => .ok nodes
  | .node _ => .error (.notNodes "Node")
  | .value (.text s) =>
    if s.isEmpty then .ok [] else .error (.notNode (Json.kindName (.text s : Json)))
  | .value v => .error (.notNodes v.kindName)

/-- The value of a parameter that may be left out. -/
def valueOr (args : Arguments) (parameter : String) (default : Json) :
    Except ConstructFault Json :=
  match argument? args parameter with
  | some arg => asValue arg
  | none => .ok default

def nodesOr (args : Arguments) (parameter : String) : Except ConstructFault (List Node) :=
  match argument? args parameter with
  | some arg => asNodes arg
  | none => .ok []

def put (name : String) (value : Json) (node : Node) : Except ConstructFault Node :=
  (node.set name value).mapError .property

/-- Whether a value is the number one, as which a switch that is on counts too. -/
def isOne : Json → Bool
  | .int n => n == 1
  | .bool b => b
  | .float x => x.equalsInt 1
  | _ => false

/-- A value as free text. -/
def plainText : Json → String
  | .text s => s
  | v => v.shown

/-- A constructor that has children and nothing else. -/
def container? : String → Option (Kind × String × Bool)
  | "paragraph" => some (.paragraph, "children", false)
  | "list_item" => some (.listItem, "children", true)
  | "blockquote" => some (.blockquote, "children", true)
  | "emphasis" => some (.emphasis, "children", true)
  | "strong" => some (.strong, "children", true)
  | "table_row" => some (.tableRow, "cells", true)
  | "table" => some (.table, "rows", true)
  | "document" => some (.document, "children", false)
  | _ => none

def mathematics (kind : Kind) (args : Arguments) : Except ConstructFault Node := do
  let source ← required args "source" >>= asValue
  let format ← valueOr args "fmt" (.text "latex")
  put Key.mathFormat format (.leaf kind) >>= put Key.mathSource source

def parameters : String → List String
  | "text" => ["content"]
  | "heading" => ["level", "children"]
  | "code_block" => ["code", "language"]
  | "link" => ["url", "children"]
  | "image" => ["url", "alt", "resource"]
  | "bullet_list" => ["items"]
  | "ordered_list" => ["items", "start"]
  | "table_cell" => ["children", "header"]
  | "wrap_inline" => ["node", "bold", "italic", "underline", "strikethrough"]
  | "inline_math" => ["source", "fmt"]
  | "display_math" => ["source", "fmt"]
  | "fraction" => ["numerator", "denominator"]
  | name =>
    match container? name with
    | some (_, parameter, _) => [parameter]
    | none => []

/-- A property that is set unless its value is null. -/
def putGiven (name : String) (value : Json) (node : Node) : Except ConstructFault Node :=
  match value with
  | .null => .ok node
  | v => put name v node

def buildBound (name : String) (args : Arguments) : Except ConstructFault Node :=
  match name with
  | "text" => do
    let content ← required args "content" >>= asValue
    put Key.content content (.leaf .text)
  | "heading" => do
    let level ← required args "level" >>= asValue
    let children ← nodesOr args "children"
    put Key.level level (.branch .heading children)
  | "code_block" => do
    let code ← required args "code" >>= asValue
    let language ← valueOr args "language" .null
    let node ← put Key.content code (.leaf .codeBlock)
    if language.isTruthy then put Key.language language node else .ok node
  | "link" => do
    let url ← required args "url" >>= asValue
    let children ← nodesOr args "children"
    put Key.url url (.branch .link children)
  | "image" => do
    let url ← valueOr args "url" .null
    let alt ← valueOr args "alt" .null
    let resource ← valueOr args "resource" .null
    let node ← putGiven Key.url url (.leaf .image) >>= putGiven Key.alt alt
    match resource with
    | .null => .ok node
    | v => .ok (node.withText Key.resource (plainText v))
  | "bullet_list" => do
    let items ← required args "items" >>= asNodes
    .ok (.list false items)
  | "ordered_list" => do
    let items ← required args "items" >>= asNodes
    let start ← valueOr args "start" (.int 1)
    let node := Node.list true items
    if isOne start then .ok node else put Key.start start node
  | "table_cell" => do
    let children ← required args "children" >>= asNodes
    let header ← valueOr args "header" (.bool false)
    put Key.header header (.branch .tableCell children)
  | "horizontal_rule" => .ok (.leaf .horizontalRule)
  | "page_break" => .ok .pageBreak
  | "line_break" => .ok .lineBreak
  | "wrap_inline" => do
    let node ← required args "node" >>= asNode
    let on (flag : StyleFlag) : Except ConstructFault Bool :=
      (valueOr args flag.name (.bool false)).map Json.isTruthy
    let bold ← on .bold
    let italic ← on .italic
    let underline ← on .underline
    let strikethrough ← on .strikethrough
    .ok (node.styled ⟨bold, italic, underline, strikethrough⟩)
  | "inline_math" => mathematics .mathInline args
  | "display_math" => mathematics .mathDisplay args
  | "fraction" => do
    let numerator ← required args "numerator" >>= asNode
    let denominator ← required args "denominator" >>= asNode
    .ok (.branch .mathFraction [numerator, denominator])
  | _ =>
    match container? name with
    | some (kind, parameter, needed) => do
      let children ← if needed then required args parameter >>= asNodes else nodesOr args parameter
      .ok (.branch kind children)
    | none => .error (.unknown name)

def build (name : String) (ordered : List Argument) (named : Arguments) :
    Except ConstructFault Node :=
  buildBound name (bind (parameters name) ordered named)

end Construct

end Interchange
