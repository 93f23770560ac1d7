import Interchange.Markup.Token
import Interchange.Markup.Tree

/-!
# Reading markup

The tree of a text that is well formed: tags match, every prefix is bound where it is used, no
element has an attribute twice, and nothing but comments stands outside the root. Blank text
between elements is dropped unless the space is to be preserved.
-/
namespace Interchange.Markup

/-- The namespaces that prefixes are bound to, the innermost first; the empty prefix is for
elements without one. -/
abbrev Scope := List (List Char × String)

def xmlPrefix : List Char := "xml".toList

def declarationPrefix : List Char := "xmlns".toList

/-- A prefix and a local name, each without a colon. -/
def splitName? (written : List Char) : Option (List Char × List Char) :=
  match Text.splitAt ':' written with
  | [name] => some ([], name)
  | [mark, name] => if mark.isEmpty ∨ name.isEmpty then none else some (mark, name)
  | _ => none

namespace Scope

def lookup? (scope : Scope) (mark : List Char) : Option String :=
  if mark = xmlPrefix then some (String.ofList xmlPrefix)
  else match scope.find? (·.1 = mark) with
    | some (_, space) => some space
    | none => if mark.isEmpty then some "" else none

/-- The prefix that an attribute binds, if it is a declaration. -/
def declared? (written : List Char) : Option (List Char) :=
  if written = declarationPrefix then some []
  else match splitName? written with
    | some (mark, name) => if mark = declarationPrefix then some name else none
    | none => none

/-- The scope inside a tag; only the default namespace can be taken back. -/
def enter? (scope : Scope) (attributes : List (List Char × List Char)) : Option Scope :=
  attributes.foldlM (fun scope (written, value) =>
    match declared? written with
    | none => some scope
    | some mark =>
      if value.isEmpty ∧ !mark.isEmpty then none
      else some ((mark, String.ofList value) :: scope)) scope

def elementName? (scope : Scope) (written : List Char) : Option Name := do
  let (mark, name) ← splitName? written
  let space ← scope.lookup? mark
  some ⟨space, String.ofList name⟩

/-- An attribute without a prefix is in no namespace. -/
def attributeName? (scope : Scope) (written : List Char) : Option Name := do
  let (mark, name) ← splitName? written
  if mark.isEmpty then some ⟨"", String.ofList name⟩
  else do
    let space ← scope.lookup? mark
    some ⟨space, String.ofList name⟩

end Scope

/-- The attributes of a tag other than declarations, if none stands twice. -/
def namedAttributes? (scope : Scope) (attributes : List (List Char × List Char)) :
    Option (List Attribute) := do
  let _ ← if (attributes.map (·.1)).Nodup then some () else none
  let named ← (attributes.filter fun a => (Scope.declared? a.1).isNone).mapM fun (written, value) => do
    let name ← scope.attributeName? written
    some (⟨name, String.ofList value⟩ : Attribute)
  if (named.map (·.name)).Nodup then some named else none

/-- An element under construction: its items are in reverse, and the last may go on when it is
text and `joined`. -/
structure Frame where
  tag : List Char
  name : Name
  attributes : List Attribute
  scope : Scope
  preserve : Bool
  items : List Item
  joined : Bool

namespace Frame

def spaceName : Name := ⟨String.ofList xmlPrefix, "space"⟩

/-- The frame that a tag opens in a scope. -/
def enter? (scope : Scope) (preserve : Bool) (tag : List Char) (written : List (List Char × List Char)) :
    Option Frame := do
  let scope ← scope.enter? written
  let name ← scope.elementName? tag
  let attributes ← namedAttributes? scope written
  let preserve := match attributes.find? (·.name = spaceName) with
    | some ⟨_, value⟩ => value = "preserve"
    | none => preserve
  some ⟨tag, name, attributes, scope, preserve, [], false⟩

def element (frame : Frame) : Element := ⟨frame.name, frame.attributes, frame.items.reverse⟩

def addElement (frame : Frame) (element : Element) : Frame :=
  { frame with items := .element element :: frame.items, joined := false }

def addText (frame : Frame) (text : List Char) : Frame :=
  match frame.joined, frame.items with
  | true, .text before :: items => { frame with items := .text (before ++ String.ofList text) :: items }
  | _, items => { frame with items := .text (String.ofList text) :: items, joined := true }

/-- Text on the two sides of a comment stays apart, also when there is none before it. -/
def addAside (frame : Frame) : Frame :=
  { frame with
    items := if frame.items.isEmpty then [.text ""] else frame.items
    joined := false }

def isWords : Item → Bool
  | .text s => s != ""
  | .element _ => false

/-- Whether plain text is only there to lay out the tags around it, given the next token. -/
def isLayout (frame : Frame) (text : List Char) (next : Option Token) : Bool :=
  let ends := match next with
    | some (.text ..) => true
    | some (.stop _) => frame.items.isEmpty
    | _ => false
  text.all isSpace && !frame.preserve && !ends &&
    !(frame.items.head?.any isWords) && !(frame.items.getLast?.any isWords)

end Frame

/-- The root, whose first frame is open, and the tokens after it. -/
def build? (frame : Frame) (outer : List Frame) : List Token → Option (Element × List Token)
  | [] => none
  | .text text plain :: tokens =>
    if plain ∧ frame.isLayout text tokens.head? then build? frame outer tokens
    else build? (frame.addText text) outer tokens
  | .aside :: tokens => build? frame.addAside outer tokens
  | .documentType :: _ => none
  | .start tag attributes empty :: tokens => do
    let inner ← Frame.enter? frame.scope frame.preserve tag attributes
    if empty then build? (frame.addElement inner.element) outer tokens
    else build? inner (frame :: outer) tokens
  | .stop tag :: tokens =>
    if tag ≠ frame.tag then none
    else match outer with
      | [] => some (frame.element, tokens)
      | parent :: outer => build? (parent.addElement frame.element) outer tokens

/-- Whether a token may stand outside the root. -/
def isOutside : Token → Bool
  | .aside => true
  | .text text plain => plain && text.all isSpace
  | _ => false

/-- The root of a document from its prolog on. -/
def root? : List Token → Option (Element × List Token)
  | .start tag attributes empty :: tokens => do
    let frame ← Frame.enter? [] false tag attributes
    if empty then some (frame.element, tokens) else build? frame [] tokens
  | .documentType :: tokens => root? tokens
  | token :: tokens => if isOutside token then root? tokens else none
  | [] => none

def ofChars? (cs : List Char) : Option Element := do
  let tokens ← tokens? cs
  let (root, rest) ← root? tokens
  if rest.all isOutside then some root else none

/-- The tree of a document in UTF-8, with or without a byte order mark. -/
def ofBytes? (data : ByteArray) : Option Element := do
  let text ← String.fromUTF8? data
  match text.toList with
  | c :: cs => if c.toNat = 0xfeff then ofChars? cs else ofChars? (c :: cs)
  | [] => none

end Interchange.Markup
