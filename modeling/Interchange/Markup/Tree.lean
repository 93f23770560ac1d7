import Interchange.Number.Digits

/-!
# Markup trees

An element has a name, attributes and content: elements and pieces of text in order. Names are pairs
of a namespace and a local name, so that no prefix is left in a tree. Where a tree is printed, every
namespace that occurs has a prefix of its own, declared at the root.
-/
namespace Interchange.Markup

structure Name where
  space : String
  localName : String
deriving DecidableEq, Inhabited

structure Attribute where
  name : Name
  value : String
deriving DecidableEq

mutual

structure Element where
  name : Name
  attributes : List Attribute
  content : List Item

inductive Item where
  | element (element : Element)
  | text (text : String)

end

namespace Element

instance : Inhabited Element := ⟨⟨default, [], []⟩⟩

def leaf (name : Name) (attributes : List Attribute := []) : Element := ⟨name, attributes, []⟩

def branch (name : Name) (children : List Element) : Element :=
  ⟨name, [], children.map .element⟩

def ofText (name : Name) (text : String) : Element := ⟨name, [], [.text text]⟩

def attribute? (element : Element) (name : Name) : Option String :=
  (element.attributes.find? (·.name = name)).map (·.value)

/-- The element of an item that is one. -/
def ofItem? : Item → Option Element
  | .element e => some e
  | .text _ => none

/-- The elements directly inside. -/
def children (element : Element) : List Element := element.content.filterMap ofItem?

@[simp] theorem children_branch (name : Name) (es : List Element) : (branch name es).children = es := by
  simp [children, branch, List.filterMap_map, Function.comp_def, ofItem?]

def named (element : Element) (name : Name) : List Element :=
  element.children.filter (·.name = name)

def first? (element : Element) (name : Name) : Option Element :=
  element.children.find? (·.name = name)

/-- The text before the first element or comment inside. -/
def leadingText (element : Element) : String :=
  match element.content with
  | .text s :: _ => s
  | _ => ""

mutual

/-- All elements inside, at any depth, in document order. -/
def descendants : Element → List Element
  | ⟨_, _, content⟩ => descendantsIn content

def descendantsIn : List Item → List Element
  | [] => []
  | .element e :: items => e :: descendants e ++ descendantsIn items
  | .text _ :: items => descendantsIn items

end

/-- The elements of one name at any depth. -/
def deep (element : Element) (name : Name) : List Element :=
  element.descendants.filter (·.name = name)

end Element

namespace Element

/-- The namespaces in a tree, each once. -/
def spaces (root : Element) : List String :=
  ((root :: root.descendants).flatMap fun e => e.name.space :: e.attributes.map (·.name.space)).filter
    (· ≠ "") |>.eraseDups

/-- A character of text or, between quotes, of an attribute. -/
def escaped (inQuotes : Bool) (c : Char) : List Char :=
  if c = '&' then "&amp;".toList
  else if c = '<' then "&lt;".toList
  else if c = '>' then "&gt;".toList
  else if c = '\r' ∨ inQuotes ∧ (c = '"' ∨ c = '\t' ∨ c = '\n') then
    "&#".toList ++ Number.digits c.toNat ++ [';']
  else [c]

def escape (inQuotes : Bool) (text : String) : List Char := text.toList.flatMap (escaped inQuotes)

def prefixOf (spaces : List String) (space : String) : List Char :=
  'n' :: Number.digits (spaces.idxOf space)

def printName (spaces : List String) (name : Name) : List Char :=
  if name.space = "" then name.localName.toList
  else prefixOf spaces name.space ++ ':' :: name.localName.toList

def printValue (name : List Char) (value : String) : List Char :=
  ' ' :: name ++ '=' :: '"' :: escape true value ++ ['"']

def declarations (spaces : List String) : List Char :=
  spaces.flatMap fun space => printValue ("xmlns:".toList ++ prefixOf spaces space) space

mutual

/-- An element, with more text at the end of its opening tag. -/
def print (spaces : List String) (more : List Char) : Element → List Char
  | ⟨name, attributes, content⟩ =>
    let tag := printName spaces name
    let opening := '<' :: tag ++ more ++
      attributes.flatMap fun a => printValue (printName spaces a.name) a.value
    if content.isEmpty then opening ++ "/>".toList
    else opening ++ '>' :: printItems spaces content ++ "</".toList ++ tag ++ ['>']

def printItems (spaces : List String) : List Item → List Char
  | [] => []
  | .element e :: items => print spaces [] e ++ printItems spaces items
  | .text s :: items => escape false s ++ printItems spaces items

end

/-- A whole document in UTF-8. -/
def toBytes (root : Element) : ByteArray :=
  let spaces := root.spaces
  let declaration := "<?xml version=\"1.0\" encoding=\"UTF-8\" standalone=\"yes\"?>\n"
  (declaration ++ String.ofList (print spaces (declarations spaces) root)).toUTF8

end Element

end Interchange.Markup
