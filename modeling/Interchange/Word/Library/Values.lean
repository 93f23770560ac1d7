import Interchange.Document.Bag
import Interchange.Number.Numeral
import Interchange.Word.Package

/-!
# The package library: values

Packages are opened and saved with a library of which nothing but its documented behaviour is known
here. The modules `Word.Library.Values`, `Word.Library.Content` and `Word.Library.Saving` stand for
it, and so do opening a package in `Word.Package` and, in `Word.Composition`, the parts of a run
that a text is set as and the looks of the standard styles. Nothing else does.

This module has the values that the library reads and writes: lengths, switches, alignments, the
formats of pictures and the core properties. Lengths are whole numbers of the unit in which drawings
are placed: 635 of them make a twip, the twentieth part of a point. A picture is known by the bytes
it begins with and by nothing else: that its header may be damaged behind them is left out, and so
is its size.
-/
namespace Interchange.Word

open Markup (Element Name)
open Number (Binary64 readDecimal? readInt?)

/-- The number of base units in a twip. -/
def twip : Nat := 635

/-- The units that a number may carry, each two letters long. -/
def units : List (String × Nat) :=
  [("mm", 36000), ("cm", 360000), ("in", 914400), ("pt", 12700), ("pc", 152400), ("pi", 152400)]

/-- A finite number rounded to a whole one. -/
def rounded? (x : Binary64) : Option Int := if x.isFinite then some x.round else none

/-- A number with a unit, as a length. -/
def unitLength? (cs : List Char) : Option Int := do
  let count := cs.length - 2
  let (_, factor) ← units.find? (·.1 = String.ofList (cs.drop count))
  let number ← readDecimal? (cs.take count)
  if number.isFinite then rounded? (number.mulNat factor) else none

/-- A number of twips carries none of the letters that tell a unit. -/
def hasUnit (letters : List Char) (cs : List Char) : Bool := cs.any (letters.contains ·)

/-- A length that cannot be negative is a whole number of twips. -/
def length? (text : String) : Option Int :=
  let cs := text.toList
  if hasUnit ['i', 'm', 'p'] cs then unitLength? cs
  else (readInt? cs).map (· * twip)

/-- A length that may be negative is rounded to whole twips. -/
def signedLength? (text : String) : Option Int :=
  let cs := text.toList
  if hasUnit ['i', 'm', 'p'] cs then unitLength? cs
  else do
    let number ← readDecimal? cs
    let twips ← rounded? number
    some (twips * twip)

/-- Whether the size of a font, in half points or with a unit, is not zero. -/
def isSized? (text : String) : Option Bool :=
  let cs := text.toList
  (if hasUnit ['m', 'n', 'p'] cs then unitLength? cs else readInt? cs).map (· ≠ 0)

/-- The number of whole twips nearest to a length. -/
def twipsOf (length : Int) : Int := ((Binary64.ofInt length).divNat twip).round

/-- A switch that is written out. -/
def switch? (text : String) : Option Bool :=
  if text ∈ ["1", "true", "on"] then some true
  else if text ∈ ["0", "false", "off"] then some false
  else none

inductive Alignment where
  | left
  | center
  | right
  | justify
deriving DecidableEq

namespace Alignment

def all : List Alignment := [.left, .center, .right, .justify]

def name : Alignment → String
  | .left => "left"
  | .center => "center"
  | .right => "right"
  | .justify => "justify"

/-- The word for an alignment in a package. -/
def code : Alignment → String
  | .justify => "both"
  | alignment => alignment.name

def ofName? (name : String) : Option Alignment := all.find? (·.name = name)

/-- The words for alignments that a document cannot say. -/
def otherCodes : List String :=
  ["distribute", "mediumKashida", "highKashida", "lowKashida", "thaiDistribute"]

/-- The alignment for a word, if there is one; no other words are allowed. -/
def ofCode? (code : String) : Option (Option Alignment) :=
  match all.find? (·.code = code) with
  | some alignment => some (some alignment)
  | none => if code ∈ otherCodes then some none else none

theorem ofCode?_code (alignment : Alignment) : ofCode? alignment.code = some (some alignment) := by
  cases alignment <;> decide

end Alignment

inductive ImageFormat where
  | png
  | jpeg
  | gif
  | tiff
  | bmp
deriving DecidableEq

namespace ImageFormat

def extension : ImageFormat → String
  | .png => "png"
  | .jpeg => "jpg"
  | .gif => "gif"
  | .tiff => "tiff"
  | .bmp => "bmp"

def mimeType : ImageFormat → String
  | .png => "image/png"
  | .jpeg => "image/jpeg"
  | .gif => "image/gif"
  | .tiff => "image/tiff"
  | .bmp => "image/bmp"

def asciiBytes (text : String) : List UInt8 := text.toList.map fun c => UInt8.ofNat c.toNat

/-- A format, an offset and the bytes that stand there. -/
def signatures : List (ImageFormat × Nat × List UInt8) := [
  (.png, 0, 0x89 :: asciiBytes "PNG" ++ [0x0d, 0x0a, 0x1a, 0x0a]),
  (.jpeg, 6, asciiBytes "JFIF"),
  (.jpeg, 6, asciiBytes "Exif"),
  (.gif, 0, asciiBytes "GIF87a"),
  (.gif, 0, asciiBytes "GIF89a"),
  (.tiff, 0, asciiBytes "MM" ++ [0x00, 0x2a]),
  (.tiff, 0, asciiBytes "II" ++ [0x2a, 0x00]),
  (.bmp, 0, asciiBytes "BM")]

def ofData? (data : ByteArray) : Option ImageFormat :=
  (signatures.find? fun (_, offset, bytes) =>
    (data.extract offset (offset + bytes.length)).data.toList = bytes).map (·.1)

end ImageFormat

inductive CoreField where
  | title
  | author
  | subject
  | keywords
  | category
  | comments
deriving DecidableEq

namespace CoreField

def all : List CoreField := [.title, .author, .subject, .keywords, .category, .comments]

/-- The name of the property of a document. -/
def name : CoreField → String
  | .title => "title"
  | .author => "author"
  | .subject => "subject"
  | .keywords => "keywords"
  | .category => "category"
  | .comments => "comments"

/-- The local name of the element in a package. -/
def elementName : CoreField → String
  | .title => "title"
  | .author => "creator"
  | .subject => "subject"
  | .keywords => "keywords"
  | .category => "category"
  | .comments => "description"

/-- The end of the namespace that the fields common to all documents are in. -/
def commonSpace : String := "/dc/elements/1.1/"

def isOwn : CoreField → Bool
  | .keywords | .category => true
  | _ => false

/-- Whether an element holds the field. -/
def isNamed (field : CoreField) (name : Name) : Bool :=
  name.localName == field.elementName &&
    if field.isOwn then name.space == (core "").space else name.space.endsWith commonSpace

def element (field : CoreField) (text : String) : Element :=
  .ofText ⟨if field.isOwn then (core "").space else commonSpace, field.elementName⟩ text

end CoreField

abbrev CoreProperties := CoreField → String

namespace CoreProperties

/-- What a new package says before anything is set. -/
def ofTemplate : CoreProperties
  | .author => "python-docx"
  | .comments => "generated by python-docx"
  | _ => ""

/-- What a package without core properties counts as saying. -/
def ofAbsence : CoreProperties
  | .title => "Word Document"
  | _ => ""

def set (properties : CoreProperties) (field : CoreField) (text : String) : CoreProperties :=
  fun f => if f = field then text else properties f

/-- The first element of each name counts. -/
def ofElement (root : Element) : CoreProperties := fun field =>
  match root.children.find? fun e => field.isNamed e.name with
  | some e => e.leadingText
  | none => ""

def toElement (properties : CoreProperties) : Element :=
  .branch (core "coreProperties") (CoreField.all.map fun field => field.element (properties field))

/-- The properties that say something. -/
def toBag (properties : CoreProperties) : Bag :=
  CoreField.all.foldl (fun bag field =>
    let text := properties field
    if text = "" then bag else Bag.insertText bag field.name text) .empty

end CoreProperties

end Interchange.Word
