import Interchange.Text.Points

/-!
# Kinds of nodes

Kinds are open: any text but the empty one names a kind, and what stands before its first colon is
the domain that the kind belongs to. The kinds below are the vocabulary that the formats share.
-/
namespace Interchange

structure Kind (τ : Type := String) [Textual τ] where
  name : τ
  nonempty : name ≠ Textual.empty := by decide
deriving DecidableEq

/-- Whether a list of kinds has one is decided by their equality. -/
instance : LawfulBEq Kind := inferInstance

namespace Kind

def ofName? {τ : Type} [Textual τ] [DecidableEq τ] (name : τ) : Option (Kind τ) :=
  if h : name ≠ Textual.empty then some ⟨name, h⟩ else none

/-- The message for a name that is empty. -/
def emptyMessage : String := "Node kind must not be empty"

/-- What stands before the first colon, if there is one. -/
def domain? (kind : Kind) : Option String :=
  let cs := kind.name.toList
  if cs.contains ':' then some (String.ofList (cs.takeWhile (· ≠ ':'))) else none

/-- What follows the first colon; without one, the whole name. -/
def localName (kind : Kind) : String :=
  let cs := kind.name.toList
  if cs.contains ':' then String.ofList ((cs.dropWhile (· ≠ ':')).drop 1) else kind.name

def document : Kind := ⟨"document", by decide⟩

def paragraph : Kind := ⟨"paragraph", by decide⟩

def heading : Kind := ⟨"heading", by decide⟩

def codeBlock : Kind := ⟨"code_block", by decide⟩

def blockquote : Kind := ⟨"blockquote", by decide⟩

def list : Kind := ⟨"list", by decide⟩

def listItem : Kind := ⟨"list_item", by decide⟩

def table : Kind := ⟨"table", by decide⟩

def tableRow : Kind := ⟨"table_row", by decide⟩

def tableCell : Kind := ⟨"table_cell", by decide⟩

def figure : Kind := ⟨"figure", by decide⟩

def caption : Kind := ⟨"caption", by decide⟩

def horizontalRule : Kind := ⟨"horizontal_rule", by decide⟩

def div : Kind := ⟨"div", by decide⟩

def definitionList : Kind := ⟨"definition_list", by decide⟩

def definitionTerm : Kind := ⟨"definition_term", by decide⟩

def definitionDesc : Kind := ⟨"definition_desc", by decide⟩

def footnoteDef : Kind := ⟨"footnote_def", by decide⟩

def text : Kind := ⟨"text", by decide⟩

def emphasis : Kind := ⟨"emphasis", by decide⟩

def strong : Kind := ⟨"strong", by decide⟩

def strikeout : Kind := ⟨"strikeout", by decide⟩

def underline : Kind := ⟨"underline", by decide⟩

def subscript : Kind := ⟨"subscript", by decide⟩

def superscript : Kind := ⟨"superscript", by decide⟩

def smallCaps : Kind := ⟨"small_caps", by decide⟩

def code : Kind := ⟨"code", by decide⟩

def link : Kind := ⟨"link", by decide⟩

def image : Kind := ⟨"image", by decide⟩

def lineBreak : Kind := ⟨"line_break", by decide⟩

def softBreak : Kind := ⟨"soft_break", by decide⟩

def span : Kind := ⟨"span", by decide⟩

def footnoteRef : Kind := ⟨"footnote_ref", by decide⟩

def quoted : Kind := ⟨"quoted", by decide⟩

def mathInline : Kind := ⟨"math_inline", by decide⟩

def mathDisplay : Kind := ⟨"math_display", by decide⟩

def mathFraction : Kind := ⟨"math:fraction", by decide⟩

instance : Inhabited Kind := ⟨document⟩

end Kind

end Interchange
