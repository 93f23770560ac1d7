import Interchange.Document.Builders
import Interchange.Text.Lines

/-!
# Runs of styled text

A text falls into visible characters, style sequences with their parameters, and sequences that do
not style. A control sequence ends at a letter; one that the text breaks off is nothing. An
operating system command runs to a bell or a string terminator, or to the end. Any other escape
character counts as a sequence by itself. The parameters of a style sequence are codes between
semicolons: each switches one style on or off or resets them all, and any other code is ignored.

A terminal keeps its style from one piece of text to the next. A piece falls into runs of visible
characters in one style; the codes that do nothing are collected and the sequences that do not style
are counted.
-/
namespace Interchange.Terminal

/-- What a code does to the style. -/
inductive Change where
  | reset
  | set (flag : StyleFlag) (on : Bool)
  | ignore
deriving DecidableEq

/-- The code that switches a style on. -/
def onCode : StyleFlag → String
  | .bold => "1"
  | .italic => "3"
  | .underline => "4"
  | .strikethrough => "9"

/-- The code that switches a style off. -/
def offCode : StyleFlag → String
  | .bold => "22"
  | .italic => "23"
  | .underline => "24"
  | .strikethrough => "29"

def changeOf (code : String) : Change :=
  if code = "" ∨ code = "0" then .reset
  else match StyleFlag.all.find? (onCode · = code) with
    | some flag => .set flag true
    | none =>
      match StyleFlag.all.find? (offCode · = code) with
      | some flag => .set flag false
      | none => .ignore

def Change.apply (style : TextStyle) : Change → TextStyle
  | .reset => .plain
  | .set flag on => style.set flag on
  | .ignore => style

/-- The codes of a list of parameters, without the blanks around them. -/
def codes (params : List Char) : List String :=
  (Text.splitAt ';' params).map fun code => String.ofList (Text.strip code)

def applyCodes (style : TextStyle) (codes : List String) : TextStyle :=
  codes.foldl (fun style code => (changeOf code).apply style) style

/-- The style after the codes of one sequence. -/
def applySgr (style : TextStyle) (params : List Char) : TextStyle := applyCodes style (codes params)

/-- The codes of one sequence that do nothing. -/
def ignoredCodes (params : List Char) : List String :=
  (codes params).filter fun code => changeOf code = .ignore

def escapeChar : Char := Char.ofNat 0x1b

def bellChar : Char := Char.ofNat 0x07

inductive Token where
  | char (c : Char)
  | sgr (params : List Char)
  | dropped
deriving DecidableEq

def isLetter (c : Char) : Bool := ('a' ≤ c && c ≤ 'z') || ('A' ≤ c && c ≤ 'Z')

/-- What follows an operating system command. -/
def afterCommand : List Char → List Char
  | [] => []
  | c :: cs =>
    if c = bellChar then cs
    else match cs with
      | d :: rest => if c = escapeChar ∧ d = '\\' then rest else afterCommand (d :: rest)
      | [] => []

theorem afterCommand_length_le (cs : List Char) : (afterCommand cs).length ≤ cs.length := by
  fun_induction afterCommand cs with
  | case1 => simp
  | case2 => simp
  | case3 =>
    simp only [List.length_cons]
    omega
  | case4 _ _ _ _ _ ih =>
    simp only [List.length_cons] at ih ⊢
    omega
  | case5 => simp

theorem dropWhile_length_le (p : Char → Bool) (cs : List Char) :
    (cs.dropWhile p).length ≤ cs.length :=
  (List.dropWhile_sublist p).length_le

def tokens (cs : List Char) : List Token :=
  match cs with
  | [] => []
  | c :: cs =>
    if c ≠ escapeChar then .char c :: tokens cs
    else match cs with
      | '[' :: body =>
        match _h : body.dropWhile (!isLetter ·) with
        | [] => []
        | command :: rest =>
          (if command = 'm' then .sgr (body.takeWhile (!isLetter ·)) else .dropped) :: tokens rest
      | ']' :: body => .dropped :: tokens (afterCommand body)
      | cs => .dropped :: tokens cs
termination_by cs.length
decreasing_by
  · simp
  · have := dropWhile_length_le (!isLetter ·) body
    simp only [_h, List.length_cons] at this ⊢
    omega
  · have := afterCommand_length_le body
    simp only [List.length_cons]
    omega
  · simp

/-- The visible characters. -/
def visible (tokens : List Token) : List Char :=
  tokens.filterMap fun
    | .char c => some c
    | _ => none

/-- The text without its escape sequences. -/
def stripEscapes (cs : List Char) : List Char := visible (tokens cs)

structure Run where
  text : List Char
  style : TextStyle
deriving DecidableEq

def Run.node (run : Run) : Node := .styled run.style (.text (String.ofList run.text))

/-- The characters of a run, last first, as a run unless there are none. -/
def closeRun (style : TextStyle) (reversed : List Char) : List Run :=
  if reversed.isEmpty then [] else [⟨reversed.reverse, style⟩]

/-- The runs of tokens after characters already read in the style in force, last first. A sequence
that leaves the style as it is does not end a run. -/
def runsFrom (style : TextStyle) (reversed : List Char) : List Token → List Run
  | [] => closeRun style reversed
  | .char c :: tokens => runsFrom style (c :: reversed) tokens
  | .dropped :: tokens => runsFrom style reversed tokens
  | .sgr params :: tokens =>
    let next := applySgr style params
    if next = style then runsFrom style reversed tokens
    else closeRun style reversed ++ runsFrom next [] tokens

/-- The style in force after the tokens. -/
def styleAfter (style : TextStyle) : List Token → TextStyle
  | [] => style
  | .sgr params :: tokens => styleAfter (applySgr style params) tokens
  | _ :: tokens => styleAfter style tokens

/-- Codes added to a set of codes. -/
def addCodes (known codes : List String) : List String :=
  codes.foldl (fun known code => if code ∈ known then known else known ++ [code]) known

def ignoredIn (known : List String) : List Token → List String
  | [] => known
  | .sgr params :: tokens => ignoredIn (addCodes known (ignoredCodes params)) tokens
  | _ :: tokens => ignoredIn known tokens

def droppedIn (tokens : List Token) : Nat := tokens.countP (· = .dropped)

structure Scanner where
  style : TextStyle
  /-- The codes that did nothing, each once. -/
  ignored : List String
  /-- The number of sequences that do not style. -/
  dropped : Nat
deriving DecidableEq, Inhabited

namespace Scanner

def start (style : TextStyle := .plain) : Scanner := ⟨style, [], 0⟩

def after (scanner : Scanner) (cs : List Char) : Scanner :=
  let ts := tokens cs
  ⟨styleAfter scanner.style ts, ignoredIn scanner.ignored ts, scanner.dropped + droppedIn ts⟩

def runs (scanner : Scanner) (cs : List Char) : List Run := runsFrom scanner.style [] (tokens cs)

/-- The runs of a text, and the scanner for what follows it. -/
def feed (scanner : Scanner) (cs : List Char) : List Run × Scanner :=
  (scanner.runs cs, scanner.after cs)

end Scanner

/-- Codes in the order of their characters. -/
def sortCodes (codes : List String) : List String := codes.mergeSort fun a b => !decide (b < a)

/-- Codes by length, and in the order of their characters among those of one length. -/
def sortCodesByLength (codes : List String) : List String :=
  codes.mergeSort fun a b => a.length < b.length || a.length == b.length && !decide (b < a)

end Interchange.Terminal
