/-!
# What a conversion lost

A step of a conversion gives its value together with warnings, in the order in which they arose,
about what was dropped or kept in a simpler form. A warning is never an error: the value is there.
-/
namespace Interchange

/-- How much a warning matters, from least to most. -/
inductive Severity where
  | info
  | minor
  | major
  | error
deriving DecidableEq

namespace Severity

def rank : Severity → Nat
  | .info => 0
  | .minor => 1
  | .major => 2
  | .error => 3

def name : Severity → String
  | .info => "info"
  | .minor => "minor"
  | .major => "major"
  | .error => "error"

def all : List Severity := [.info, .minor, .major, .error]

def ofName? (name : String) : Option Severity := all.find? (·.name == name)

def worse (s t : Severity) : Severity := if s.rank < t.rank then t else s

end Severity

/-- What was lost. -/
inductive Loss where
  /-- A feature was dropped entirely. -/
  | featureLost (feature : String)
  /-- Structure was kept, in a simpler form. -/
  | simplified (feature : String)
  /-- A kind of node had no handling of its own. -/
  | unsupportedNode (kind : String)
  /-- A property has no counterpart in the format. -/
  | unsupportedProperty (name : String)
  /-- A resource could not be embedded or found. -/
  | resourceFailed (resource : String)
deriving DecidableEq

def Loss.label : Loss → String
  | .featureLost feature => "FeatureLost(" ++ feature ++ ")"
  | .simplified feature => "Simplified(" ++ feature ++ ")"
  | .unsupportedNode kind => "UnsupportedNode(" ++ kind ++ ")"
  | .unsupportedProperty name => "UnsupportedProperty(" ++ name ++ ")"
  | .resourceFailed resource => "ResourceFailed(" ++ resource ++ ")"

structure Warning where
  severity : Severity
  loss : Loss
  message : String
deriving DecidableEq

namespace Warning

def featureLost (feature message : String) (severity : Severity := .minor) : Warning :=
  ⟨severity, .featureLost feature, message⟩

def simplified (feature message : String) (severity : Severity := .minor) : Warning :=
  ⟨severity, .simplified feature, message⟩

def text (w : Warning) : String :=
  "[" ++ w.severity.name ++ "] " ++ w.loss.label ++ ": " ++ w.message

/-- The line that an operator sees. -/
def line (w : Warning) : String := "warning " ++ w.text

end Warning

structure Outcome (α : Type) where
  value : α
  warnings : List Warning

namespace Outcome

variable {α : Type}

def ok (value : α) : Outcome α := ⟨value, []⟩

def extend (outcome : Outcome α) (warnings : List Warning) : Outcome α :=
  { outcome with warnings := outcome.warnings ++ warnings }

def warn (outcome : Outcome α) (warning : Warning) : Outcome α := outcome.extend [warning]

def hasWarnings (outcome : Outcome α) : Bool := !outcome.warnings.isEmpty

/-- Whether significant information was lost. -/
def hasErrors (outcome : Outcome α) : Bool :=
  outcome.warnings.any fun w => Severity.major.rank ≤ w.severity.rank

def isLossless (outcome : Outcome α) : Bool := outcome.warnings.isEmpty

/-- The severity that no warning exceeds, if there are any. -/
def worst? (outcome : Outcome α) : Option Severity :=
  match outcome.warnings with
  | [] => none
  | w :: ws => some (ws.foldl (fun s w => s.worse w.severity) w.severity)

end Outcome

end Interchange
