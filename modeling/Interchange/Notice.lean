import Interchange.Fidelity

/-!
# Notices

While a document is read or written, what is lost is noted where it happens. A notice with a topic
becomes a warning only the first time that its topic comes up; one without a topic always does.
-/
namespace Interchange

/-- What a warning is given once for. -/
inductive Topic where
  | feature (name : String)
  | fallback (kind : String)
  | style (name : String)
  | footnote (label : String)
deriving DecidableEq

structure Notice where
  topic : Option Topic
  warning : Warning
deriving DecidableEq

namespace Notice

def once (topic : Topic) (warning : Warning) : Notice := ⟨some topic, warning⟩

def always (warning : Warning) : Notice := ⟨none, warning⟩

/-- The warnings of the notices whose topics have not been seen. -/
def settleAfter (seen : List Topic) : List Notice → List Warning
  | [] => []
  | ⟨none, warning⟩ :: notices => warning :: settleAfter seen notices
  | ⟨some topic, warning⟩ :: notices =>
    if topic ∈ seen then settleAfter seen notices
    else warning :: settleAfter (topic :: seen) notices

def settle (notices : List Notice) : List Warning := settleAfter [] notices

@[simp] theorem settle_nil : settle [] = [] := rfl

/-- The first notice always becomes a warning. -/
@[simp] theorem settle_eq_nil_iff {notices : List Notice} : settle notices = [] ↔ notices = [] := by
  cases notices with
  | nil => simp
  | cons notice notices =>
    obtain ⟨topic, warning⟩ := notice
    cases topic <;> simp [settle, settleAfter]

end Notice

/-- A value together with what was noted on the way to it. -/
structure Noted (α : Type) where
  value : α
  notices : List Notice

namespace Noted

variable {α β : Type}

instance : Monad Noted where
  pure a := ⟨a, []⟩
  bind c f := ⟨(f c.value).value, c.notices ++ (f c.value).notices⟩

def note (notice : Notice) : Noted Unit := ⟨(), [notice]⟩

def noteAll (notices : List Notice) : Noted Unit := ⟨(), notices⟩

def noteWhen (condition : Bool) (notice : Notice) : Noted Unit :=
  ⟨(), if condition then [notice] else []⟩

/-- The value with the warnings that the notices come to. -/
def outcome (c : Noted α) : Outcome α := ⟨c.value, Notice.settle c.notices⟩

@[simp] theorem pure_value (a : α) : (pure a : Noted α).value = a := rfl

@[simp] theorem pure_notices (a : α) : (pure a : Noted α).notices = [] := rfl

@[simp] theorem bind_value (c : Noted α) (f : α → Noted β) :
    (c >>= f).value = (f c.value).value := rfl

@[simp] theorem bind_notices (c : Noted α) (f : α → Noted β) :
    (c >>= f).notices = c.notices ++ (f c.value).notices := rfl

@[simp] theorem map_value (f : α → β) (c : Noted α) : (f <$> c).value = f c.value := rfl

instance : LawfulMonad Noted := LawfulMonad.mk' Noted
  (fun c => congrArg (Noted.mk c.value) (List.append_nil c.notices))
  (fun _ _ => rfl)
  (fun _ _ _ => congrArg (Noted.mk _) (List.append_assoc _ _ _))

/-- Each item has a value of its own, whatever is noted of the others. -/
@[simp] theorem mapM_value (f : α → Noted β) (items : List α) :
    (items.mapM f).value = items.map fun a => (f a).value := by
  induction items with
  | nil => rfl
  | cons a items ih =>
    rw [List.mapM_cons]
    simp only [bind_value, pure_value, ih, List.map_cons]

end Noted

end Interchange
