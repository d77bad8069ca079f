/-!
Names that are not known.
-/

namespace Collate.Text

/-- A text that should name something of a kind. -/
structure Unknown where
  kind : String
  text : String
  deriving DecidableEq, Repr

def Unknown.message (u : Unknown) : String :=
  s!"unknown {u.kind} '{u.text}'"

def named {α : Type} (kind : String) (ofName? : String → Option α) (text : String) :
    Except Unknown α :=
  match ofName? text with
  | some value => .ok value
  | none => .error ⟨kind, text⟩

end Collate.Text
