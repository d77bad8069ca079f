import Collate.Text.Blank
import Collate.Text.Case

/-!
When two key values count as equal. Scanned values differ in blanks around them
and in case, so both may be set aside; a blank value never equals anything,
whatever the rule.
-/

namespace Collate

/-- What is set aside when key values are compared. -/
structure MatchRule where
  trims : Bool
  foldsCase : Bool
  deriving DecidableEq, Repr

namespace MatchRule

/-- The usual rule: blanks around a value and case do not matter. -/
def tolerant : MatchRule := ⟨true, true⟩

def exact : MatchRule := ⟨false, false⟩

/-- The form of a value that is compared, or nothing for a blank value. -/
def form? (rule : MatchRule) (value : String) : Option String :=
  let kept := if rule.trims then Text.trim value else value
  if Text.isBlankText kept then none
  else some (if rule.foldsCase then Text.lower kept else kept)

def agrees (rule : MatchRule) (a b : String) : Bool :=
  (rule.form? a).isSome && rule.form? a == rule.form? b

end MatchRule

end Collate
