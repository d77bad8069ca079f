import Collate.Mapping.Template

/-!
Choosing a template for a lookup. Templates fall into four tiers by how closely
their scope fits: company and document type, company alone, document type alone,
neither. The closest tier wins; inside a tier the lowest priority does, and of
equal priorities the lowest id.
-/

namespace Collate

/-- How closely a template's scope fits a lookup, the closest first. -/
inductive ScopeTier where
  | companyAndDocumentType
  | companyOnly
  | documentTypeOnly
  | global
  deriving DecidableEq, Repr

namespace ScopeTier

def rank : ScopeTier → Nat
  | .companyAndDocumentType => 0
  | .companyOnly => 1
  | .documentTypeOnly => 2
  | .global => 3

/-- Whether one side of a scope names the value, names nothing, or excludes it
by naming another. -/
def fits? (scope : Option String) (value : String) : Option Bool :=
  match scope with
  | none => some false
  | some s => if s = value then some true else none

/-- The tier of a template, or nothing when its scope excludes the lookup. -/
def of? (t : Template) (company documentType : String) : Option ScopeTier :=
  match fits? t.company company, fits? t.documentType documentType with
  | some true, some true => some .companyAndDocumentType
  | some true, some false => some .companyOnly
  | some false, some true => some .documentTypeOnly
  | some false, some false => some .global
  | _, _ => none

end ScopeTier

/-- A template with its tier precedes another. -/
def precedes (a b : ScopeTier × Template) : Bool :=
  if a.1.rank ≠ b.1.rank then a.1.rank < b.1.rank
  else if a.2.priority ≠ b.2.priority then a.2.priority < b.2.priority
  else a.2.id < b.2.id

/-- The first entry that no other precedes. -/
def leading? : List (ScopeTier × Template) → Option (ScopeTier × Template)
  | [] => none
  | first :: rest => some (rest.foldl (fun best c => if precedes c best then c else best) first)

def admitted (templates : List Template) (company documentType : String) (itemType : ItemType) :
    List (ScopeTier × Template) :=
  (templates.filter fun t => t.itemType == itemType).filterMap fun t =>
    (ScopeTier.of? t company documentType).map fun tier => (tier, t)

/-- The template that applies to a lookup. -/
def selectTemplate (templates : List Template) (company documentType : String)
    (itemType : ItemType) : Option Template :=
  (leading? (admitted templates company documentType itemType)).map (·.2)

/-- The plan for a lookup, given the binding and the templates on record. A
binding whose template is missing, or of another item type, is passed over. -/
def resolvePlan (binding? : Option Binding) (templateOf : Int → Option Template)
    (best? : Option Template) (itemType : ItemType) : Option JoinPlan :=
  let fallback := best?.map fun t => JoinPlan.ofConfig t.itemType t.config (.template t.id)
  match binding? with
  | none => fallback
  | some b =>
    match templateOf b.templateId with
    | none => fallback
    | some t =>
      if t.itemType = itemType then
        let config := match b.layer with
          | some layer => t.config.layered layer
          | none => t.config
        some (JoinPlan.ofConfig t.itemType config (.binding t.id))
      else fallback

end Collate
