import Collate.Service.Desk

/-!
Procedures: what a call of the service does, as a tree of single actions on the desk.
Each action takes place at once, and what it gives decides how the procedure goes on.
`Procedure.run` does all actions one after the other; because the tree shows each of
them, one can also ask what happens when other procedures come in between.
-/

namespace Collate

/-- A course of actions on the desk that ends in a value or a fault. -/
inductive Procedure (α : Type) : Type 1 where
  | done (result : Except ServiceFault α)
  | act {β : Type} (action : Desk → β × Desk) (next : β → Procedure α)

namespace Procedure

variable {α β : Type}

/-- One procedure and then another, which depends on the value of the first. -/
def bind : Procedure α → (α → Procedure β) → Procedure β
  | .done (.ok a), f => f a
  | .done (.error e), _ => .done (.error e)
  | .act action next, f => .act action fun b => (next b).bind f

instance : Monad Procedure where
  pure a := .done (.ok a)
  bind := Procedure.bind

/-- Does all actions of a procedure. -/
def run : Procedure α → Desk → Except ServiceFault α × Desk
  | .done result, d => (result, d)
  | .act action next, d =>
    let (b, d) := action d
    (next b).run d

/-- A procedure that gives its fault as a value. -/
def attempt : Procedure α → Procedure (Except ServiceFault α)
  | .done result => .done (.ok result)
  | .act action next => .act action fun b => (next b).attempt

/-- The value of a result, or its fault. -/
def need (result : Except ServiceFault α) : Procedure α := .done result

/-- A single action that does not fail. -/
def perform (action : Desk → α × Desk) : Procedure α :=
  .act action fun a => .done (.ok a)

/-- An operation on the store. -/
def store (op : StoreOp α) : Procedure α :=
  .act
    (fun d => match op d.store with
      | .ok (a, s) => (.ok a, { d with store := s })
      | .error fault => (.error (.ofStore fault), d))
    .done

/-- A look at the store. -/
def look (query : Store → α) : Procedure α :=
  perform fun d => (query d.store, d)

def order (id : String) : Procedure Order := do
  need ((← look (·.order id)).mapError .order)

def item (id : String) : Procedure Item := do
  need ((← look (·.item id)).mapError .order)

def now : Procedure Time.Timestamp := perform fun d => (d.clock, d)

def newIds (count : Nat) : Procedure (Nat → String) :=
  perform fun d => (fun n => Desk.idOf (d.ids + n), { d with ids := d.ids + count })

def readBlob (policy : Policy) (reference : String) : Procedure (Except BlobFault Octets) :=
  perform fun d => (policy.blobs.read d.disk reference, d)

def writeBlob (policy : Policy) (directory filename : String) (content : Octets) :
    Procedure String := do
  let written ← perform fun d =>
    let (written, disk) := policy.blobs.write d.disk directory filename content
    (written, { d with disk })
  need (written.mapError .blob)

def readTable (path : String) : Procedure Table := do
  need ((← perform fun d => (Table.ofFile d.disk path, d)).mapError .table)

def extract (policy : Policy) (config : DocumentConfig) (content : Octets) :
    Procedure (Except String String) :=
  perform fun d => (policy.extract d.calls config content, { d with calls := d.calls + 1 })

/-- Announces an event, if that is the policy. -/
def announce (policy : Policy) (event : ProgressEvent) : Procedure Unit :=
  if policy.announces then perform fun d => ((), { d with events := d.events ++ [event] })
  else pure ()

/-- Announces an event of an order as it stands now. -/
def announceOrder (policy : Policy) (id : String) (phase : Phase) (message : String) :
    Procedure Unit :=
  if policy.announces then do
    announce policy (ProgressEvent.ofOrder (← order id) phase message)
  else pure ()

end Procedure

end Collate
