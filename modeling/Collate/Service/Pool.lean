import Collate.Service.Processing

/-!
A pool of workers that process items. A job is one item; what it came to is
reported with the status of the item, an error, or neither when the item was
begun before. A job is known by its order and item: the random id that it also
bears is only handed back with its report, and is left out. Jobs wait in a queue
and reports in another, each of which holds twice as many as there are workers,
so the pool can be seen as a flow of jobs from one to the next.
-/

namespace Collate.Pool

inductive Fault where
  | noWorkers
  | closed
  deriving DecidableEq, Repr

def Fault.message : Fault → String
  | .noWorkers => "worker_count must be > 0"
  | .closed => "Worker channel closed unexpectedly"

structure Job where
  orderId : String
  itemId : String
  deriving DecidableEq, Repr

/-- What a job came to. -/
structure Report where
  job : Job
  /-- The final status of the item, if this job processed it. -/
  status : Option ItemStatus
  /-- Why the item failed, or why the job could not be done. -/
  error : Option String
  deriving DecidableEq, Repr

namespace Report

def ofResult (job : Job) : Except ServiceFault (Option Item) → Report
  | .ok (some item) => ⟨job, some item.status, item.error⟩
  | .ok none => ⟨job, none, none⟩
  | .error fault => ⟨job, none, some fault.message⟩

/-- Whether the item was completed. -/
def isSuccess (r : Report) : Bool := r.status == some .completed

/-- Whether the item was begun before. -/
def isSkipped (r : Report) : Bool := r.status.isNone && r.error.isNone

end Report

/-- Does a job. -/
def work (policy : Policy) (job : Job) : Procedure Report := do
  pure (Report.ofResult job (← (Service.processItem policy job.itemId).attempt))

def workAll (policy : Policy) : List Job → Procedure (List Report)
  | [] => pure []
  | job :: rest => do
    let report ← work policy job
    let more ← workAll policy rest
    pure (report :: more)

/-- Where the jobs of a client are that submits all of them before it receives
the first report. -/
structure Flow where
  /-- Still with the client. -/
  unsubmitted : Nat
  queued : Nat
  /-- With a worker. -/
  held : Nat
  /-- Reported and waiting for the client. -/
  reported : Nat
  received : Nat
  deriving DecidableEq, Repr

namespace Flow

/-- All jobs are with the client. -/
def start (jobs : Nat) : Flow := ⟨jobs, 0, 0, 0, 0⟩

/-- How many jobs or reports a queue holds. -/
def capacity (workers : Nat) : Nat := workers * 2

inductive Step (workers : Nat) : Flow → Flow → Prop
  /-- The client submits a job. -/
  | submit {u q h r c : Nat} : q < capacity workers →
      Step workers ⟨u + 1, q, h, r, c⟩ ⟨u, q + 1, h, r, c⟩
  /-- An idle worker takes a job. -/
  | take {u q h r c : Nat} : h < workers →
      Step workers ⟨u, q + 1, h, r, c⟩ ⟨u, q, h + 1, r, c⟩
  /-- A worker reports what its job came to. -/
  | report {u q h r c : Nat} : r < capacity workers →
      Step workers ⟨u, q, h + 1, r, c⟩ ⟨u, q, h, r + 1, c⟩
  /-- The client, having submitted everything, receives a report. -/
  | receive {q h r c : Nat} :
      Step workers ⟨0, q, h, r + 1, c⟩ ⟨0, q, h, r, c + 1⟩

inductive Reachable (workers jobs : Nat) : Flow → Prop
  | start : Reachable workers jobs (Flow.start jobs)
  | step {a b : Flow} : Reachable workers jobs a → Step workers a b → Reachable workers jobs b

end Flow

end Collate.Pool
