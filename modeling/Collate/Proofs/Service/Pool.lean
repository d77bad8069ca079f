import Collate.Proofs.Service.Procedure
import Collate.Service.Pool
import Mathlib.Logic.Relation

/-!
Whether a pool can come to a halt. Its client submits all jobs and only then receives
the first report, so the queues and the workers have to hold every job at once. They
hold five for each worker: two that wait, one at work and two reported.

A `Crew` is a pool with its jobs, the procedures that its workers are in the middle of,
and the desk they share; others may use the desk in between. `Step.flow` and
`Rests.follow` say that its counts move just as `Flow.Step` does, so that the rest is
counting: a flow with nothing more to do but to wait is `jammed`, and a client with more
jobs than fit can bring it there.
-/

namespace Collate.Pool

open Procedure (Yields)
open Relation (ReflTransGen)

/-! Counting jobs. -/

namespace Flow

variable {workers jobs : Nat} {f g : Flow}

/-- What the bounds of the queues make of the counts. -/
structure Sound (workers jobs : Nat) (f : Flow) : Prop where
  total : f.unsubmitted + f.queued + f.held + f.reported + f.received = jobs
  queued : f.queued ≤ capacity workers
  held : f.held ≤ workers
  reported : f.reported ≤ capacity workers
  received : f.received = 0 ∨ f.unsubmitted = 0

theorem Sound.start (workers jobs : Nat) : (Flow.start jobs).Sound workers jobs :=
  ⟨rfl, Nat.zero_le _, Nat.zero_le _, Nat.zero_le _, .inl rfl⟩

theorem Sound.step (h : f.Sound workers jobs) (hstep : Step workers f g) :
    g.Sound workers jobs := by
  obtain ⟨htotal, hqueued, hheld, hreported, hreceived⟩ := h
  cases hstep <;> constructor <;> dsimp only at * <;> omega

theorem Reachable.sound (h : Reachable workers jobs f) : f.Sound workers jobs := by
  induction h with
  | start => exact .start workers jobs
  | step _ hstep ih => exact ih.step hstep

theorem Step.ne (h : Step workers f g) : f ≠ g := by
  cases h <;> simp

/-- Both queues are full, every worker holds a job, and there are more to submit. -/
def jammed (workers rest : Nat) : Flow :=
  ⟨rest + 1, capacity workers, workers, capacity workers, 0⟩

theorem not_step_jammed (workers rest : Nat) (g : Flow) :
    ¬ Step workers (jammed workers rest) g := by
  intro h
  generalize hf : jammed workers rest = f at h
  cases h <;> simp only [jammed, mk.injEq] at hf <;> omega

/-- Somebody can go on unless all reports are received or the flow is jammed. -/
theorem Sound.step_or_jammed (h : f.Sound workers jobs) :
    (∃ g, Step workers f g) ∨ f.received = jobs ∨ ∃ rest, f = jammed workers rest := by
  obtain ⟨u, q, held, r, c⟩ := f
  obtain ⟨htotal, hqueued, hheld, hreported, hreceived⟩ := h
  dsimp only at *
  have hcapacity : capacity workers = workers * 2 := rfl
  cases u with
  | zero =>
    -- The client receives, so that reports find room and no worker keeps its job.
    cases r with
    | succ r => exact .inl ⟨_, .receive⟩
    | zero =>
      cases held with
      | succ held => exact .inl ⟨_, .report (by omega)⟩
      | zero =>
        cases q with
        | succ q => exact .inl ⟨_, .take (by omega)⟩
        | zero => exact .inr (.inl (by omega))
  | succ u =>
    by_cases hroom : q < capacity workers
    · exact .inl ⟨_, .submit hroom⟩
    by_cases hidle : held < workers
    · obtain ⟨q, rfl⟩ : ∃ n, q = n + 1 := ⟨q - 1, by omega⟩
      exact .inl ⟨_, .take hidle⟩
    by_cases hspace : r < capacity workers
    · obtain ⟨held, rfl⟩ : ∃ n, held = n + 1 := ⟨held - 1, by omega⟩
      exact .inl ⟨_, .report hspace⟩
    have hc : c = 0 := hreceived.resolve_right (Nat.succ_ne_zero u)
    have hq : q = capacity workers := by omega
    have hh : held = workers := by omega
    have hr : r = capacity workers := by omega
    exact .inr (.inr ⟨u, by rw [hc, hq, hh, hr, jammed]⟩)

theorem Reachable.leadsTo (h : Reachable workers jobs f) (hon : ReflTransGen (Step workers) f g) :
    Reachable workers jobs g := by
  induction hon with
  | refl => exact h
  | tail _ hstep ih => exact ih.step hstep

/-- What can be done with one job can be done with more, as many as there is room for. -/
theorem leadsTo_repeated (stage : Nat → Nat → Flow) {room : Nat}
    (hone : ∀ u n, n < room → ReflTransGen (Step workers) (stage (u + 1) n) (stage u (n + 1)))
    (u : Nat) {k : Nat} (hk : k ≤ room) :
    ReflTransGen (Step workers) (stage (u + k) 0) (stage u k) := by
  induction k generalizing u with
  | zero => exact .refl
  | succ k ih =>
    have hbefore := ih (u + 1) (by omega)
    rw [Nat.add_right_comm] at hbefore
    exact hbefore.trans (hone u k hk)

/-- One job more than five for each worker is enough to jam the flow: so many jobs are reported
that the queue of reports is full, then each worker comes to hold one, and then the queue of
jobs is filled. -/
theorem reachable_jammed (workers rest : Nat) :
    Reachable workers (5 * workers + (rest + 1)) (jammed workers rest) := by
  have hcapacity : capacity workers = workers * 2 := rfl
  have hreported := leadsTo_repeated (fun u r => ⟨u, 0, 0, r, 0⟩)
    (fun u r hr => .head (.submit (by omega)) (.head (.take (by omega)) (.single (.report hr))))
    (rest + 1 + capacity workers + workers) (Nat.le_refl (capacity workers))
  have hheld := leadsTo_repeated (fun u h => ⟨u, 0, h, capacity workers, 0⟩)
    (fun u h hh => .head (.submit (by omega)) (.single (.take hh)))
    (rest + 1 + capacity workers) (Nat.le_refl workers)
  have hqueued := leadsTo_repeated (fun u q => ⟨u, q, workers, capacity workers, 0⟩)
    (fun u q hq => .single (.submit hq)) (rest + 1) (Nat.le_refl (capacity workers))
  have hjobs : 5 * workers + (rest + 1) =
      rest + 1 + capacity workers + workers + capacity workers := by omega
  rw [hjobs]
  exact Reachable.start.leadsTo ((hreported.trans hheld).trans hqueued)

end Flow

/-! Doing jobs. -/

/-- A job is always reported: what goes wrong with it is in the report. -/
theorem work_yields (policy : Policy) (job : Job) : (work policy job).Yields :=
  Yields.bind (Yields.attempt _) fun _ => Yields.pure _

/-- Whether a worker has done its job and only has to report. -/
def Finished (p : Procedure Report) : Prop := ∃ report, p = .done (.ok report)

/-- For each worker, how far it is with the job that it holds, if it holds one. -/
abbrev Hands := List (Option (Procedure Report))

namespace Hands

variable {P : Procedure Report → Prop} {before after hands : Hands}
  {old : Option (Procedure Report)} {p : Procedure Report}

def held (hands : Hands) : Nat := hands.countP Option.isSome

@[simp] theorem held_idle (before after : Hands) :
    held (before ++ none :: after) = held before + held after := by
  simp [held]

@[simp] theorem held_busy (before after : Hands) (p : Procedure Report) :
    held (before ++ some p :: after) = held before + held after + 1 := by
  simp [held, Nat.add_assoc]

theorem exists_idle (h : held hands < hands.length) :
    ∃ before after, hands = before ++ none :: after := by
  by_cases hidle : none ∈ hands
  · exact List.append_of_mem hidle
  · have hbusy : held hands = hands.length := List.countP_eq_length.mpr fun hand hmem =>
      Option.isSome_iff_ne_none.mpr fun heq => hidle (heq ▸ hmem)
    omega

theorem exists_busy (h : 0 < held hands) : ∃ before p after, hands = before ++ some p :: after := by
  obtain ⟨hand, hmem, hsome⟩ := List.countP_pos_iff.mp h
  obtain ⟨p, rfl⟩ := Option.isSome_iff_exists.mp hsome
  obtain ⟨before, after, hsplit⟩ := List.append_of_mem hmem
  exact ⟨before, p, after, hsplit⟩

def All (P : Procedure Report → Prop) (hands : Hands) : Prop := ∀ p, some p ∈ hands → P p

theorem All.busy (h : All P (before ++ old :: after)) (hp : P p) :
    All P (before ++ some p :: after) := by
  intro q hq
  simp only [List.mem_append, List.mem_cons, Option.some.injEq] at hq
  rcases hq with hq | rfl | hq
  · exact h q (List.mem_append_left _ hq)
  · exact hp
  · exact h q (List.mem_append_right _ (List.mem_cons_of_mem _ hq))

theorem All.idle (h : All P (before ++ old :: after)) : All P (before ++ none :: after) := by
  intro q hq
  simp only [List.mem_append, List.mem_cons, reduceCtorEq, false_or] at hq
  exact h q (List.mem_append.mpr (hq.imp_right (List.mem_cons_of_mem _)))

theorem All.held (h : All P (before ++ some p :: after)) : P p :=
  h p (List.mem_append_right _ List.mem_cons_self)

end Hands

/-- A pool and a client that submits all jobs before it receives the first report. -/
structure Crew where
  /-- What the workers share with each other and with whoever else is served. -/
  desk : Desk
  /-- Jobs that the client has still to submit. -/
  unsubmitted : List Job
  queue : List Job
  hands : Hands
  reports : List Report
  received : List Report

namespace Crew

open Collate.Pool.Flow (capacity)
open Hands (held held_idle held_busy)

variable {policy : Policy} {workers : Nat} {jobs : List Job} {d : Desk} {x y : Crew} {f : Flow}

def start (workers : Nat) (jobs : List Job) (d : Desk) : Crew :=
  ⟨d, jobs, [], List.replicate workers none, [], []⟩

/-- What one party does next. A worker that finds no job waits, and so does it with a
report, and the client with a job, as long as the queue has no room. -/
inductive Step (policy : Policy) (workers : Nat) : Crew → Crew → Prop
  /-- The client submits a job. -/
  | submit {d : Desk} {job : Job} {u q : List Job} {h : Hands} {r c : List Report} :
      q.length < capacity workers →
      Step policy workers ⟨d, job :: u, q, h, r, c⟩ ⟨d, u, q ++ [job], h, r, c⟩
  /-- An idle worker takes a job. -/
  | take {d : Desk} {job : Job} {u q : List Job} {before after : Hands} {r c : List Report} :
      Step policy workers ⟨d, u, job :: q, before ++ none :: after, r, c⟩
        ⟨d, u, q, before ++ some (work policy job) :: after, r, c⟩
  /-- A worker does the next action of its job. -/
  | act {d : Desk} {u q : List Job} {before after : Hands} {β : Type} {action : Desk → β × Desk}
      {next : β → Procedure Report} {r c : List Report} :
      Step policy workers ⟨d, u, q, before ++ some (.act action next) :: after, r, c⟩
        ⟨(action d).2, u, q, before ++ some (next (action d).1) :: after, r, c⟩
  /-- A worker reports what its job came to. -/
  | report {d : Desk} {u q : List Job} {before after : Hands} {report : Report}
      {r c : List Report} : r.length < capacity workers →
      Step policy workers ⟨d, u, q, before ++ some (.done (.ok report)) :: after, r, c⟩
        ⟨d, u, q, before ++ none :: after, r ++ [report], c⟩
  /-- The client, having submitted everything, receives a report. -/
  | receive {d : Desk} {q : List Job} {h : Hands} {report : Report} {r c : List Report} :
      Step policy workers ⟨d, [], q, h, report :: r, c⟩ ⟨d, [], q, h, r, c ++ [report]⟩

/-- Crews that can be reached, with others at the desk in between. -/
inductive Reachable (policy : Policy) (workers : Nat) (jobs : List Job) (d : Desk) : Crew → Prop
  | start : Reachable policy workers jobs d (start workers jobs d)
  | step {x y : Crew} : Reachable policy workers jobs d x → Step policy workers x y →
      Reachable policy workers jobs d y
  | meanwhile {x : Crew} (e : Desk) : Reachable policy workers jobs d x →
      Reachable policy workers jobs d { x with desk := e }

def flow (x : Crew) : Flow :=
  ⟨x.unsubmitted.length, x.queue.length, held x.hands, x.reports.length, x.received.length⟩

theorem flow_start (workers : Nat) (jobs : List Job) (d : Desk) :
    (start workers jobs d).flow = Flow.start jobs.length := by
  simp [flow, start, held, Flow.start]

/-- There are so many workers, and each job that is held will end in a report. -/
structure Sound (workers : Nat) (x : Crew) : Prop where
  workers : x.hands.length = workers
  yields : Hands.All Yields x.hands

theorem Sound.start (workers : Nat) (jobs : List Job) (d : Desk) :
    (start workers jobs d).Sound workers :=
  ⟨List.length_replicate, fun _ hp => nomatch List.eq_of_mem_replicate hp⟩

theorem Sound.step (h : x.Sound workers) (hstep : Step policy workers x y) :
    y.Sound workers := by
  obtain ⟨hworkers, hyields⟩ := h
  cases hstep with
  | submit _ => exact ⟨hworkers, hyields⟩
  | take => exact ⟨by simpa using hworkers, hyields.busy (work_yields _ _)⟩
  | act => exact ⟨by simpa using hworkers, hyields.busy (hyields.held _)⟩
  | report _ => exact ⟨by simpa using hworkers, hyields.idle⟩
  | receive => exact ⟨hworkers, hyields⟩

theorem Reachable.sound (h : Reachable policy workers jobs d x) : x.Sound workers := by
  induction h with
  | start => exact .start workers jobs d
  | step _ hstep ih => exact ih.step hstep
  | meanwhile e _ ih => exact ⟨ih.workers, ih.yields⟩

def Rests (x : Crew) : Prop := Hands.All Finished x.hands

/-- A step moves a job on, or else a worker was in the middle of one. -/
theorem Step.flow (hstep : Step policy workers x y) (h : x.Sound workers) :
    Flow.Step workers x.flow y.flow ∨ y.flow = x.flow ∧ ¬ x.Rests := by
  cases hstep with
  | submit hroom =>
    left
    simp only [Crew.flow, List.length_cons, List.length_append, List.length_nil]
    exact .submit hroom
  | @take d job u q before after r c =>
    left
    have hidle : held before + held after < workers := by
      have hworkers := h.workers
      have hbefore : held before ≤ before.length := List.countP_le_length
      have hafter : held after ≤ after.length := List.countP_le_length
      simp only [List.length_append, List.length_cons] at hworkers
      omega
    simp only [Crew.flow, List.length_cons, held_idle, held_busy]
    exact .take hidle
  | act =>
    right
    refine ⟨by simp only [Crew.flow, held_busy], fun hrests => ?_⟩
    obtain ⟨report, hdone⟩ := hrests.held
    exact nomatch hdone
  | report hroom =>
    left
    simp only [Crew.flow, List.length_append, List.length_cons, List.length_nil, held_idle,
      held_busy]
    exact .report hroom
  | receive =>
    left
    simp only [Crew.flow, List.length_append, List.length_cons, List.length_nil]
    exact .receive

theorem Reachable.flow (h : Reachable policy workers jobs d x) :
    Flow.Reachable workers jobs.length x.flow := by
  induction h with
  | start =>
    rw [flow_start]
    exact .start
  | step hx hstep ih =>
    rcases hstep.flow hx.sound with hflow | ⟨hsame, _⟩
    · exact ih.step hflow
    · rw [hsame]
      exact ih
  | meanwhile e _ ih => exact ih

/-! Crews that do what a flow does. -/

theorem Reachable.leadsTo (h : Reachable policy workers jobs d x)
    (hon : ReflTransGen (Step policy workers) x y) : Reachable policy workers jobs d y := by
  induction hon with
  | refl => exact h
  | tail _ hstep ih => exact ih.step hstep

/-- A worker can do its job to the end with nobody in between. -/
theorem leadsTo_done {u q : List Job} {before after : Hands} {p : Procedure Report}
    {r c : List Report} (hp : p.Yields) (d : Desk) :
    ∃ e report, ReflTransGen (Step policy workers) ⟨d, u, q, before ++ some p :: after, r, c⟩
      ⟨e, u, q, before ++ some (.done (.ok report)) :: after, r, c⟩ := by
  induction p generalizing d with
  | done result =>
    obtain ⟨report, rfl⟩ := hp
    exact ⟨d, report, .refl⟩
  | act action next ih =>
    obtain ⟨e, report, hon⟩ := ih _ (hp d) (action d).2
    exact ⟨e, report, .head .act hon⟩

/-- A crew at rest can follow a step of its flow and come to rest again. -/
theorem Rests.follow (policy : Policy) (h : x.Rests) (hworkers : x.hands.length = workers)
    (hstep : Flow.Step workers x.flow f) :
    ∃ y, ReflTransGen (Step policy workers) x y ∧ y.Rests ∧ y.flow = f := by
  obtain ⟨d, u, q, hands, r, c⟩ := x
  generalize hflow : flow ⟨d, u, q, hands, r, c⟩ = g at hstep
  cases hstep with
  | submit hroom =>
    obtain ⟨hu, rfl, rfl, rfl, rfl⟩ := Flow.mk.inj hflow
    obtain ⟨job, rest, rfl⟩ := List.exists_cons_of_length_eq_add_one hu
    obtain rfl := Nat.succ.inj hu
    exact ⟨_, .single (.submit hroom), h, by simp [flow]⟩
  | take hidle =>
    obtain ⟨rfl, hq, rfl, rfl, rfl⟩ := Flow.mk.inj hflow
    obtain ⟨job, rest, rfl⟩ := List.exists_cons_of_length_eq_add_one hq
    obtain rfl := Nat.succ.inj hq
    obtain ⟨before, after, rfl⟩ := Hands.exists_idle (hworkers ▸ hidle)
    -- The job is done at once, so that no worker is left in the middle of one.
    obtain ⟨e, report, hon⟩ := leadsTo_done (work_yields policy job) d
    exact ⟨_, .head .take hon, h.busy ⟨report, rfl⟩, by simp [flow]⟩
  | report hroom =>
    obtain ⟨rfl, rfl, hh, rfl, rfl⟩ := Flow.mk.inj hflow
    obtain ⟨before, p, after, rfl⟩ :=
      Hands.exists_busy (Nat.lt_of_lt_of_eq (Nat.succ_pos _) hh.symm)
    obtain ⟨report, rfl⟩ := h.held
    obtain rfl := Nat.succ.inj ((held_busy before after _).symm.trans hh)
    exact ⟨_, .single (.report hroom), h.idle, by simp [flow]⟩
  | receive =>
    obtain ⟨hu, rfl, rfl, hr, rfl⟩ := Flow.mk.inj hflow
    obtain rfl := List.length_eq_zero_iff.mp hu
    obtain ⟨report, rest, rfl⟩ := List.exists_cons_of_length_eq_add_one hr
    obtain rfl := Nat.succ.inj hr
    exact ⟨_, .single .receive, h, by simp [flow]⟩

/-- Whatever a flow can come to, the crew can, and be at rest. -/
theorem exists_rests (policy : Policy) (d : Desk) (h : Flow.Reachable workers jobs.length f) :
    ∃ x, Reachable policy workers jobs d x ∧ x.Rests ∧ x.flow = f := by
  induction h with
  | start =>
    have hrests : (start workers jobs d).Rests := fun _ hp => nomatch List.eq_of_mem_replicate hp
    exact ⟨start workers jobs d, .start, hrests, flow_start workers jobs d⟩
  | step _ hstep ih =>
    obtain ⟨x, hx, hrests, rfl⟩ := ih
    obtain ⟨y, hon, hafter⟩ := hrests.follow policy hx.sound.workers hstep
    exact ⟨y, hx.leadsTo hon, hafter⟩

/-- Somebody can go on if a worker is in the middle of a job or the flow can go on. -/
theorem Sound.exists_step_iff (h : x.Sound workers) :
    (∃ y, Step policy workers x y) ↔ ¬ x.Rests ∨ ∃ f, Flow.Step workers x.flow f := by
  constructor
  · rintro ⟨y, hstep⟩
    rcases hstep.flow h with hflow | ⟨_, hbusy⟩
    · exact .inr ⟨_, hflow⟩
    · exact .inl hbusy
  · intro hgo
    by_cases hrests : x.Rests
    · obtain ⟨f, hstep⟩ := hgo.resolve_left (not_not_intro hrests)
      obtain ⟨y, hon, -, rfl⟩ := hrests.follow policy h.workers hstep
      rcases hon.cases_head with hsame | ⟨z, hfirst, -⟩
      · exact absurd (congrArg flow hsame) hstep.ne
      · exact ⟨z, hfirst⟩
    · obtain ⟨d, u, q, hands, r, c⟩ := x
      obtain ⟨p, hp, hgoing⟩ : ∃ p, some p ∈ hands ∧ ¬ Finished p := by
        simpa only [Rests, Hands.All, Classical.not_forall, Classical.not_imp,
          exists_prop] using hrests
      obtain ⟨before, after, rfl⟩ := List.append_of_mem hp
      cases p with
      | done result => exact absurd ((h.yields _ hp).imp fun _ => congrArg _) hgoing
      | act action next => exact ⟨_, .act⟩

/-- With more than five jobs for each worker, the client can wait for room in the queue of
jobs while every worker waits for room in the queue of reports. -/
theorem exists_jammed (policy : Policy) (d : Desk) {rest : Nat}
    (hjobs : jobs.length = 5 * workers + (rest + 1)) :
    ∃ x, Reachable policy workers jobs d x ∧ x.flow = Flow.jammed workers rest ∧
      ∀ y, ¬ Step policy workers x y := by
  obtain ⟨x, hx, hrests, hflow⟩ :=
    exists_rests policy d (hjobs ▸ Flow.reachable_jammed workers rest)
  refine ⟨x, hx, hflow, fun y hstep => ?_⟩
  rcases hstep.flow hx.sound with hnext | ⟨_, hbusy⟩
  · exact Flow.not_step_jammed workers rest y.flow (hflow ▸ hnext)
  · exact hbusy hrests

/-- Somebody can go on until the client has all reports, whatever the order of the steps and
whatever others do at the desk, if and only if there are at most five jobs for each worker. -/
theorem progress_iff (policy : Policy) (workers : Nat) (jobs : List Job) (d : Desk) :
    (∀ x, Reachable policy workers jobs d x → x.received.length < jobs.length →
      ∃ y, Step policy workers x y) ↔ jobs.length ≤ 5 * workers := by
  constructor
  · intro hprogress
    refine Nat.le_of_not_lt fun hmany => ?_
    obtain ⟨rest, hjobs⟩ := Nat.exists_eq_add_of_lt hmany
    obtain ⟨x, hx, hflow, hstuck⟩ := exists_jammed policy d hjobs
    have hreceived : x.received.length = 0 := congrArg Flow.received hflow
    obtain ⟨y, hstep⟩ := hprogress x hx (by omega)
    exact hstuck y hstep
  · intro hfits x hx hmore
    rcases hx.flow.sound.step_or_jammed with hgo | hall | ⟨rest, hjammed⟩
    · exact hx.sound.exists_step_iff.mpr (.inr hgo)
    · exact absurd hall (Nat.ne_of_lt hmore)
    · have htotal := hx.flow.sound.total
      rw [hjammed] at htotal
      simp only [Flow.jammed, Flow.capacity] at htotal
      omega

/-- One worker and six jobs: two reports wait for the client, which waits for the queue with
two jobs to have room for the last one, and the worker waits to report another. -/
theorem six_jobs_jam_one_worker :
    let policy : Policy := ⟨.standard, .tolerant, ⟨"blobs"⟩, .local, false⟩
    let jobs : List Job := ["i1", "i2", "i3", "i4", "i5", "i6"].map (Job.mk "o1")
    ∃ x, Reachable policy 1 jobs Desk.empty x ∧ x.flow = ⟨1, 2, 1, 2, 0⟩ ∧
      x.received.length < jobs.length ∧ ∀ y, ¬ Step policy 1 x y := by
  intro policy jobs
  obtain ⟨x, hx, hflow, hstuck⟩ :=
    exists_jammed policy Desk.empty (show jobs.length = 5 * 1 + (0 + 1) from rfl)
  have hreceived : x.received.length = 0 := congrArg Flow.received hflow
  exact ⟨x, hx, hflow, by rw [hreceived]; decide, hstuck⟩

end Crew

end Collate.Pool
