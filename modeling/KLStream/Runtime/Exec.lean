import KLStream.Queue.Invariant
import KLStream.Runtime.Scheduler

/-!
# Runtime/Exec — the worker, source and stop threads of a started `Runtime`

From `Runtime::start` on, three kinds of thread share the queues: the workers of the `WorkerPool`,
each in `Worker::run`; one thread per source, in the loop of `run_sources`; and the thread that
calls `Runtime::stop`. `RunState` holds where each thread is, the queues, the scheduler's state and a log
of what the threads did; `act` is one step of one thread, with the choices the code leaves to user
operators (what `process` emits, what `generate` emits and returns) given as the action's data.

A step is one critical section of a queue, or one test of a flag, or one call of
`Scheduler::next`. A blocking `push` is one step, taken once the queue has room or is closed:
`BoundedQueue.push` is `none` while the caller would wait, and `Queue/Wakeup` shows that a waiting
thread is never left blocked on a queue with room.

* `RunConfig.ofGraph_init` — the threads run on the instances, queues and workers that
  `Runtime::init` built;
* `act_step` — every step of `act` is one of the transitions `Step` lists, with its guard;
* `Step.queueEffect` — every step does to the queues nothing, or one call of one queue;
* `Reachable.ringInv` — so every queue of every reachable state keeps the ring invariant.
-/

namespace KLStream

/-- What `Runtime::init` leaves for the threads: the wiring of each instance, the number of queues,
the worker count and the scheduling policy. -/
structure RunConfig where
  instances : List InstanceWiring
  numQueues : ℕ
  numWorkers : ℕ
  policy : SchedulingPolicy

namespace RunConfig

variable (cfg : RunConfig)

/-- The config `Runtime::init` builds from a graph. -/
def ofGraph (b : StreamGraphBuilder) (numWorkers : ℕ) (policy : SchedulingPolicy) : RunConfig :=
  ⟨wireInstances b 0, b.edges.length, numWorkers, policy⟩

/-- **The threads run on what `Runtime::init` built**: an `init` of a fresh runtime that returns
leaves the instances, the queue count and the worker count of `ofGraph`. -/
theorem ofGraph_init {nw hc : ℕ} {b : StreamGraphBuilder} {th : ℕ → Bool} {r : Runtime}
    (h : Runtime.new.init nw hc b th = (.returned, r)) (policy : SchedulingPolicy) :
    ofGraph b (Runtime.workerCount nw hc) policy =
      ⟨r.instances, r.queues, r.workerPool.getD 0, policy⟩ := by
  dsimp only [Runtime.init] at h
  split_ifs at h with hs hok
  · cases h
  · cases h; simp [ofGraph, Runtime.build, Runtime.new]
  · cases h

/-- `input_queue_` of instance `j`. -/
def input (j : ℕ) : Option ℕ := (cfg.instances[j]?).bind InstanceWiring.input

/-- The outputs of instance `j`'s context. -/
def outputs (j : ℕ) : List ℕ := ((cfg.instances[j]?).map InstanceWiring.outputs).getD []

/-- Whether instance `j` is one of `source_operators_`. -/
def isSource (j : ℕ) : Bool := ((cfg.instances[j]?).map InstanceWiring.isSource).getD false

/-- `source_operators_`, as instance indices. -/
def sourceIds : List ℕ := idsOf InstanceWiring.isSource cfg.instances 0

theorem mem_sourceIds {j : ℕ} : j ∈ cfg.sourceIds ↔ cfg.isSource j = true := by
  rw [sourceIds, mem_idsOf_zero, isSource]
  by_cases h : j < cfg.instances.length
  · simp [h, List.getElem?_eq_getElem h]
  · simp [h, List.getElem?_eq_none (Nat.le_of_not_lt h)]

end RunConfig

/-- `OperatorContext::emit` of each event of `out` in turn: one blocking `push` per output, in
declaration order. -/
def pushesOf (outputs out : List ℕ) : List (ℕ × ℕ) :=
  out.flatMap fun e => outputs.map fun k => (k, e)

/-- The `max_batch` that `Worker::run` passes to `execute_batch`. -/
def maxBatch : ℕ := 64

/-! ## Threads and state -/

/-- Where a worker is in `Worker::run`. -/
inductive WorkerPhase
  /-- at the loop test `while (running_)` -/
  | top
  /-- in `execute_batch` of instance `j`, `done` events processed, at its loop test -/
  | batch (j done : ℕ)
  /-- in `execute_batch` of instance `j`, holding the event `e` that `try_pop` returned -/
  | holding (j done e : ℕ)
  /-- in `process` of instance `j`, inside `emit`, with the pushes `(queue, event)` left to do -/
  | emitting (j done : ℕ) (pushes : List (ℕ × ℕ))
  /-- returned from `run` -/
  | exited
  deriving DecidableEq, Repr

/-- The instance whose `execute_batch` a worker is in. -/
def WorkerPhase.instance? : WorkerPhase → Option ℕ
  | .batch j _ | .holding j _ _ | .emitting j _ _ => some j
  | .top | .exited => none

/-- Where a source thread is in the loop of `run_sources`. -/
inductive SourcePhase
  /-- at the loop test `running_ && !should_stop()` -/
  | top
  /-- in `generate`, with the pushes left to do and what `generate` returns -/
  | emitting (more : Bool) (pushes : List (ℕ × ℕ))
  /-- returned -/
  | exited
  deriving DecidableEq, Repr

/-- Where the thread that called `Runtime::stop` is. -/
inductive StopPhase
  /-- `stop` not called yet -/
  | running
  /-- every source has had `request_stop`; joining the source threads -/
  | joining
  /-- in a pass of `drain_queues`, about to test `queues_[k]->empty()` -/
  | draining (k : ℕ)
  /-- `running_` is false; about to close `queues_[k]` -/
  | closing (k : ℕ)
  /-- `WorkerPool::stop` has cleared every worker's `running_`; joining the workers -/
  | joiningWorkers
  /-- `shutdown` called on every operator; `stop` has returned -/
  | stopped
  deriving DecidableEq, Repr

/-- The flag `running_` of every worker: set by `WorkerPool::start`, cleared by its `stop`. -/
def StopPhase.poolRunning : StopPhase → Bool
  | .joiningWorkers | .stopped => false
  | _ => true

/-- What the threads did, in order. -/
inductive Obs
  /-- a `push` of `e` onto queue `k` returned `ok` -/
  | push (k e : ℕ) (ok : Bool)
  /-- worker `w`'s `try_pop` on queue `k` returned `e` -/
  | pop (w k e : ℕ)
  /-- worker `w` called `process(e)` on instance `j` -/
  | process (w j e : ℕ)
  deriving DecidableEq, Repr

/-- **A started runtime**: `queues_` (by index), the place of each worker and of each source
thread (by instance index), the stop thread, `positions_` of `RoundRobinScheduler`, the values
`dist(rng_)` of `WorkStealingScheduler` draws in turn with the number drawn so far, and the log. -/
structure RunState (C : Capacity) where
  queues : ℕ → BoundedQueue C ℕ
  workers : ℕ → WorkerPhase
  sources : ℕ → SourcePhase
  stop : StopPhase
  positions : ℕ → ℕ
  draws : ℕ → ℕ
  drawn : ℕ
  log : List Obs

variable {C : Capacity}

namespace RunState

/-- The state `Runtime::start` leaves: empty open queues, every thread at its loop test. -/
def start (draws : ℕ → ℕ) : RunState C :=
  ⟨fun _ => BoundedQueue.init, fun _ => .top, fun _ => .top, .running, fun _ => 0, draws, 0, []⟩

variable (s : RunState C)

def setQueue (k : ℕ) (q : BoundedQueue C ℕ) : RunState C :=
  { s with queues := Function.update s.queues k q }

def setWorker (w : ℕ) (p : WorkerPhase) : RunState C :=
  { s with workers := Function.update s.workers w p }

def setSource (j : ℕ) (p : SourcePhase) : RunState C :=
  { s with sources := Function.update s.sources j p }

def record (o : Obs) : RunState C := { s with log := s.log ++ [o] }

@[simp] theorem setQueue_queues (k q) : (s.setQueue k q).queues = Function.update s.queues k q :=
  rfl
@[simp] theorem setQueue_workers (k q) : (s.setQueue k q).workers = s.workers := rfl
@[simp] theorem setQueue_sources (k q) : (s.setQueue k q).sources = s.sources := rfl
@[simp] theorem setQueue_stop (k q) : (s.setQueue k q).stop = s.stop := rfl
@[simp] theorem setQueue_log (k q) : (s.setQueue k q).log = s.log := rfl
@[simp] theorem setWorker_queues (w p) : (s.setWorker w p).queues = s.queues := rfl
@[simp] theorem setWorker_workers (w p) :
    (s.setWorker w p).workers = Function.update s.workers w p := rfl
@[simp] theorem setWorker_sources (w p) : (s.setWorker w p).sources = s.sources := rfl
@[simp] theorem setWorker_stop (w p) : (s.setWorker w p).stop = s.stop := rfl
@[simp] theorem setWorker_log (w p) : (s.setWorker w p).log = s.log := rfl
@[simp] theorem setSource_queues (j p) : (s.setSource j p).queues = s.queues := rfl
@[simp] theorem setSource_workers (j p) : (s.setSource j p).workers = s.workers := rfl
@[simp] theorem setSource_sources (j p) :
    (s.setSource j p).sources = Function.update s.sources j p := rfl
@[simp] theorem setSource_stop (j p) : (s.setSource j p).stop = s.stop := rfl
@[simp] theorem setSource_log (j p) : (s.setSource j p).log = s.log := rfl
@[simp] theorem record_queues (o) : (s.record o).queues = s.queues := rfl
@[simp] theorem record_workers (o) : (s.record o).workers = s.workers := rfl
@[simp] theorem record_sources (o) : (s.record o).sources = s.sources := rfl
@[simp] theorem record_stop (o) : (s.record o).stop = s.stop := rfl
@[simp] theorem record_log (o) : (s.record o).log = s.log ++ [o] := rfl

/-! ## Readiness -/

/-- `OperatorInstance::has_work`: an input queue that is not empty. -/
def hasWork (cfg : RunConfig) (j : ℕ) : Bool :=
  match cfg.input j with
  | some k => (s.queues k).size != 0
  | none => false

end RunState

namespace RunState

variable (cfg : RunConfig) (s : RunState C)

/-- `scheduler_->next(id_)` under the policy `SchedulerFactory::create` picks: work stealing, or
round robin for every other policy. The schedulers' statistics are left out here: on the lists
`create` deals, `WorkStealingScheduler.next` returns what `wsNext` does (`next_eq_wsNext`), and
`RoundRobinScheduler.next` what `rrNext` does (`RoundRobinScheduler.next_fst`, `next_positions`). -/
def next (w : ℕ) : Option ℕ × RunState C :=
  match cfg.policy with
  | .workStealing =>
    let r := wsNext cfg.instances.length cfg.numWorkers w (s.hasWork cfg) s.draws s.drawn
    (r.1, { s with drawn := r.2 })
  | _ =>
    let r := rrNext cfg.instances.length (s.hasWork cfg) (s.positions w)
    (r.1, { s with positions := Function.update s.positions w r.2 })

@[simp] theorem next_queues (w : ℕ) : (s.next cfg w).2.queues = s.queues := by
  unfold next; split <;> rfl
@[simp] theorem next_workers (w : ℕ) : (s.next cfg w).2.workers = s.workers := by
  unfold next; split <;> rfl
@[simp] theorem next_sources (w : ℕ) : (s.next cfg w).2.sources = s.sources := by
  unfold next; split <;> rfl
@[simp] theorem next_stop (w : ℕ) : (s.next cfg w).2.stop = s.stop := by
  unfold next; split <;> rfl
@[simp] theorem next_log (w : ℕ) : (s.next cfg w).2.log = s.log := by
  unfold next; split <;> rfl

/-! ## One step of one thread -/

/-- A blocking `push` of `e` onto queue `k`, logged; `none` while it waits. -/
def pushOn (k e : ℕ) : Option (RunState C) :=
  ((s.queues k).push e).map fun r => (s.setQueue k r.2).record (.push k e r.1)

/-- **A step of worker `w` that needs no outside input**: the loop test and `next`, a `try_pop`
in `execute_batch`, a `push` in `emit`, or the end of `process`. -/
def workerStep (w : ℕ) : Option (RunState C) :=
  match s.workers w with
  | .top =>
    if s.stop.poolRunning then
      let r := s.next cfg w
      some (r.2.setWorker w (match r.1 with | some j => .batch j 0 | none => .top))
    else some (s.setWorker w .exited)
  | .batch j done =>
    match cfg.input j with
    | none => some (s.setWorker w .top)
    | some k =>
      if done < maxBatch then
        match (s.queues k).tryPop with
        | (none, _) => some (s.setWorker w .top)
        | (some e, q) =>
          some (((s.setQueue k q).setWorker w (.holding j done e)).record (.pop w k e))
      else some (s.setWorker w .top)
  | .holding .. => none
  | .emitting j done [] => some (s.setWorker w (.batch j (done + 1)))
  | .emitting j done ((k, e) :: ps) =>
    (s.pushOn k e).map fun s' => s'.setWorker w (.emitting j done ps)
  | .exited => none

/-- Worker `w`'s operator runs `process` on the event it holds and emits `out`. -/
def processStep (w : ℕ) (out : List ℕ) : Option (RunState C) :=
  match s.workers w with
  | .holding j done e =>
    some ((s.setWorker w (.emitting j done (pushesOf (cfg.outputs j) out))).record (.process w j e))
  | _ => none

/-- A step of source thread `j` that needs no outside input: a `push` in `generate`, its return,
or the loop test once `stop` has asked the source to stop. -/
def sourceStep (j : ℕ) : Option (RunState C) :=
  match s.sources j with
  | .top => if s.stop = .running then none else some (s.setSource j .exited)
  | .emitting more [] => some (s.setSource j (if more then .top else .exited))
  | .emitting more ((k, e) :: ps) =>
    (s.pushOn k e).map fun s' => s'.setSource j (.emitting more ps)
  | .exited => none

/-- Source thread `j` passes its loop test and calls `generate`, which emits `out` and returns
`more`. -/
def generateStep (j : ℕ) (more : Bool) (out : List ℕ) : Option (RunState C) :=
  match s.sources j with
  | .top =>
    if s.stop = .running then some (s.setSource j (.emitting more (pushesOf (cfg.outputs j) out)))
    else none
  | _ => none

/-- **A step of `Runtime::stop`**: `request_stop` on every source, the joins, one `empty()` test
of `drain_queues` (a non-empty queue starts a new pass after the sleep), clearing `running_`, one
`close()`, `WorkerPool::stop`, and the joins and `shutdown` calls. -/
def stopStep : Option (RunState C) :=
  match s.stop with
  | .running => some { s with stop := .joining }
  | .joining =>
    if cfg.sourceIds.all fun j => s.sources j = .exited then some { s with stop := .draining 0 }
    else none
  | .draining k =>
    if k < cfg.numQueues then
      some { s with stop := if (s.queues k).size = 0 then .draining (k + 1) else .draining 0 }
    else some { s with stop := .closing 0 }
  | .closing k =>
    if k < cfg.numQueues then some { s.setQueue k (s.queues k).close with stop := .closing (k + 1) }
    else some { s with stop := .joiningWorkers }
  | .joiningWorkers =>
    if (List.range cfg.numWorkers).all fun w => s.workers w = .exited then
      some { s with stop := .stopped }
    else none
  | .stopped => none

end RunState

/-- A step of one thread, with what a user operator decides. -/
inductive Act
  | worker (w : ℕ)
  | process (w : ℕ) (out : List ℕ)
  | source (j : ℕ)
  | generate (j : ℕ) (more : Bool) (out : List ℕ)
  | stop

namespace RunState

variable (cfg : RunConfig)

/-- **One step** of a worker `w < num_workers`, of the thread of a source instance, or of the
stop thread; `none` when that thread cannot take it. -/
def act (s : RunState C) : Act → Option (RunState C)
  | .worker w => if w < cfg.numWorkers then s.workerStep cfg w else none
  | .process w out => if w < cfg.numWorkers then s.processStep cfg w out else none
  | .source j => if cfg.isSource j then s.sourceStep j else none
  | .generate j more out => if cfg.isSource j then s.generateStep cfg j more out else none
  | .stop => s.stopStep cfg

/-- A sequence of steps. -/
def run (s : RunState C) : List Act → Option (RunState C)
  | [] => some s
  | a :: as => (s.act cfg a).bind fun s' => s'.run as

/-- The states some interleaving reaches from `start`, whatever `rng_` draws. -/
inductive Reachable : RunState C → Prop
  | start (draws : ℕ → ℕ) : Reachable (start draws)
  | step {s s' : RunState C} (a : Act) : Reachable s → s.act cfg a = some s' → Reachable s'

variable {cfg}

@[simp] theorem run_nil (s : RunState C) : s.run cfg [] = some s := rfl

theorem run_cons {s : RunState C} {a : Act} {as : List Act} :
    s.run cfg (a :: as) = (s.act cfg a).bind fun s' => s'.run cfg as := rfl

theorem run_append {s : RunState C} {as bs : List Act} :
    s.run cfg (as ++ bs) = (s.run cfg as).bind fun s' => s'.run cfg bs := by
  induction as generalizing s with
  | nil => rfl
  | cons a as ih =>
    simp only [List.cons_append, run_cons, ih]
    cases s.act cfg a <;> rfl

/-- A sequence of steps from a reachable state ends in a reachable state. -/
theorem Reachable.run {s s' : RunState C} {as : List Act} (hs : s.Reachable cfg)
    (h : s.run cfg as = some s') : s'.Reachable cfg := by
  induction as generalizing s with
  | nil => cases h; exact hs
  | cons a as ih =>
    rw [run_cons, Option.bind_eq_some] at h
    obtain ⟨s₁, h₁, h₂⟩ := h
    exact ih (hs.step a h₁) h₂

/-! ## What a step can do

`Step` lists the transitions of `act`, one constructor per way a thread can move, with the guard
that allows it; `act_step` says that every step of `act` is one of them. Every invariant below is a
case analysis over `Step`. -/

variable (cfg) in
/-- **The transitions of the runtime's threads.** -/
inductive Step : RunState C → RunState C → Prop
  /-- a worker passes `while (running_)` and calls `next` -/
  | next {s : RunState C} {w : ℕ} : w < cfg.numWorkers → s.workers w = .top →
      s.stop.poolRunning = true →
      Step s ((s.next cfg w).2.setWorker w (match (s.next cfg w).1 with
        | some j => .batch j 0 | none => .top))
  /-- a worker finds its `running_` cleared and returns -/
  | exit {s : RunState C} {w : ℕ} : w < cfg.numWorkers → s.workers w = .top →
      s.stop.poolRunning = false → Step s (s.setWorker w .exited)
  /-- `execute_batch` returns: no input queue, `max_batch` reached, or `try_pop` found it empty -/
  | endBatch {s : RunState C} {w j done : ℕ} : w < cfg.numWorkers → s.workers w = .batch j done →
      (∀ k, cfg.input j = some k → done < maxBatch → (s.queues k).size = 0) →
      Step s (s.setWorker w .top)
  /-- `try_pop` in `execute_batch` returns an event -/
  | pop {s : RunState C} {w j done k e : ℕ} {q : BoundedQueue C ℕ} : w < cfg.numWorkers →
      s.workers w = .batch j done → cfg.input j = some k → done < maxBatch →
      (s.queues k).tryPop = (some e, q) →
      Step s (((s.setQueue k q).setWorker w (.holding j done e)).record (.pop w k e))
  /-- `process` runs on the held event and emits `out` -/
  | process {s : RunState C} {w j done e : ℕ} (out : List ℕ) : w < cfg.numWorkers →
      s.workers w = .holding j done e →
      Step s ((s.setWorker w (.emitting j done (pushesOf (cfg.outputs j) out))).record
        (.process w j e))
  /-- `process` returns -/
  | processed {s : RunState C} {w j done : ℕ} : w < cfg.numWorkers →
      s.workers w = .emitting j done [] → Step s (s.setWorker w (.batch j (done + 1)))
  /-- a `push` of a worker's `emit` -/
  | workerPush {s : RunState C} {w j done k e : ℕ} {ps : List (ℕ × ℕ)} {ok : Bool}
      {q : BoundedQueue C ℕ} : w < cfg.numWorkers → s.workers w = .emitting j done ((k, e) :: ps) →
      (s.queues k).push e = some (ok, q) →
      Step s (((s.setQueue k q).record (.push k e ok)).setWorker w (.emitting j done ps))
  /-- a source finds `running_` cleared or its stop requested, and returns -/
  | sourceExit {s : RunState C} {j : ℕ} : cfg.isSource j = true → s.sources j = .top →
      s.stop ≠ .running → Step s (s.setSource j .exited)
  /-- a source passes its loop test and calls `generate` -/
  | generate {s : RunState C} {j : ℕ} (more : Bool) (out : List ℕ) : cfg.isSource j = true →
      s.sources j = .top → s.stop = .running →
      Step s (s.setSource j (.emitting more (pushesOf (cfg.outputs j) out)))
  /-- `generate` returns -/
  | generated {s : RunState C} {j : ℕ} {more : Bool} : cfg.isSource j = true →
      s.sources j = .emitting more [] → Step s (s.setSource j (if more then .top else .exited))
  /-- a `push` of a source's `emit` -/
  | sourcePush {s : RunState C} {j k e : ℕ} {more : Bool} {ps : List (ℕ × ℕ)} {ok : Bool}
      {q : BoundedQueue C ℕ} : cfg.isSource j = true → s.sources j = .emitting more ((k, e) :: ps) →
      (s.queues k).push e = some (ok, q) →
      Step s (((s.setQueue k q).record (.push k e ok)).setSource j (.emitting more ps))
  /-- `stop` is called: `request_stop` on every source -/
  | requestStop {s : RunState C} : s.stop = .running → Step s { s with stop := .joining }
  /-- every source thread has been joined -/
  | joined {s : RunState C} : s.stop = .joining → (∀ j ∈ cfg.sourceIds, s.sources j = .exited) →
      Step s { s with stop := .draining 0 }
  /-- `drain_queues` tests `queues_[k]->empty()`; a non-empty queue starts a new pass -/
  | probe {s : RunState C} {k : ℕ} : s.stop = .draining k → k < cfg.numQueues →
      Step s { s with stop := if (s.queues k).size = 0 then .draining (k + 1) else .draining 0 }
  /-- a pass found every queue empty: `running_` is cleared -/
  | drained {s : RunState C} {k : ℕ} : s.stop = .draining k → cfg.numQueues ≤ k →
      Step s { s with stop := .closing 0 }
  /-- `queues_[k]->close()` -/
  | close {s : RunState C} {k : ℕ} : s.stop = .closing k → k < cfg.numQueues →
      Step s { s.setQueue k (s.queues k).close with stop := .closing (k + 1) }
  /-- `WorkerPool::stop` clears every worker's `running_` -/
  | stopPool {s : RunState C} {k : ℕ} : s.stop = .closing k → cfg.numQueues ≤ k →
      Step s { s with stop := .joiningWorkers }
  /-- every worker has been joined; `shutdown` on every operator, and `stop` returns -/
  | joinedWorkers {s : RunState C} : s.stop = .joiningWorkers →
      (∀ w < cfg.numWorkers, s.workers w = .exited) → Step s { s with stop := .stopped }

variable {s s' : RunState C}

theorem pushOn_eq_some {k e : ℕ} (h : s.pushOn k e = some s') :
    ∃ ok q, (s.queues k).push e = some (ok, q) ∧ s' = (s.setQueue k q).record (.push k e ok) := by
  simp only [pushOn, Option.map_eq_some'] at h
  obtain ⟨⟨ok, q⟩, h₁, rfl⟩ := h
  exact ⟨ok, q, h₁, rfl⟩

theorem tryPop_fst_eq_none {q : BoundedQueue C ℕ} (h : q.tryPop.1 = none) : q.size = 0 := by
  unfold BoundedQueue.tryPop at h; split_ifs at h with hs
  · exact hs

theorem workerStep_step {w : ℕ} (hw : w < cfg.numWorkers) (h : s.workerStep cfg w = some s') :
    Step cfg s s' := by
  unfold workerStep at h
  split at h
  · split_ifs at h with hp <;> cases h
    · exact .next hw ‹_› hp
    · exact .exit hw ‹_› (by simpa using hp)
  · rename_i j done hwj
    cases hin : cfg.input j with
    | none => simp only [hin] at h; cases h; exact .endBatch hw hwj (by simp [hin])
    | some k =>
      simp only [hin] at h
      split_ifs at h with hd
      · rcases htp : (s.queues k).tryPop with ⟨_ | e, q⟩ <;> simp only [htp] at h <;> cases h
        · exact .endBatch hw hwj fun k' hk' _ => by
            cases hin.symm.trans hk'; exact tryPop_fst_eq_none (by rw [htp])
        · exact .pop hw hwj hin hd htp
      · cases h; exact .endBatch hw hwj fun _ _ h => absurd h hd
  · cases h
  · cases h; exact .processed hw ‹_›
  · obtain ⟨s₁, h₁, rfl⟩ := Option.map_eq_some'.1 h
    obtain ⟨ok, q, hq, rfl⟩ := pushOn_eq_some h₁
    exact .workerPush hw ‹_› hq
  · cases h

theorem sourceStep_step {j : ℕ} (hj : cfg.isSource j = true) (h : s.sourceStep j = some s') :
    Step cfg s s' := by
  unfold sourceStep at h
  split at h
  · split_ifs at h with hr; cases h; exact .sourceExit hj ‹_› hr
  · cases h; exact .generated hj ‹_›
  · obtain ⟨s₁, h₁, rfl⟩ := Option.map_eq_some'.1 h
    obtain ⟨ok, q, hq, rfl⟩ := pushOn_eq_some h₁
    exact .sourcePush hj ‹_› hq
  · cases h

theorem stopStep_step (h : s.stopStep cfg = some s') : Step cfg s s' := by
  unfold stopStep at h
  split at h
  · cases h; exact .requestStop ‹_›
  · split_ifs at h with hj; cases h
    exact .joined ‹_› fun j hm => by simpa using List.all_eq_true.1 hj j hm
  · rename_i k hs
    by_cases hk : k < cfg.numQueues
    · rw [if_pos hk] at h; cases h; exact .probe hs hk
    · rw [if_neg hk] at h; cases h; exact .drained hs (Nat.le_of_not_lt hk)
  · rename_i k hs
    by_cases hk : k < cfg.numQueues
    · rw [if_pos hk] at h; cases h; exact .close hs hk
    · rw [if_neg hk] at h; cases h; exact .stopPool hs (Nat.le_of_not_lt hk)
  · split_ifs at h with hw; cases h
    exact .joinedWorkers ‹_› fun w hlt => by
      simpa using List.all_eq_true.1 hw w (by simpa using hlt)
  · cases h

/-- **Every step of `act` is a `Step`.** -/
theorem act_step {a : Act} (h : s.act cfg a = some s') : Step cfg s s' := by
  cases a with
  | worker w =>
    simp only [act] at h; split_ifs at h with hw
    exact workerStep_step hw h
  | process w out =>
    simp only [act] at h; split_ifs at h with hw
    unfold processStep at h
    split at h <;> cases h
    exact .process out hw ‹_›
  | source j =>
    simp only [act] at h; split_ifs at h with hj
    exact sourceStep_step hj h
  | generate j more out =>
    simp only [act] at h; split_ifs at h with hj
    unfold generateStep at h
    split at h
    · split_ifs at h with hr; cases h; exact .generate more out hj ‹_› hr
    · cases h
  | stop => exact stopStep_step h

/-- **What every step keeps holds after every sequence of steps.** -/
theorem Step.run (P : RunState C → Prop) (hP : ∀ {t t'}, Step cfg t t' → P t → P t') (hs : P s)
    {as : List Act} (hr : s.run cfg as = some s') : P s' := by
  induction as generalizing s with
  | nil => cases hr; exact hs
  | cons a as ih =>
    rw [run_cons, Option.bind_eq_some] at hr
    obtain ⟨s₁, h₁, h₂⟩ := hr
    exact ih (hP (act_step h₁) hs) h₂

/-- A step does nothing to the queues, or makes one call on one queue. -/
def QueueEffect (qs qs' : ℕ → BoundedQueue C ℕ) : Prop :=
  qs' = qs ∨ ∃ k op r q, (qs k).step op = some (r, q) ∧ qs' = Function.update qs k q

/-- **Every step does nothing to the queues, or one call of one queue.** -/
theorem Step.queueEffect (h : Step cfg s s') : QueueEffect s.queues s'.queues := by
  cases h with
  | @pop _ _ _ k e q _ _ _ _ hq =>
    exact .inr ⟨k, .tryPop, .popped (some e), q, by simp [BoundedQueue.step, hq], rfl⟩
  | @workerPush _ _ _ k e _ ok q _ _ hq | @sourcePush _ k e _ _ ok q _ _ hq =>
    exact .inr ⟨k, .push e, .pushed ok, q, by simp [BoundedQueue.step, hq], by simp⟩
  | close => exact .inr ⟨_, .close, .void, _, rfl, rfl⟩
  | next => exact .inl (by simp)
  | _ => exact .inl rfl

/-- **The ring invariant holds of every queue of every reachable state.** -/
theorem Reachable.ringInv (hs : s.Reachable cfg) (k : ℕ) : (s.queues k).RingInv := by
  induction hs generalizing k with
  | start => exact BoundedQueue.ringInv_init
  | step a _ ha ih =>
    rcases (act_step ha).queueEffect with he | ⟨k', op, r, q, hq, he⟩
    · rw [he]; exact ih k
    · rw [he]
      by_cases hk : k = k'
      · subst hk; simpa using (ih k).move (BoundedQueue.step_move hq)
      · simpa [Function.update_noteq hk] using ih k

end RunState

/-- The runtime the examples run: `src → map → sink` with one worker under round robin. -/
def soloPipeline : RunConfig := .ofGraph pipeline 1 .roundRobin

end KLStream
