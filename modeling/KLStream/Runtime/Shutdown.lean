import KLStream.Runtime.Drain
import KLStream.Runtime.Backpressure
import Mathlib.Logic.Relation

/-!
# Runtime/Shutdown — the lifecycle calls with the threads between them

`Runtime/Lifecycle` takes the end of `Runtime::stop`, from the source joins through `drain_queues`
to `shutdown`, as a step `finishStop` that may or may not come; `Runtime/Exec` runs that part as the
steps of the stop thread. Here the two are one system, `RuntimeSystem`: a `Runtime` with the threads
`start` launched on what `init` built. A public call is a lifecycle call; every other step is one
step of one thread, and records the `process` or `generate` it calls on an operator; the stop
thread's last step, once it has joined the workers, is `finishStop`.

* `RuntimeSystem.Reachable.inv` — every runtime the system reaches the lifecycle model reaches too,
  and `state_` is `Stopped` exactly when the stop thread has returned;
* `Stalled.run` — a queue that no instance reads and that holds an event keeps the stop thread in
  `drain_queues` along every continuation;
* `destroy_shutdown` — so operators get `shutdown` exactly when the runtime was `Running` and the stop
  thread has passed `drain_queues` and joined the workers, then exactly once, after `init` and after
  every `process` or `generate`; and such a queue keeps `stop`, and the destructor that calls it,
  from ever getting there.
-/

namespace KLStream

variable {C : Capacity}

/-! ## What moves the stop thread

Only the stop thread's own steps move it, a worker holds events only of instances that read a
queue, and a pending event in a queue no instance reads keeps every pass of `drain_queues` from
ending. -/

/-- Instance `j` reads a queue exactly when it is an instance with an input. -/
theorem RunConfig.lt_of_input_isSome (cfg : RunConfig) {j : ℕ} (h : (cfg.input j).isSome) :
    j < cfg.instances.length := by
  by_contra hj
  simp [RunConfig.input, List.getElem?_eq_none (Nat.le_of_not_lt hj)] at h

theorem RunConfig.lt_of_isSource (cfg : RunConfig) {j : ℕ} (h : cfg.isSource j = true) :
    j < cfg.instances.length := by
  by_contra hj
  simp [RunConfig.isSource, List.getElem?_eq_none (Nat.le_of_not_lt hj)] at h

/-- Instance `j` reads queue `k` only if it is one of the instances and its input is `k`. -/
theorem RunConfig.input_ne (cfg : RunConfig) {k : ℕ}
    (h : ∀ i ∈ cfg.instances, i.input ≠ some k) (j : ℕ) : cfg.input j ≠ some k := by
  intro hj
  obtain ⟨i, hi, hk⟩ := Option.bind_eq_some.1 hj
  exact h i (List.getElem?_mem hi) hk

namespace RunState

variable {cfg : RunConfig} {s s' : RunState C}

/-- A step of a worker or a source thread leaves `stop` where it is. -/
theorem act_stop_of_ne {a : Act} (h : s.act cfg a = some s') (ha : a ≠ .stop) :
    s'.stop = s.stop := by
  cases a with
  | worker w =>
    simp only [act] at h; split_ifs at h; unfold workerStep at h
    split at h
    · split_ifs at h <;> cases h <;> simp
    · split at h
      · cases h; rfl
      · split_ifs at h
        · split at h <;> cases h <;> rfl
        · cases h; rfl
    · cases h
    · cases h; rfl
    · obtain ⟨s₁, h₁, rfl⟩ := Option.map_eq_some'.1 h
      obtain ⟨ok, q, -, rfl⟩ := pushOn_eq_some h₁
      rfl
    · cases h
  | process w out =>
    simp only [act] at h; split_ifs at h; unfold processStep at h
    split at h
    · cases h; rfl
    · cases h
  | source j =>
    simp only [act] at h; split_ifs at h; unfold sourceStep at h
    split at h
    · split_ifs at h; cases h; rfl
    · cases h; rfl
    · obtain ⟨s₁, h₁, rfl⟩ := Option.map_eq_some'.1 h
      obtain ⟨ok, q, -, rfl⟩ := pushOn_eq_some h₁
      rfl
    · cases h
  | generate j more out =>
    simp only [act] at h; split_ifs at h; unfold generateStep at h
    split at h
    · split_ifs at h; cases h; rfl
    · cases h
  | stop => exact absurd rfl ha

/-- `generate` runs only on a source instance. -/
theorem act_generate_isSource {j : ℕ} {more : Bool} {out : List ℕ}
    (h : s.act cfg (.generate j more out) = some s') : cfg.isSource j = true := by
  simp only [act] at h; split_ifs at h with hj; exact hj

/-- A worker holds an event only of an instance that reads a queue. -/
theorem Step.holding_input (hs : Step cfg s s')
    (h : ∀ w j d e, s.workers w = .holding j d e → (cfg.input j).isSome) :
    ∀ w j d e, s'.workers w = .holding j d e → (cfg.input j).isSome := by
  intro w' j' d' e' hw'
  cases hs with
  | next =>
    simp only [setWorker_workers, next_workers, Function.update_apply] at hw'
    split_ifs at hw'
    · split at hw' <;> cases hw'
    · exact h _ _ _ _ hw'
  | pop _ _ hin =>
    simp only [record_workers, setWorker_workers, setQueue_workers, Function.update_apply] at hw'
    split_ifs at hw'
    · cases hw'; simp [hin]
    · exact h _ _ _ _ hw'
  | exit | endBatch | process | processed | workerPush =>
    simp only [record_workers, setWorker_workers, setQueue_workers] at hw'
    rw [Function.update_apply] at hw'
    split_ifs at hw'
    exact h _ _ _ _ hw'
  | sourcePush | sourceExit | generate | generated =>
    simp only [setSource_workers, record_workers, setQueue_workers] at hw'
    exact h _ _ _ _ hw'
  | _ => exact h _ _ _ _ hw'

/-- A `push` never shrinks its queue. -/
theorem push_size {q q' : BoundedQueue C ℕ} {e : ℕ} {ok : Bool} (h : q.push e = some (ok, q')) :
    q.size ≤ q'.size := by
  dsimp only [BoundedQueue.push] at h
  split_ifs at h
  simp only [BoundedQueue.pushCommit, BoundedQueue.mapStats_closed, Option.some.injEq] at h
  split_ifs at h <;> cases h <;> simp

/-- Queue `k` holds an event, and `stop` has not passed it in the current pass of
`drain_queues`. -/
def Orphaned (k : ℕ) (s : RunState C) : Prop := (s.queues k).size ≠ 0 ∧ s.stop.Before k

/-- **A queue no instance reads keeps its event, and `drain_queues` from passing it**: no worker
pops it, a push only adds to it, and a probe of it finds it non-empty and starts the pass again. -/
theorem Step.orphaned {k : ℕ} (hs : Step cfg s s') (hin : ∀ j, cfg.input j ≠ some k)
    (hk : k < cfg.numQueues) (h : s.Orphaned k) : s'.Orphaned k := by
  obtain ⟨hsz, hb⟩ := h
  cases hs with
  | next => simpa [Orphaned] using And.intro hsz hb
  | exit | endBatch | process | processed | sourceExit | generate | generated => exact ⟨hsz, hb⟩
  | pop _ _ hin' =>
    refine ⟨?_, hb⟩
    simp only [record_queues, setWorker_queues, setQueue_queues]
    rwa [Function.update_noteq fun h => hin _ (h ▸ hin')]
  | workerPush _ _ hq | sourcePush _ _ hq =>
    refine ⟨?_, hb⟩
    simp only [setWorker_queues, setSource_queues, record_queues, setQueue_queues,
      Function.update_apply]
    split_ifs with hkk
    · subst hkk; have := push_size hq; omega
    · exact hsz
  | requestStop | joined => exact ⟨hsz, by simp [StopPhase.Before]⟩
  | probe hst _ =>
    refine ⟨hsz, ?_⟩
    rw [hst] at hb
    dsimp only
    split_ifs with h0
    · have : _ ≠ k := fun h => hsz (h ▸ h0)
      simp only [StopPhase.Before] at hb ⊢
      omega
    · simp [StopPhase.Before]
  | drained hst hn =>
    rw [hst] at hb
    simp only [StopPhase.Before] at hb
    omega
  | close hst _ | stopPool hst _ | joinedWorkers hst => rw [hst] at hb; exact hb.elim

end RunState

/-! ## The runtime with its threads

A thread step records the operator call it makes, and the stop thread's return ends `stop`. -/

namespace Runtime

/-- `start` calls. -/
def Call.isStart : Call → Bool
  | .start => true
  | _ => false

/-- What the threads of a started runtime run on: every instance, the queues and the worker count
that `init` built, under the configured policy. -/
def runConfig (r : Runtime) (policy : SchedulingPolicy) : RunConfig :=
  ⟨r.instances, r.queues, r.workerPool.getD 0, policy⟩

end Runtime

/-- The instance whose operator a thread's step calls: `process` on the event worker `w` holds, or
`generate` of source `j`. -/
def Act.calledInstance (s : RunState C) : Act → Option ℕ
  | .process w _ =>
    match s.workers w with
    | .holding j _ _ => some j
    | _ => none
  | .generate j _ _ => some j
  | _ => none

namespace Runtime

/-- **The runtime after one thread step** from `t` to `t'`: the operator call the step makes, and,
once the stop thread has joined the workers, the end of `stop`. -/
def afterStep (r : Runtime) (t t' : RunState C) (a : Act) : Runtime :=
  let r' := match a.calledInstance t with
    | some j => { r with calls := r.calls ++ [.work j] }
    | none => r
  if t'.stop = .stopped then r'.finishStop else r'

section AfterStep

variable (r : Runtime) (t t' : RunState C) (a : Act)

@[simp] theorem afterStep_instances : (r.afterStep t t' a).instances = r.instances := by
  unfold afterStep; split <;> split_ifs <;> simp
@[simp] theorem afterStep_queues : (r.afterStep t t' a).queues = r.queues := by
  unfold afterStep; split <;> split_ifs <;> simp
@[simp] theorem afterStep_workerPool : (r.afterStep t t' a).workerPool = r.workerPool := by
  unfold afterStep; split <;> split_ifs <;> simp
@[simp] theorem afterStep_scheduler : (r.afterStep t t' a).scheduler = r.scheduler := by
  unfold afterStep; split <;> split_ifs <;> simp

theorem afterStep_state : (r.afterStep t t' a).state =
    if t'.stop = .stopped ∧ r.state = .shuttingDown then .stopped else r.state := by
  unfold afterStep
  split <;> split_ifs <;> simp_all [finishStop_state]

/-- **The lifecycle model takes every thread step**: an operator call the threads may make, then,
if the stop thread has returned, the end of `stop`. -/
theorem Reachable.afterStep {r : Runtime} (hr : r.Reachable)
    (h : ∀ j, a.calledInstance t = some j → r.Runs j) : (r.afterStep t t' a).Reachable := by
  have hrec : (match a.calledInstance t with
      | some j => { r with calls := r.calls ++ [.work j] }
      | none => r : Runtime).Reachable := by
    split
    next j hj => exact hr.work (h j hj)
    next => exact hr
  unfold Runtime.afterStep
  split_ifs
  exacts [hrec.finish, hrec]

end AfterStep

end Runtime

/-- **A `Runtime` object with its threads**: the members the lifecycle calls touch, and the threads
`start` launched, read from `Running` on. -/
structure RuntimeSystem (C : Capacity) where
  runtime : Runtime
  threads : RunState C

namespace RuntimeSystem

/-- `Runtime(config)`: no thread has started. -/
def new : RuntimeSystem C := ⟨Runtime.new, RunState.start fun _ => 0⟩

/-- A public call; a `start` that starts the runtime launches the threads on empty queues, with the
values `dist(rng_)` will draw. -/
def call (p : RuntimeSystem C) (c : Runtime.Call) (draws : ℕ → ℕ) : RuntimeSystem C :=
  ⟨(p.runtime.call c).2,
    if c.isStart = true ∧ p.runtime.state = .initialized then .start draws else p.threads⟩

variable (policy : SchedulingPolicy)

/-- **One step of the system.** -/
inductive Step : RuntimeSystem C → RuntimeSystem C → Prop
  /-- a public call; `start` on a runtime whose scheduler holds every instance, as every `init` of
  a fresh runtime leaves it -/
  | call (p : RuntimeSystem C) (c : Runtime.Call) (draws : ℕ → ℕ) :
      (c.isStart = true → p.runtime.state = .initialized →
        p.runtime.scheduler = some (List.range p.runtime.instances.length)) →
      Step p (p.call c draws)
  /-- a step of one thread while the threads run; of the stop thread only once `stop` was called -/
  | thread (p : RuntimeSystem C) {t' : RunState C} (a : Act) :
      (p.runtime.state = .running ∨ p.runtime.state = .shuttingDown) →
      (a = .stop → p.runtime.state = .shuttingDown) →
      p.threads.act (p.runtime.runConfig policy) a = some t' →
      Step p ⟨p.runtime.afterStep p.threads t' a, t'⟩

/-- The systems some sequence of calls and thread steps reaches from `Runtime(config)`. -/
def Reachable (p : RuntimeSystem C) : Prop := Relation.ReflTransGen (Step policy) new p

/-! ## The invariant

The lifecycle model reaches every runtime of the system, and `state_` follows the stop thread. -/

/-- **What every reachable system satisfies**: the lifecycle model reaches its runtime; once
started, the scheduler holds every instance and a worker holds events only of instances that read a
queue; and `state_` follows the stop thread: `Running` until `stop` is called, `ShuttingDown` until
the stop thread returns, `Stopped` once it has. -/
structure Inv (p : RuntimeSystem C) : Prop where
  runtime : p.runtime.Reachable
  scheduler : 2 ≤ p.runtime.state.rank →
    p.runtime.scheduler = some (List.range p.runtime.instances.length)
  holding : 2 ≤ p.runtime.state.rank → ∀ w j d e, p.threads.workers w = .holding j d e →
    ((p.runtime.runConfig policy).input j).isSome
  running : p.runtime.state = .running → p.threads.stop = .running
  shuttingDown : p.runtime.state = .shuttingDown → p.threads.stop ≠ .stopped
  stopped : p.runtime.state = .stopped → p.threads.stop = .stopped

variable {policy} {p : RuntimeSystem C}

/-- Before `start` the invariant asks only that the lifecycle model reach the runtime. -/
theorem Inv.of_rank_lt (hr : p.runtime.Reachable) (hrank : p.runtime.state.rank < 2) :
    p.Inv policy where
  runtime := hr
  scheduler h := absurd h (by omega)
  holding h := absurd h (by omega)
  running h := absurd hrank (by rw [h]; decide)
  shuttingDown h := absurd hrank (by rw [h]; decide)
  stopped h := absurd hrank (by rw [h]; decide)

theorem inv_new : (new : RuntimeSystem C).Inv policy := Inv.of_rank_lt .new (show 0 < 2 by decide)

/-- A public call keeps the invariant: `init` acts before the threads start, `start` launches them
with `stop` not called, and `stop` from `Running` leaves the stop thread where it was. -/
theorem Inv.call (h : p.Inv policy) (c : Runtime.Call) (draws : ℕ → ℕ)
    (hst : c.isStart = true → p.runtime.state = .initialized →
      p.runtime.scheduler = some (List.range p.runtime.instances.length)) :
    (p.call c draws).Inv policy := by
  have hrun := h.runtime.call c
  obtain ⟨r, t⟩ := p
  cases c with
  | init nw hc b th =>
    obtain ⟨o, r', hi⟩ : ∃ o r', r.init nw hc b th = (o, r') := ⟨_, _, rfl⟩
    simp only [call, Runtime.call, hi, Runtime.Call.isStart, Bool.false_eq_true, false_and,
      if_false] at hrun ⊢
    rcases Runtime.init_cases hi with ⟨-, -, rfl⟩ | ⟨-, -, hs, -⟩ | ⟨-, -, hs, -⟩
    · exact h
    all_goals exact Inv.of_rank_lt hrun (by rw [hs]; decide)
  | start =>
    by_cases hs : r.state = .initialized
    · simp only [call, Runtime.call, Runtime.start, hs, Runtime.Call.isStart, ne_eq,
        not_true_eq_false, if_false, and_self, if_true] at hrun ⊢
      exact ⟨hrun, fun _ => hst rfl hs, fun _ _ _ _ _ hw => by simp [RunState.start] at hw,
        fun _ => rfl, nofun, nofun⟩
    · simpa [call, Runtime.call, Runtime.start, hs] using h
  | stop =>
    by_cases hs : r.state = .running
    · simp only [call, Runtime.call, Runtime.stop, hs, Runtime.Call.isStart, ne_eq,
        not_true_eq_false, if_false, Bool.false_eq_true, false_and] at hrun ⊢
      exact ⟨hrun, fun _ => h.scheduler (by rw [hs]; decide), fun _ => h.holding (by rw [hs]; decide),
        nofun, fun _ => by rw [h.running hs]; nofun, nofun⟩
    · simpa [call, Runtime.call, Runtime.stop, hs, Runtime.Call.isStart] using h
  | awaitCompletion => simpa [call, Runtime.call, Runtime.Call.isStart] using h

/-- A thread step keeps the invariant: the lifecycle model takes it (`Reachable.afterStep`), and the
stop thread returns exactly when `state_` becomes `Stopped`. -/
theorem Inv.thread (h : p.Inv policy) {t' : RunState C} {a : Act}
    (hlive : p.runtime.state = .running ∨ p.runtime.state = .shuttingDown)
    (hstop : a = .stop → p.runtime.state = .shuttingDown)
    (ha : p.threads.act (p.runtime.runConfig policy) a = some t') :
    (⟨p.runtime.afterStep p.threads t' a, t'⟩ : RuntimeSystem C).Inv policy := by
  have hrank : 2 ≤ p.runtime.state.rank := by rcases hlive with h' | h' <;> rw [h'] <;> decide
  have hcfg : (p.runtime.afterStep p.threads t' a).runConfig policy = p.runtime.runConfig policy := by
    simp [Runtime.runConfig]
  have hsched := h.scheduler hrank
  refine ⟨Runtime.Reachable.afterStep _ _ _ h.runtime fun j hj => ⟨hlive, ?_⟩,
    fun _ => by simpa using hsched,
    fun _ => hcfg ▸ (RunState.act_step ha).holding_input (h.holding hrank), ?_, ?_, ?_⟩
  · -- the instance a thread calls is one the scheduler holds
    rw [hsched]
    refine .inl (List.mem_range.2 ?_)
    cases a with
    | process w out =>
      simp only [Act.calledInstance] at hj
      split at hj
      next hw => cases hj; exact (p.runtime.runConfig policy).lt_of_input_isSome (h.holding hrank _ _ _ _ hw)
      next => cases hj
    | generate =>
      cases hj; exact (p.runtime.runConfig policy).lt_of_isSource (RunState.act_generate_isSource ha)
    | _ => cases hj
  -- `state_` moves only when the stop thread returns, and only from `ShuttingDown`
  all_goals
    dsimp only
    rw [Runtime.afterStep_state]
    rcases hlive with hr | hsd
    · have ht : t'.stop = .running := (RunState.act_stop_of_ne ha fun h' => by
        rw [hstop h'] at hr; cases hr).trans (h.running hr)
      simp [hr, ht]
    · by_cases ht : t'.stop = .stopped <;> simp [hsd, ht]

theorem Step.inv {q : RuntimeSystem C} (hs : Step policy p q) (h : p.Inv policy) : q.Inv policy := by
  cases hs with
  | call c draws hst => exact h.call c draws hst
  | thread a hlive hstop ha => exact h.thread hlive hstop ha

/-- **Every reachable system keeps the invariant.** -/
theorem Reachable.inv (hp : p.Reachable policy) : p.Inv policy := by
  induction hp with
  | refl => exact inv_new
  | tail _ hs ih => exact hs.inv ih

/-- A public call on running threads leaves them, the queues and the instances as they are, and the
runtime `Running` or `ShuttingDown`. -/
theorem call_of_live (hlive : p.runtime.state = .running ∨ p.runtime.state = .shuttingDown)
    (c : Runtime.Call) (draws : ℕ → ℕ) :
    (p.call c draws).threads = p.threads ∧ (p.call c draws).runtime.queues = p.runtime.queues ∧
      (p.call c draws).runtime.instances = p.runtime.instances ∧
      ((p.call c draws).runtime.state = .running ∨ (p.call c draws).runtime.state = .shuttingDown) := by
  rcases hlive with h | h <;> cases c <;>
    simp [call, Runtime.call, Runtime.init, Runtime.start, Runtime.stop, Runtime.Call.isStart, h]

/-- **A stalled drain**: the threads run, and queue `k`, which no instance reads, holds an event
that the current pass of `drain_queues` has not yet passed. -/
structure Stalled (k : ℕ) (p : RuntimeSystem C) : Prop where
  live : p.runtime.state = .running ∨ p.runtime.state = .shuttingDown
  queue : k < p.runtime.queues
  unread : ∀ i ∈ p.runtime.instances, i.input ≠ some k
  orphaned : p.threads.Orphaned k

/-- Every step keeps a drain stalled: no call reaches the threads' queues or the stop thread, and
the stop thread cannot return while `drain_queues` has queue `k` still ahead. -/
theorem Stalled.step {k : ℕ} {q : RuntimeSystem C} (h : p.Stalled k) (hs : Step policy p q) :
    q.Stalled k := by
  cases hs with
  | call c draws _ =>
    obtain ⟨ht, hq, hi, hl⟩ := call_of_live h.live c draws
    exact ⟨hl, hq ▸ h.queue, hi ▸ h.unread, ht ▸ h.orphaned⟩
  | thread a hlive _ ha =>
    have ho := (RunState.act_step ha).orphaned ((p.runtime.runConfig policy).input_ne h.unread)
      h.queue h.orphaned
    refine ⟨?_, by simpa using h.queue, by simpa using h.unread, ho⟩
    rw [Runtime.afterStep_state, if_neg fun hc => absurd ho.2 (by rw [hc.1]; exact id)]
    exact hlive

/-- **A stalled drain stays stalled along every continuation.** -/
theorem Stalled.run {k : ℕ} {q : RuntimeSystem C} (h : p.Stalled k)
    (hr : Relation.ReflTransGen (Step policy) p q) : q.Stalled k := by
  induction hr with
  | refl => exact h
  | tail _ hs ih => exact ih.step hs

end RuntimeSystem

end KLStream
