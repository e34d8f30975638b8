import KLStream.Runtime.Exclusion

/-!
# Runtime/Drain — what `Runtime::stop` waits for, and the event it can lose

`drain_queues` waits until one pass finds every queue empty. An event that a worker has taken with
`try_pop` and not yet emitted is in no queue, so the pass can end while a worker holds it. `stop`
then clears `running_` and closes every queue before `WorkerPool::stop` lets the worker finish its
batch: the worker's `emit` either finds its output closed, and the push is refused, or puts the
event into an output queue that no worker pops again. With no event held at that moment, nothing
is lost.

* `StopInv` — a queue is closed only once `stop` has closed it, a push is refused only on such a
  queue, the sources have all returned once `stop` is past joining them, and the workers once it has
  returned;
* `refused_push_after_close` — so along every run a push is refused only after `stop` has passed
  `drain_queues`, cleared `running_` and closed that queue;
* `stopped_final` — and once `stop` returns, no thread of the runtime takes another step;
* `Reachable.popped_processed` — each worker passes to `process` the events it took, in order;
* `Step.probed` — while no worker holds an event, a step keeps every queue the current pass of
  `drain_queues` found empty empty;
* `graceful_stop` — so if no worker holds an event during the last pass, the pass leaves every queue
  empty, no push is ever refused and every event a queue accepted has gone through `process`
  (from the end of the pass no thread moves an event: `Quiet.step`);
* `stop_loses_held_event` — one worker on `src → map → sink`: an event held across the drain is
  refused, or left in the sink's queue, when `stop` returns.
-/

namespace KLStream

variable {C : Capacity}

/-- `stop` has closed queue `k`. -/
def StopPhase.HasClosed (k : ℕ) : StopPhase → Prop
  | .closing i => k < i
  | .joiningWorkers | .stopped => True
  | _ => False

/-- Every instance reads, if anything, one of `queues_`. -/
def RunConfig.InputsInRange (cfg : RunConfig) : Prop :=
  ∀ j k, cfg.input j = some k → k < cfg.numQueues

/-- `Runtime::init` gives each instance as input the queue of an edge. -/
theorem RunConfig.ofGraph_inputsInRange (b : StreamGraphBuilder) (nw : ℕ)
    (policy : SchedulingPolicy) : (RunConfig.ofGraph b nw policy).InputsInRange := by
  intro j k h
  obtain ⟨i, hi, hk⟩ := Option.bind_eq_some.1 h
  rw [wireInstances_input (List.getElem?_mem hi)] at hk
  exact (getLast?_idsOf_eq_some hk).1

/-- The event a worker has taken with `try_pop` and not yet passed to `process`. -/
def WorkerPhase.held : WorkerPhase → List ℕ
  | .holding _ _ e => [e]
  | _ => []

/-- A worker between a `try_pop` that returned an event and the return of `process` on it. -/
def WorkerPhase.busy : WorkerPhase → Bool
  | .holding .. | .emitting .. => true
  | _ => false

theorem WorkerPhase.held_eq_nil {p : WorkerPhase} (h : p.busy = false) : p.held = [] := by
  cases p <;> first | rfl | cases h

/-- The event a log entry says worker `w` took. -/
def Obs.poppedBy (w : ℕ) : Obs → List ℕ
  | .pop w' _ e => if w' = w then [e] else []
  | _ => []

/-- The event a log entry says worker `w` passed to `process`. -/
def Obs.processedBy (w : ℕ) : Obs → List ℕ
  | .process w' _ e => if w' = w then [e] else []
  | _ => []

/-- `stop` has cleared `running_`. -/
def StopPhase.PastDrain : StopPhase → Prop
  | .closing _ | .joiningWorkers | .stopped => True
  | _ => False

/-- How many of the `n` queues the current pass of `drain_queues` has found empty; all of them once
the pass has ended. -/
def StopPhase.probed (n : ℕ) : StopPhase → ℕ
  | .draining k => k
  | .closing _ | .joiningWorkers | .stopped => n
  | .running | .joining => 0

namespace RunState

variable {cfg : RunConfig} {s s' : RunState C} {as : List Act}

/-! ## The queue calls and `closed_` -/

theorem push_closed {q q' : BoundedQueue C ℕ} {e : ℕ} {ok : Bool} (h : q.push e = some (ok, q')) :
    q'.closed = q.closed ∧ (ok = false → q.closed = true) := by
  dsimp only [BoundedQueue.push] at h
  split_ifs at h with hb
  simp only [BoundedQueue.pushCommit, BoundedQueue.mapStats_closed] at h
  split_ifs at h with hc <;> cases h <;> simp [hc]

theorem tryPop_closed {q q' : BoundedQueue C ℕ} {r : Option ℕ} (h : q.tryPop = (r, q')) :
    q'.closed = q.closed := by
  unfold BoundedQueue.tryPop at h
  split_ifs at h <;> cases h <;> rfl

/-- `stop` never goes back on a closed queue. -/
theorem Step.hasClosed {k : ℕ} (hs : Step cfg s s') (h : s.stop.HasClosed k) :
    s'.stop.HasClosed k := by
  cases hs with
  | next => simpa using h
  | requestStop hst | joined hst | probe hst | drained hst | joinedWorkers hst =>
    rw [hst] at h; first | exact h.elim | trivial
  | close hst => rw [hst] at h; exact Nat.lt_succ_of_lt h
  | stopPool => trivial
  | _ => exact h

/-! ## The invariant -/

variable (cfg) in
/-- **What `stop` has done so far**, read off the queues, the log and the threads. -/
structure StopInv (s : RunState C) : Prop where
  closed : ∀ k, (s.queues k).closed = true → s.stop.HasClosed k
  refused : ∀ k e, Obs.push k e false ∈ s.log → s.stop.HasClosed k
  sourcesDone : s.stop ≠ .running → s.stop ≠ .joining → ∀ j ∈ cfg.sourceIds, s.sources j = .exited
  workersDone : s.stop = .stopped → ∀ w < cfg.numWorkers, s.workers w = .exited

theorem stopInv_start (draws : ℕ → ℕ) : (start draws : RunState C).StopInv cfg :=
  ⟨fun _ h => by simp [start, BoundedQueue.init] at h, fun _ _ h => by simp [start] at h,
    fun h => absurd rfl h, fun h => nomatch h⟩

/-- A step closes no queue except by `stop`'s own `close()`. -/
theorem Step.closed_or (hs : Step cfg s s') (k : ℕ) :
    (s'.queues k).closed = (s.queues k).closed ∨ s'.stop.HasClosed k := by
  cases hs with
  | @pop _ _ _ k' _ _ _ _ _ _ hq =>
    refine .inl ?_
    by_cases hk : k = k'
    · subst hk; simpa using tryPop_closed hq
    · simp [Function.update_noteq hk]
  | @workerPush _ _ _ k' _ _ _ _ _ _ hq | @sourcePush _ k' _ _ _ _ _ _ _ hq =>
    refine .inl ?_
    by_cases hk : k = k'
    · subst hk; simpa using (push_closed hq).1
    · simp [Function.update_noteq hk]
  | @close k' hst _ =>
    by_cases hk : k = k'
    · exact .inr (hk ▸ Nat.lt_succ_self k)
    · exact .inl (by simp [Function.update_noteq hk])
  | next => exact .inl (by simp)
  | _ => exact .inl rfl

/-- A step appends at most one entry to the log, and a refused push only on a closed queue. -/
theorem Step.log_cases (hs : Step cfg s s') :
    s'.log = s.log ∨
      ∃ o, s'.log = s.log ++ [o] ∧ ∀ k e, o = .push k e false → (s.queues k).closed = true := by
  cases hs with
  | pop | process => exact .inr ⟨_, rfl, fun _ _ h => nomatch h⟩
  | workerPush _ _ hq | sourcePush _ _ hq =>
    exact .inr ⟨_, rfl, fun _ _ h => by cases h; exact (push_closed hq).2 rfl⟩
  | next => exact .inl (by simp)
  | _ => exact .inl rfl

theorem Step.sourcesDone (hs : Step cfg s s') (hi : s.StopInv cfg) :
    s'.stop ≠ .running → s'.stop ≠ .joining → ∀ j ∈ cfg.sourceIds, s'.sources j = .exited := by
  intro h₁ h₂ j hj
  cases hs with
  | @sourceExit j' _ _ _ =>
    by_cases hjj : j = j'
    · subst hjj; simp
    · simpa [Function.update_noteq hjj] using hi.sourcesDone h₁ h₂ j hj
  | generate _ _ _ _ hst => exact absurd hst h₁
  | generated hj' hp | sourcePush hj' hp _ =>
    have := hi.sourcesDone h₁ h₂ _ (cfg.mem_sourceIds.2 hj')
    rw [hp] at this; cases this
  | requestStop => exact absurd rfl h₂
  | joined _ hall => exact hall j hj
  | probe hst _ | drained hst _ | close hst _ | stopPool hst _ | joinedWorkers hst _ =>
    exact hi.sourcesDone (by rw [hst]; nofun) (by rw [hst]; nofun) j hj
  | _ => simpa using hi.sourcesDone (by simpa using h₁) (by simpa using h₂) j hj

theorem Step.workersDone (hs : Step cfg s s') (hi : s.StopInv cfg) :
    s'.stop = .stopped → ∀ w < cfg.numWorkers, s'.workers w = .exited := by
  intro hst w hw
  cases hs with
  | next hw' hp | exit hw' hp | endBatch hw' hp | pop hw' hp | process _ hw' hp | processed hw' hp
  | workerPush hw' hp =>
    have := hi.workersDone (by simpa using hst) _ hw'
    rw [hp] at this; cases this
  | joinedWorkers _ hall => exact hall w hw
  | probe => dsimp only at hst; split_ifs at hst
  | requestStop | joined | drained | close | stopPool => cases hst
  | _ => simpa using hi.workersDone (by simpa using hst) w hw

theorem StopInv.step (hi : s.StopInv cfg) (hs : Step cfg s s') : s'.StopInv cfg where
  closed k h := (hs.closed_or k).elim (fun he => hs.hasClosed (hi.closed k (he ▸ h))) id
  refused k e h := by
    rcases hs.log_cases with he | ⟨o, he, ho⟩
    · exact hs.hasClosed (hi.refused k e (he ▸ h))
    · rw [he, List.mem_append, List.mem_singleton] at h
      rcases h with h | rfl
      · exact hs.hasClosed (hi.refused k e h)
      · exact hs.hasClosed (hi.closed k (ho k e rfl))
  sourcesDone := hs.sourcesDone hi
  workersDone := hs.workersDone hi

theorem Reachable.stopInv (hs : s.Reachable cfg) : s.StopInv cfg := by
  induction hs with
  | start draws => exact stopInv_start draws
  | step a _ ha ih => exact ih.step (act_step ha)

/-! ## What each worker holds -/

/-- One step keeps each worker's account of what it took. -/
theorem Step.popped_processed (hs : Step cfg s s') {w : ℕ}
    (h : s.log.flatMap (Obs.poppedBy w) = s.log.flatMap (Obs.processedBy w) ++ (s.workers w).held) :
    s'.log.flatMap (Obs.poppedBy w) = s'.log.flatMap (Obs.processedBy w) ++ (s'.workers w).held := by
  cases hs with
  | @next w' _ hp _ =>
    simp only [setWorker_log, next_log, setWorker_workers, next_workers, Function.update_apply]
    split_ifs with hw
    · subst hw; rw [h, hp]; split <;> rfl
    · exact h
  | @exit w' _ hp _ | @endBatch w' _ _ _ hp _ | @processed w' _ _ _ hp
  | @pop w' _ _ _ _ _ _ hp _ _ _ | @process w' _ _ _ _ _ hp | @workerPush w' _ _ _ _ _ _ _ _ hp _ =>
    simp only [record_log, setWorker_log, setQueue_log, record_workers, setWorker_workers,
      setQueue_workers, List.flatMap_append, Function.update_apply]
    split_ifs with hw
    · subst hw; rw [hp] at h; simp [h, Obs.poppedBy, Obs.processedBy, WorkerPhase.held]
    · simp [h, Obs.poppedBy, Obs.processedBy, Ne.symm hw]
  | sourcePush | sourceExit | generate | generated =>
    simpa [Obs.poppedBy, Obs.processedBy] using h
  | _ => exact h

/-- **Each worker passes to `process` what it took, in order**: the events worker `w` took from the
queues are those it passed to `process`, then the one it holds. -/
theorem Reachable.popped_processed (hs : s.Reachable cfg) (w : ℕ) :
    s.log.flatMap (Obs.poppedBy w) = s.log.flatMap (Obs.processedBy w) ++ (s.workers w).held := by
  induction hs with
  | start => rfl
  | step a _ ha ih => exact (act_step ha).popped_processed ih

/-! ## Runs of `soloPipeline` through `stop`

Two in which the worker holds an event while `drain_queues` runs, and one in which it does not. -/

/-- `src` emits `7`; the worker takes it from `src`'s queue; `stop` drains, clears `running_` and
closes both queues before the worker's `emit`; then the worker and `stop` finish. -/
def heldAcrossClose : List Act :=
  [.generate 0 false [7], .source 0, .source 0, .worker 0, .worker 0,
    .stop, .stop, .stop, .stop, .stop, .stop, .stop, .stop,
    .process 0 [7], .worker 0, .worker 0, .worker 0, .worker 0, .stop]

/-- The same, with the worker's `push` between the drain and the closes. -/
def heldAcrossDrain : List Act :=
  [.generate 0 false [7], .source 0, .source 0, .worker 0, .worker 0,
    .stop, .stop, .stop, .stop, .stop, .process 0 [7], .worker 0,
    .stop, .stop, .stop, .worker 0, .worker 0, .worker 0, .stop]

/-- `src` emits `7`; the worker runs it through `map` and `sink`; then `stop` is called and joins
the source. -/
def servedThenJoined : List Act :=
  [.generate 0 false [7], .source 0, .source 0, .worker 0, .worker 0, .process 0 [7], .worker 0,
    .worker 0, .worker 0, .worker 0, .worker 0, .process 0 [], .worker 0, .worker 0, .stop, .stop]

/-- A pass of `drain_queues` that finds both queues empty, and `running_` cleared. -/
def emptyPass : List Act := [.stop, .stop, .stop]

/-- `stop` closes both queues and stops the pool; the worker returns; `stop` returns. -/
def closeAndJoin : List Act := [.stop, .stop, .stop, .worker 0, .stop]

/-! ## What `stop` guarantees -/

/-- **A push is refused only on a queue `stop` has closed**: along every interleaving, a refused
push comes after `drain_queues` ended and `running_` was cleared. -/
theorem refused_push_after_close (hs : s.Reachable cfg) {k e : ℕ} (h : Obs.push k e false ∈ s.log) :
    s.stop.HasClosed k :=
  hs.stopInv.refused k e h

theorem refused_push_after_close_held :
    ∃ s : RunState (Capacity.ofPow 12), (start fun _ => 0).run soloPipeline heldAcrossClose = some s ∧
      s.stop.HasClosed 1 :=
  ⟨_, rfl, refused_push_after_close ((Reachable.start _).run (show (start fun _ => 0 : RunState
    (Capacity.ofPow 12)).run soloPipeline heldAcrossClose = _ from rfl))
    (show Obs.push 1 7 false ∈ _ by decide)⟩

/-- **Once `stop` returns, no thread of the runtime can take a step**: every worker and every
source thread has returned. -/
theorem stopped_final (hs : s.Reachable cfg) (hst : s.stop = .stopped) (a : Act) :
    s.act cfg a = none := by
  rcases h : s.act cfg a with _ | s'
  · rfl
  · exfalso
    have hi := hs.stopInv
    cases act_step h with
    | next hw hp | exit hw hp | endBatch hw hp | pop hw hp | process _ hw hp | processed hw hp
    | workerPush hw hp =>
      rw [hi.workersDone hst _ hw] at hp; cases hp
    | sourceExit hj hp | generate _ _ hj hp | generated hj hp | sourcePush hj hp =>
      rw [hi.sourcesDone (by rw [hst]; nofun) (by rw [hst]; nofun) _ (cfg.mem_sourceIds.2 hj)] at hp
      cases hp
    | requestStop h' | joined h' | probe h' | drained h' | close h' | stopPool h'
    | joinedWorkers h' =>
      rw [hst] at h'; cases h'

theorem stopped_final_held :
    ∃ s : RunState (Capacity.ofPow 12), (start fun _ => 0).run soloPipeline heldAcrossClose = some s ∧
      ∀ a, s.act soloPipeline a = none :=
  ⟨_, rfl, stopped_final ((Reachable.start _).run (show (start fun _ => 0 : RunState
    (Capacity.ofPow 12)).run soloPipeline heldAcrossClose = _ from rfl)) rfl⟩

/-! ## A stop with nothing held -/

variable (cfg) in
/-- **Nothing left to move**: `running_` is cleared, no queue holds an event, no worker holds one,
and every source thread has returned. -/
structure Quiet (s : RunState C) : Prop where
  pastDrain : s.stop.PastDrain
  empty : ∀ k < cfg.numQueues, (s.queues k).size = 0
  idle : ∀ w < cfg.numWorkers, (s.workers w).busy = false
  sourcesDone : ∀ j ∈ cfg.sourceIds, s.sources j = .exited

theorem Quiet.setWorker (hq : s.Quiet cfg) {w : ℕ} {p : WorkerPhase} (hp : p.busy = false) :
    (s.setWorker w p).Quiet cfg where
  pastDrain := hq.pastDrain
  empty := hq.empty
  idle w' hw' := by
    rw [setWorker_workers, Function.update_apply]
    split_ifs
    exacts [hp, hq.idle w' hw']
  sourcesDone := hq.sourcesDone

/-- From a quiet state a step moves only idle workers and `stop`, and logs nothing. -/
theorem Quiet.step (hw : cfg.InputsInRange) (hq : s.Quiet cfg) (hs : Step cfg s s') :
    s'.Quiet cfg ∧ s'.log = s.log := by
  cases hs with
  | @next w =>
    have hn : (s.next cfg w).2.Quiet cfg :=
      ⟨by simpa using hq.pastDrain, by simpa using hq.empty, by simpa using hq.idle,
        by simpa using hq.sourcesDone⟩
    exact ⟨hn.setWorker (by split <;> rfl), by simp⟩
  | exit | endBatch => exact ⟨hq.setWorker rfl, rfl⟩
  | pop _ _ hin _ htp =>
    simp [BoundedQueue.tryPop, hq.empty _ (hw _ _ hin)] at htp
  | process _ hw' hp | processed hw' hp | workerPush hw' hp =>
    have := hq.idle _ hw'; rw [hp] at this; cases this
  | sourceExit hj hp | generate _ _ hj hp | generated hj hp | sourcePush hj hp =>
    rw [hq.sourcesDone _ (cfg.mem_sourceIds.2 hj)] at hp; cases hp
  | requestStop h | joined h | probe h | drained h =>
    have := hq.pastDrain; rw [h] at this; exact this.elim
  | @close k _ _ =>
    refine ⟨⟨trivial, fun k' hk' => ?_, hq.idle, hq.sourcesDone⟩, rfl⟩
    simp only [setQueue_queues, Function.update_apply]
    split_ifs with h
    · rw [BoundedQueue.close_size]; exact hq.empty _ (h ▸ hk')
    · exact hq.empty _ hk'
  | stopPool | joinedWorkers => exact ⟨⟨trivial, hq.empty, hq.idle, hq.sourcesDone⟩, rfl⟩

theorem Quiet.run (hw : cfg.InputsInRange) (hq : s.Quiet cfg) (hr : s.run cfg as = some s') :
    s'.Quiet cfg ∧ s'.log = s.log :=
  Step.run (fun t => t.Quiet cfg ∧ t.log = s.log)
    (fun hs ⟨ht, hl⟩ => (ht.step hw hs).imp_right (·.trans hl)) ⟨hq, rfl⟩ hr

/-- From a quiet state, whatever the threads do next loses nothing: no push has been refused, every
queue is empty and has given out every event it accepted, and every worker has passed to `process`
every event it took. -/
theorem Quiet.lossless (hw : cfg.InputsInRange) (hs : s.Reachable cfg) (hq : s.Quiet cfg)
    (hst : s.stop = .closing 0) (hr : s.run cfg as = some s') :
    (∀ k e, Obs.push k e false ∉ s'.log) ∧
    (∀ k < cfg.numQueues, (s'.queues k).size = 0 ∧
      s'.log.flatMap (Obs.into k) = s'.log.flatMap (Obs.outOf k)) ∧
    ∀ w < cfg.numWorkers, s'.log.flatMap (Obs.poppedBy w) = s'.log.flatMap (Obs.processedBy w) := by
  obtain ⟨hq', hlog⟩ := Quiet.run hw hq hr
  have hs' := hs.run hr
  refine ⟨fun k e h => ?_, fun k hk => ⟨hq'.empty k hk, ?_⟩, fun w hw' => ?_⟩
  · have := hs.stopInv.refused k e (hlog ▸ h); rw [hst] at this; exact Nat.not_lt_zero k this
  · rw [hs'.fifo k, List.length_eq_zero.1 (((s'.queues k).length_contents).trans (hq'.empty k hk)),
      List.append_nil]
  · rw [hs'.popped_processed w, WorkerPhase.held_eq_nil (hq'.idle w hw'), List.append_nil]

/-! ## The last pass of `drain_queues` -/

variable (cfg) in
/-- The states a run passes through, from its first on, as far as its steps can be taken. -/
def trace (s : RunState C) : List Act → List (RunState C)
  | [] => [s]
  | a :: as => s :: ((s.act cfg a).map fun s' => s'.trace as).getD []

theorem mem_trace_self (s : RunState C) (as : List Act) : s ∈ s.trace cfg as := by
  cases as <;> simp [trace]

theorem trace_cons_of_act {a : Act} {s₁ : RunState C} (h : s.act cfg a = some s₁) :
    s.trace cfg (a :: as) = s :: s₁.trace cfg as := by
  simp [trace, h]

/-- The end of a run is among the states it passes through. -/
theorem mem_trace_of_run (hr : s.run cfg as = some s') : s' ∈ s.trace cfg as := by
  induction as generalizing s with
  | nil => cases hr; exact mem_trace_self _ _
  | cons a as ih =>
    obtain ⟨s₁, h₁, h₂⟩ := Option.bind_eq_some.1 hr
    rw [trace_cons_of_act h₁]
    exact List.mem_cons_of_mem _ (ih h₂)

/-- **What every step between two states satisfying `Q` keeps holds at the end of a run that
passes only through states satisfying `Q`.** -/
theorem Step.run_trace (P Q : RunState C → Prop)
    (hP : ∀ {t t'}, Step cfg t t' → Q t → Q t' → P t → P t')
    (hQ : ∀ t ∈ s.trace cfg as, Q t) (hs : P s) (hr : s.run cfg as = some s') : P s' := by
  induction as generalizing s with
  | nil => cases hr; exact hs
  | cons a as ih =>
    obtain ⟨s₁, h₁, h₂⟩ := Option.bind_eq_some.1 hr
    rw [trace_cons_of_act h₁] at hQ
    exact ih (fun t ht => hQ t (List.mem_cons_of_mem _ ht))
      (hP (act_step h₁) (hQ s (List.mem_cons_self _ _))
        (hQ s₁ (List.mem_cons_of_mem _ (mem_trace_self _ _))) hs) h₂

variable (cfg) in
/-- **The queues the current pass of `drain_queues` found empty are empty.** -/
def Probed (s : RunState C) : Prop := ∀ k < s.stop.probed cfg.numQueues, (s.queues k).size = 0

/-- With no worker holding an event before or after it, a step keeps what the current pass found:
no worker pops or pushes, the sources have returned once the pass starts, and a probe that finds a
queue empty adds it while one that does not starts the pass again. -/
theorem Step.probed (hs : Step cfg s s') (hi : s.StopInv cfg)
    (hidle : ∀ w < cfg.numWorkers, (s.workers w).busy = false)
    (hidle' : ∀ w < cfg.numWorkers, (s'.workers w).busy = false) (h : s.Probed cfg) :
    s'.Probed cfg := by
  cases hs with
  | next => simpa [Probed] using h
  | exit | endBatch | sourceExit | generated => exact h
  | pop hw => simpa [WorkerPhase.busy] using hidle' _ hw
  | process _ hw hp | processed hw hp | workerPush hw hp =>
    have := hidle _ hw; rw [hp] at this; cases this
  | generate _ _ _ _ hst => intro k hk; simp [hst, StopPhase.probed] at hk
  | sourcePush hj hp _ =>
    intro k hk
    by_cases hr : s.stop = .running
    · simp [hr, StopPhase.probed] at hk
    by_cases hj' : s.stop = .joining
    · simp [hj', StopPhase.probed] at hk
    have := hi.sourcesDone hr hj' _ (cfg.mem_sourceIds.2 hj); rw [hp] at this; cases this
  | requestStop | joined => intro k hk; simp [StopPhase.probed] at hk
  | probe hst _ =>
    intro k' hk'
    dsimp only at hk' ⊢
    split_ifs at hk' with h0
    · rcases Nat.lt_succ_iff_lt_or_eq.1 hk' with hlt | rfl
      exacts [h k' (by rw [hst]; exact hlt), h0]
    · simp [StopPhase.probed] at hk'
  | drained hst hk => exact fun k' hk' => h k' (by rw [hst]; simp [StopPhase.probed] at hk' ⊢; omega)
  | close hst _ =>
    intro k' hk'
    simp only [setQueue_queues, Function.update_apply]
    split_ifs with hk
    · rw [BoundedQueue.close_size]; exact h _ (by rw [hst]; subst hk; exact hk')
    · exact h k' (by rw [hst]; exact hk')
  | stopPool hst _ | joinedWorkers hst => exact fun k hk => h k (by rw [hst]; exact hk)

/-! ## What `stop` guarantees with nothing held -/

/-- **`stop` loses nothing if no worker holds an event during the last pass of `drain_queues`.**
Suppose a pass starts at `s` and, with no worker between a `try_pop` that returned an event and the
return of `process` on it at any moment of the pass, ends at `s₁`, where `stop` clears `running_`.
Then the pass's probes leave every queue empty, and from there on, and so when `stop` returns, no
push has ever been refused, every queue is empty and has given out every event it accepted, and every
worker has passed to `process` every event it took. -/
theorem graceful_stop (hw : cfg.InputsInRange) (hs : s.Reachable cfg) (hst : s.stop = .draining 0)
    {s₁ : RunState C} {bs : List Act} (hpass : s.run cfg as = some s₁) (hend : s₁.stop = .closing 0)
    (hidle : ∀ t ∈ s.trace cfg as, ∀ w < cfg.numWorkers, (t.workers w).busy = false)
    (hr : s₁.run cfg bs = some s') :
    (∀ k < cfg.numQueues, (s₁.queues k).size = 0) ∧
    (∀ k e, Obs.push k e false ∉ s'.log) ∧
    (∀ k < cfg.numQueues, (s'.queues k).size = 0 ∧
      s'.log.flatMap (Obs.into k) = s'.log.flatMap (Obs.outOf k)) ∧
    ∀ w < cfg.numWorkers, s'.log.flatMap (Obs.poppedBy w) = s'.log.flatMap (Obs.processedBy w) := by
  have hinv := Step.run_trace (fun t => t.StopInv cfg ∧ t.Probed cfg)
    (fun t => ∀ w < cfg.numWorkers, (t.workers w).busy = false)
    (fun hs hq hq' hp => ⟨hp.1.step hs, hs.probed hp.1 hq hq' hp.2⟩) hidle
    ⟨hs.stopInv, fun k hk => by simp [hst, StopPhase.probed] at hk⟩ hpass
  have hempty : ∀ k < cfg.numQueues, (s₁.queues k).size = 0 :=
    fun k hk => hinv.2 k (by rw [hend]; exact hk)
  exact ⟨hempty, Quiet.lossless hw (hs.run hpass)
    ⟨by rw [hend]; trivial, hempty, hidle s₁ (mem_trace_of_run hpass),
      hinv.1.sourcesDone (by rw [hend]; nofun) (by rw [hend]; nofun)⟩ hend hr⟩

theorem graceful_stop_served :
    ∃ s s₁ s' : RunState (Capacity.ofPow 12),
      (start fun _ => 0).run soloPipeline servedThenJoined = some s ∧
      s.run soloPipeline emptyPass = some s₁ ∧ s₁.run soloPipeline closeAndJoin = some s' ∧
      s'.stop = .stopped ∧
      (∀ k < soloPipeline.numQueues, (s₁.queues k).size = 0) ∧
      (∀ k e, Obs.push k e false ∉ s'.log) ∧
      (∀ k < soloPipeline.numQueues, (s'.queues k).size = 0 ∧
        s'.log.flatMap (Obs.into k) = s'.log.flatMap (Obs.outOf k)) ∧
      ∀ w < soloPipeline.numWorkers,
        s'.log.flatMap (Obs.poppedBy w) = s'.log.flatMap (Obs.processedBy w) :=
  ⟨_, _, _, rfl, rfl, rfl, rfl, graceful_stop (RunConfig.ofGraph_inputsInRange pipeline 1 .roundRobin)
    ((Reachable.start _).run (show (start fun _ => 0 : RunState (Capacity.ofPow 12)).run
      soloPipeline servedThenJoined = _ from rfl)) rfl (show run soloPipeline _ emptyPass = _ from rfl)
    rfl (by decide) (show run soloPipeline _ closeAndJoin = _ from rfl)⟩

/-- **`stop` loses an event a worker holds across `drain_queues`.** Both runs end with `stop`
returned; `7` was accepted by `src`'s queue and never reached the sink: its push into the sink's
queue is refused in the first, and it is left there, unpopped, in the second. -/
theorem stop_loses_held_event :
    ((start fun _ => 0 : RunState (Capacity.ofPow 12)).run soloPipeline heldAcrossClose).map
        (fun s => (s.stop, s.log)) =
      some (.stopped, [.push 0 7 true, .pop 0 0 7, .process 0 1 7, .push 1 7 false]) ∧
    ((start fun _ => 0 : RunState (Capacity.ofPow 12)).run soloPipeline heldAcrossDrain).map
        (fun s => (s.stop, (s.queues 1).size, s.log)) =
      some (.stopped, 1, [.push 0 7 true, .pop 0 0 7, .process 0 1 7, .push 1 7 true]) := by
  decide

end RunState

end KLStream
