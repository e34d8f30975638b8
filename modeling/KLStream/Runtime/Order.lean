import KLStream.Runtime.Pipeline

/-!
# Runtime/Order — one worker keeps the events in order

`Runtime/Exclusion` shows two workers in `execute_batch` of one instance at once, the later event
overtaking the earlier (`two_workers_in_one_instance`). A pool of one worker cannot do that: it pops
an event, runs `process` on it and pushes its outputs before it pops the next. So the two accounts
of `Runtime/Dataflow` hold as lists, in the order of the log, and not only as multisets:

* `Reachable.takenInOrder` — the events taken from a queue are, in order, those passed to `process`
  by its readers, then the one the worker holds;
* `ReachableBy.emittedInOrder` — the events pushed onto a queue that no source writes, then those
  the worker has still to push onto it, are, in order, those the `process` calls sent to it;
* `ReachableBy.lineInOrder` — so along a line run by one worker, once settled, each operator has
  processed, in order, the events queue `0` accepted put through the operators before it.
-/

namespace KLStream

namespace RunState

variable {C : Capacity} {cfg : RunConfig} {op : ℕ → ℕ → List ℕ} {s s' : RunState C}

/-! ## The two accounts, in order -/

variable (cfg) in
/-- The take account of queue `k` in log order, for a pool whose one worker is worker `0`. -/
def TakeOrder (k : ℕ) (s : RunState C) : Prop :=
  s.log.flatMap (Obs.outOf k) =
    s.log.flatMap (Obs.processedFrom cfg k) ++ (s.workers 0).heldFrom cfg k

variable (cfg op) in
/-- The emission account of queue `k` in log order, for a pool whose one worker is worker `0`. -/
def EmitOrder (k : ℕ) (s : RunState C) : Prop :=
  s.log.flatMap (Obs.pushedOn k) ++ (s.workers 0).pendingOn k = s.log.flatMap (Obs.emitsOn cfg op k)

/-- **One step of a one-worker pool keeps the take account in order.** -/
theorem Step.takeOrder (h1 : cfg.numWorkers = 1) {k : ℕ} (hs : Step cfg s s')
    (h : s.TakeOrder cfg k) : s'.TakeOrder cfg k := by
  unfold TakeOrder at h ⊢
  cases hs with
  | @next w hw hp _ =>
    obtain rfl : w = 0 := by omega
    simp only [setWorker_log, next_log, setWorker_workers, next_workers, Function.update_same]
    rw [hp] at h
    split <;> simpa [WorkerPhase.heldFrom] using h
  | @exit w hw hp _ | @endBatch w j done hw hp _ | @processed w j done hw hp =>
    obtain rfl : w = 0 := by omega
    simpa [hp, WorkerPhase.heldFrom] using h
  | @workerPush w j done k' e ps ok q hw hp _ =>
    obtain rfl : w = 0 := by omega
    simpa [hp, WorkerPhase.heldFrom, Obs.outOf, Obs.processedFrom] using h
  | @pop w j done k' e q hw hp hin =>
    obtain rfl : w = 0 := by omega
    simp only [hp, WorkerPhase.heldFrom, List.append_nil] at h
    by_cases hk : k' = k <;>
      simp [h, hk, hin, WorkerPhase.heldFrom, Obs.outOf, Obs.processedFrom]
  | @process w j done e out hw hp =>
    obtain rfl : w = 0 := by omega
    simpa [hp, WorkerPhase.heldFrom, Obs.outOf, Obs.processedFrom] using h
  | sourcePush => simpa [Obs.outOf, Obs.processedFrom] using h
  | _ => simpa using h

/-- **One step of a one-worker pool that obeys `op` keeps the emission account in order**, for a
queue that no source thread still has to push onto. -/
theorem Step.emitOrder (h1 : cfg.numWorkers = 1) {k : ℕ} (hs : Step cfg s s')
    (hob : Obeys cfg op s s') (hsrc : ∀ j, onQueue k (s.sources j).pushes = [])
    (h : s.EmitOrder cfg op k) : s'.EmitOrder cfg op k := by
  unfold EmitOrder at h ⊢
  cases hs with
  | @next w hw hp _ =>
    obtain rfl : w = 0 := by omega
    simp only [setWorker_log, next_log, setWorker_workers, next_workers, Function.update_same]
    rw [hp] at h
    split <;> simpa [WorkerPhase.pendingOn] using h
  | @exit w hw hp _ | @endBatch w j done hw hp _ | @processed w j done hw hp =>
    obtain rfl : w = 0 := by omega
    simpa [hp, WorkerPhase.pendingOn] using h
  | @pop w j done k' e q hw hp hin =>
    obtain rfl : w = 0 := by omega
    simpa [hp, WorkerPhase.pendingOn, Obs.pushedOn, Obs.emitsOn] using h
  | @process w j done e out hw hp =>
    obtain rfl : w = 0 := by omega
    have hout : pushesOf (cfg.outputs j) out = pushesOf (cfg.outputs j) (op j e) := by
      rcases hob 0 j done e hp with h' | h' <;> simp [hp] at h'
      exact h'
    simp only [hp, WorkerPhase.pendingOn, List.append_nil] at h
    simp [h, hout, WorkerPhase.pendingOn, Obs.pushedOn, Obs.emitsOn]
  | @workerPush w j done k' e ps ok q hw hp _ =>
    obtain rfl : w = 0 := by omega
    rw [hp, WorkerPhase.pendingOn, onQueue_cons] at h
    simpa [WorkerPhase.pendingOn, Obs.pushedOn, Obs.emitsOn] using h
  | @sourcePush j k' e more ps ok q _ hp _ =>
    have hx : (if k' = k then [e] else []) = [] := by
      have := hsrc j
      rw [hp, SourcePhase.pushes, onQueue_cons, List.append_eq_nil] at this
      exact this.1
    simpa [Obs.pushedOn, Obs.emitsOn, hx] using h
  | _ => simpa using h

/-- **Along every run of a one-worker pool, the events taken from a queue are, in order, those its
readers passed to `process`, then the one the worker holds.** -/
theorem Reachable.takenInOrder (h1 : cfg.numWorkers = 1) (hs : s.Reachable cfg) (k : ℕ) :
    s.TakeOrder cfg k := by
  induction hs with
  | start => rfl
  | step a _ ha ih => exact (act_step ha).takeOrder h1 ih

/-- **Along every run of a one-worker pool whose operators emit `op`, the events pushed onto a
queue that no source writes, then those the worker has still to push onto it, are, in order, those
the `process` calls sent to it.** -/
theorem ReachableBy.emittedInOrder (h1 : cfg.numWorkers = 1) (hs : s.ReachableBy cfg op) {k : ℕ}
    (hk : ∀ j ∈ cfg.sourceIds, k ∉ cfg.outputs j) : s.EmitOrder cfg op k := by
  induction hs with
  | start => rfl
  | step a hr hf ha ih => exact (act_step ha).emitOrder h1 (act_obeys ha hf) (hr.sourcesOff hk) ih

/-! ## Settled states -/

/-- With one worker, idle, a queue's readers have processed, in order, what the queue accepted once
it is empty. -/
theorem Reachable.processedFrom_eq_into_of_one (h1 : cfg.numWorkers = 1) (hs : s.Reachable cfg)
    {k : ℕ} (hempty : (s.queues k).size = 0) (hidle : (s.workers 0).busy = false) :
    s.log.flatMap (Obs.processedFrom cfg k) = s.log.flatMap (Obs.into k) := by
  have hcontents : (s.queues k).contents = [] :=
    List.eq_nil_of_length_eq_zero (by rw [BoundedQueue.length_contents, hempty])
  rw [hs.fifo k, hcontents, List.append_nil, hs.takenInOrder h1 k,
    (s.workers 0).heldFrom_eq_nil hidle, List.append_nil]

/-- **The dataflow equation in order.** With one worker, once a queue that no source writes is
empty, the worker idle and the queue not closed, its readers have processed, in order, the events
the `process` calls sent to it. -/
theorem ReachableBy.processedFrom_eq_emitsOn_of_one (h1 : cfg.numWorkers = 1)
    (hs : s.ReachableBy cfg op) {k : ℕ} (hk : ∀ j ∈ cfg.sourceIds, k ∉ cfg.outputs j)
    (hcl : ¬ s.stop.HasClosed k) (hempty : (s.queues k).size = 0)
    (hidle : (s.workers 0).busy = false) :
    s.log.flatMap (Obs.processedFrom cfg k) = s.log.flatMap (Obs.emitsOn cfg op k) := by
  have hr := hs.reachable
  calc s.log.flatMap (Obs.processedFrom cfg k)
      = s.log.flatMap (Obs.into k) := hr.processedFrom_eq_into_of_one h1 hempty hidle
    _ = s.log.flatMap (Obs.pushedOn k) :=
        flatMap_into_of_unrefused fun e he => hcl (hr.stopInv.refused k e he)
    _ = s.log.flatMap (Obs.emitsOn cfg op k) := by
        rw [← hs.emittedInOrder h1 hk, (s.workers 0).pendingOn_eq_nil hidle, List.append_nil]

/-! ## Lines -/

variable {b : StreamGraphBuilder} {names : List String} {policy : SchedulingPolicy}

/-- **One worker runs a line in order.** Along every run of the line `names` by a pool of one
worker, in which each operator `o` emits `f o e` on the event `e`, under either policy and any
iteration order of `operators_`: once every queue is empty, the worker idle, and `stop` has closed
no queue, the events passed to `process` of `names[i + 1]` are, in order, the events queue `0`
accepted put through `f names[1]`, …, `f names[i]` in turn. -/
theorem ReachableBy.lineInOrder (hl : IsLine b names) (f : String → ℕ → List ℕ)
    (hs : s.ReachableBy (.ofGraph b 1 policy) ((RunConfig.ofGraph b 1 policy).opByName f))
    (hempty : ∀ k < b.edges.length, (s.queues k).size = 0)
    (hidle : (s.workers 0).busy = false) (hcl : ¬ s.stop.HasClosed 0) {i : ℕ}
    (hi : i + 1 < names.length) :
    s.log.flatMap (Obs.processedFrom (.ofGraph b 1 policy) i) =
      throughLine f ((names.drop 1).take i) (s.log.flatMap (Obs.into 0)) := by
  have hq : ∀ k, k + 1 < names.length → (s.queues k).size = 0 := fun k hk =>
    hempty k (by rw [hl.edges, length_chainEdges]; omega)
  induction i with
  | zero => exact hs.reachable.processedFrom_eq_into_of_one rfl (hq 0 hi) hidle
  | succ i ih =>
    obtain ⟨j, hj, hjm⟩ := hl.exists_index (show i + 1 < names.length by omega)
    obtain ⟨hsrc, hout, hwriter, hin, hreader⟩ := line_wiring hl 1 policy hj hi hjm (Nat.succ_pos i)
    rw [hs.processedFrom_eq_emitsOn_of_one rfl hsrc (fun h => hcl (h.of_le (Nat.zero_le _)))
      (hq _ hi) hidle, flatMap_emitsOn_eq_bind _ hout hwriter hin hreader,
      ofGraph_opByName 1 policy hj, hjm, throughLine_take_succ f _ (show i + 1 < names.length by omega),
      Nat.add_sub_cancel, ih (by omega)]

theorem lineInOrder_mapFilter :
    ∃ s : RunState (Capacity.ofPow 12),
      (start fun _ => 0).run (.ofGraph mapFilterGraph 1 .roundRobin) mapFilterRun = some s ∧
      s.log.flatMap (Obs.processedFrom (.ofGraph mapFilterGraph 1 .roundRobin) 2) =
        throughLine mapFilterOps ((mapFilterLine.drop 1).take 2) (s.log.flatMap (Obs.into 0)) :=
  ⟨_, rfl, ReachableBy.lineInOrder mapFilterGraph_isLine mapFilterOps ((ReachableBy.start _).run
    (show (start fun _ => 0 : RunState (Capacity.ofPow 12)).run
      (.ofGraph mapFilterGraph 1 .roundRobin) mapFilterRun = _ from rfl) (by decide))
    (by decide) (by decide) (by simp [StopPhase.HasClosed]) (show 2 + 1 < mapFilterLine.length by decide)⟩

end RunState

end KLStream
