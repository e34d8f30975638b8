import KLStream.Runtime.Dataflow

/-!
# Runtime/WorkerStats — what `Worker::run` counts

Each pass of the loop of `Worker::run` adds one to `stats_.iterations`, and each return of
`execute_batch` adds the events it processed to `stats_.events_processed`. Here the counters ride
along the runs of `Runtime/Exec` (`StatsReachable`): a step of worker `w` updates its own.

* `StatsReachable.eventsProcessed` — along every interleaving, under either policy and with any
  number of workers, `events_processed` and the events processed in the batch under way add up,
  modulo `2 ^ 64`, to the events the worker has passed to `process`;
* `eventsProcessed_counts` — so whenever a worker is at its loop test or has returned,
  `events_processed` is the number of events it has processed, modulo `2 ^ 64`.
-/

namespace KLStream

/-- `WorkerStats`, without `idle_time_ns` and `active_time_ns`, which add up clock readings. -/
structure WorkerStats where
  eventsProcessed : ℕ := 0
  iterations : ℕ := 0
  eventsProcessed_lt : eventsProcessed < 2 ^ 64 := by decide
  iterations_lt : iterations < 2 ^ 64 := by decide

/-- What one step of a worker from phase `p` to phase `p'` does to its `stats_` in `Worker::run`:
`stats_.iterations++` when it passes `while (running_)`, and
`stats_.events_processed += processed` when `execute_batch` returns `processed`. -/
def WorkerStats.step (st : WorkerStats) : WorkerPhase → WorkerPhase → WorkerStats
  | .top, .exited => st
  | .top, _ => { st with iterations := wrap64 (st.iterations + 1), iterations_lt := wrap64_lt _ }
  | .batch _ done, .top =>
    { st with eventsProcessed := wrap64 (st.eventsProcessed + done),
              eventsProcessed_lt := wrap64_lt _ }
  | _, _ => st

/-- The events the `execute_batch` under way has passed to `process`: `done`, and the event in
`process` once it runs. -/
def WorkerPhase.inBatch : WorkerPhase → ℕ
  | .batch _ done | .holding _ done _ => done
  | .emitting _ done _ => done + 1
  | _ => 0

namespace RunState

variable {C : Capacity} {cfg : RunConfig} {s s' : RunState C}

/-- `stats_` of the workers after the action `a` took `s` to `s'`: a step of worker `w` updates
its own. -/
def statsAfter (s s' : RunState C) (st : ℕ → WorkerStats) : Act → ℕ → WorkerStats
  | .worker w => Function.update st w ((st w).step (s.workers w) (s'.workers w))
  | _ => st

variable (cfg) in
/-- **The states, with every worker's `stats_`, that some interleaving reaches from `start`.** -/
inductive StatsReachable : RunState C → (ℕ → WorkerStats) → Prop
  | start (draws : ℕ → ℕ) : StatsReachable (start draws) fun _ => {}
  | step {s s' : RunState C} {st : ℕ → WorkerStats} (a : Act) : StatsReachable s st →
      s.act cfg a = some s' → StatsReachable s' (statsAfter s s' st a)

/-- Only `process` of worker `w` logs an event processed by `w`, and it starts from `holding`. -/
theorem Step.processedBy_eq (hs : Step cfg s s') {w : ℕ}
    (hw : (∀ j done e, s.workers w ≠ .holding j done e) ∨ s'.workers w = s.workers w) :
    s'.log.flatMap (Obs.processedBy w) = s.log.flatMap (Obs.processedBy w) := by
  cases hs with
  | @process v j done e out _ hp =>
    by_cases hv : v = w
    · subst hv
      rcases hw with hw | hw
      · exact absurd hp (hw j done e)
      · simp [hp] at hw
    · simp [Obs.processedBy, hv]
  | pop | workerPush | sourcePush => simp [Obs.processedBy]
  | next => simp
  | _ => rfl

/-- A step of worker `w` never starts from `holding`: `process` takes it from there. -/
theorem workerStep_not_holding {w : ℕ} (h : s.workerStep cfg w = some s') :
    ∀ j done e, s.workers w ≠ .holding j done e := by
  intro j done e hw
  simp [workerStep, hw] at h

/-- **What one step of worker `w` does to its count**: `events_processed` takes over the batch's
events when `execute_batch` returns, and no other step changes the sum. -/
theorem workerStep_stats {w : ℕ} (h : s.workerStep cfg w = some s') (st : WorkerStats) :
    wrap64 ((st.step (s.workers w) (s'.workers w)).eventsProcessed + (s'.workers w).inBatch) =
      wrap64 (st.eventsProcessed + (s.workers w).inBatch) := by
  unfold workerStep at h
  split at h
  · rename_i hp
    split_ifs at h <;> cases h
    · simp only [setWorker_workers, next_workers, Function.update_same, hp]
      split <;> rfl
    · simp [hp, WorkerStats.step, WorkerPhase.inBatch]
  · rename_i j done hp
    have hret : wrap64 ((st.step (.batch j done) .top).eventsProcessed + WorkerPhase.inBatch .top) =
        wrap64 (st.eventsProcessed + done) := by
      simp [WorkerStats.step, WorkerPhase.inBatch, wrap64]
    split at h
    · cases h; simpa [hp, WorkerPhase.inBatch] using hret
    · split_ifs at h
      · split at h <;> cases h
        · simpa [hp, WorkerPhase.inBatch] using hret
        · simp [hp, WorkerStats.step, WorkerPhase.inBatch]
      · cases h; simpa [hp, WorkerPhase.inBatch] using hret
  · cases h
  · rename_i hp; cases h; simp [hp, WorkerStats.step, WorkerPhase.inBatch]
  · rename_i hp
    obtain ⟨s₁, h₁, rfl⟩ := Option.map_eq_some'.1 h
    obtain ⟨ok, q, -, rfl⟩ := pushOn_eq_some h₁
    simp [hp, WorkerStats.step, WorkerPhase.inBatch]
  · cases h

/-- **`events_processed` with the batch under way counts the events processed**, modulo `2 ^ 64`,
for every worker along every interleaving. -/
theorem StatsReachable.eventsProcessed {st : ℕ → WorkerStats} (h : s.StatsReachable cfg st)
    (w : ℕ) :
    wrap64 ((st w).eventsProcessed + (s.workers w).inBatch) =
      wrap64 (s.log.flatMap (Obs.processedBy w)).length := by
  induction h with
  | start => rfl
  | @step s s' st a _ ha ih =>
    cases a with
    | worker v =>
      simp only [act] at ha
      split_ifs at ha with hv
      by_cases hvw : v = w
      · subst hvw
        rw [statsAfter, Function.update_same, workerStep_stats ha,
          (workerStep_step hv ha).processedBy_eq (.inl (workerStep_not_holding ha)), ih]
      · have hframe := workerStep_frame ha (Ne.symm hvw)
        rw [statsAfter, Function.update_noteq (Ne.symm hvw), hframe,
          (workerStep_step hv ha).processedBy_eq (.inr hframe), ih]
    | process v out =>
      simp only [act] at ha
      split_ifs at ha
      unfold processStep at ha
      split at ha
      · rename_i j done e hp
        cases ha
        by_cases hvw : v = w
        · subst hvw
          rw [hp] at ih
          simp only [statsAfter, record_workers, setWorker_workers, Function.update_same,
            record_log, setWorker_log, List.flatMap_append, List.length_append, WorkerPhase.inBatch,
            List.flatMap_cons, List.flatMap_nil, Obs.processedBy, if_true, List.append_nil,
            List.length_singleton] at ih ⊢
          rw [← Nat.add_assoc, ← wrap64_add_wrap64, ih, wrap64_add_wrap64]
        · simpa [statsAfter, Function.update_noteq (Ne.symm hvw), Obs.processedBy, hvw] using ih
      · cases ha
    | _ =>
      have hws := act_workers_of_not_worker ha (by simp) (by simp)
      rw [hws, (act_step ha).processedBy_eq (.inr (congrFun hws w))]
      exact ih

/-- **At its loop test, or once returned, a worker's `events_processed` is the number of events
it has passed to `process`**, modulo `2 ^ 64`. -/
theorem eventsProcessed_counts {st : ℕ → WorkerStats} (h : s.StatsReachable cfg st) {w : ℕ}
    (hw : s.workers w = .top ∨ s.workers w = .exited) :
    (st w).eventsProcessed = wrap64 (s.log.flatMap (Obs.processedBy w)).length := by
  have hin : (s.workers w).inBatch = 0 := by rcases hw with hw | hw <;> rw [hw] <;> rfl
  rw [← h.eventsProcessed w, hin, Nat.add_zero, wrap64_of_lt (st w).eventsProcessed_lt]

variable (cfg) in
/-- The actions `as` taken in turn from `s`, with the workers' `stats_`; `none` if one cannot be
taken. -/
def statsRun : RunState C → (ℕ → WorkerStats) → List Act → Option (RunState C × (ℕ → WorkerStats))
  | s, st, [] => some (s, st)
  | s, st, a :: as => (s.act cfg a).bind fun s' => statsRun s' (statsAfter s s' st a) as

theorem StatsReachable.run {st st' : ℕ → WorkerStats} (h : s.StatsReachable cfg st)
    {as : List Act} (hr : statsRun cfg s st as = some (s', st')) : s'.StatsReachable cfg st' := by
  induction as generalizing s st with
  | nil => cases hr; exact h
  | cons a as ih =>
    rw [statsRun, Option.bind_eq_some] at hr
    obtain ⟨s₁, h₁, h₂⟩ := hr
    exact ih (h.step a h₁) h₂

theorem eventsProcessed_counts_doubled :
    ∃ (s : RunState (Capacity.ofPow 12)) (st : ℕ → WorkerStats),
      statsRun soloPipeline (start fun _ => 0) (fun _ => {}) doubledThenDrained = some (s, st) ∧
      (s.workers 0 = .top ∨ s.workers 0 = .exited) ∧
      (st 0).eventsProcessed = wrap64 (s.log.flatMap (Obs.processedBy 0)).length :=
  ⟨_, _, rfl, by decide, eventsProcessed_counts ((StatsReachable.start _).run
    (show statsRun soloPipeline (start fun _ => 0 : RunState (Capacity.ofPow 12)) (fun _ => {})
      doubledThenDrained = _ from rfl)) (by decide)⟩

end RunState

end KLStream
