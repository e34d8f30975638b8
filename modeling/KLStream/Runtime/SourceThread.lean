import KLStream.Runtime.Pipeline

/-!
# Runtime/SourceThread — a `SequenceSource` on its thread

`Runtime/Exec` leaves what a source's `generate` emits and returns to each step. Here the thread of
one instance `j₀` runs a `SequenceSource` (`Operators/Source`) and the runs are those in which it
does (`FedBy`): the thread calls `generate` with the source as it stands; each `push` of its `emit`
that a queue accepts adds one to the count `emit` returns; and when `generate` returns, the source
takes that count. `should_stop()` is false in every call the thread makes, since `request_stop` is
the first step of `Runtime::stop` and from then on the thread's loop test fails.

* `FedBy.feedInv` — along every run in which the source alone writes its one queue `k₀`, the events
  `k₀` accepted are the sequence's first values `start + i * step`, one for each event the source
  counted in `generated_`, then the one the call under way had accepted; and once the thread has
  returned, the source counted `count` events or `stop` was called;
* `FedBy.sourceCounters` — `stop` closes the queues only after joining the source threads, so `k₀`
  refuses no push, the source never records backpressure, and `events_emitted` and the
  `events_processed` metric of `run_sources` both equal `generated_`;
* `FedBy.unconnectedSource` — a source no edge leaves, which `Runtime::init` accepts, spins until
  `stop`: every call records backpressure and counts in `events_processed`, and `generated_` stays
  `0`;
* `FedBy.mapFilterSequence` — in `IntegrationTest.MapFilterPipeline`, with
  `SequenceSource::Config{start = 1, count = n}`, once settled the sink has been handed the even
  squares among `1², …, g²`, `g` the events the source counted, and `g = n` if the source thread
  returned before `stop` was called.
-/

namespace KLStream

/-- The `i`-th value of the sequence, `start + i * step` in two's complement, as the runtime's
events carry it. -/
def SequenceSource.Config.value (config : SequenceSource.Config) (i : ℕ) : ℕ :=
  (wrapInt64 (config.start + i * config.step)).toNat

/-- The first `g` values of `SequenceSource::Config{start = 1}` are `1, …, g`, while they fit in
`std::int64_t`. -/
theorem SequenceSource.Config.map_value_range {n g : ℕ} (hg : g < 2 ^ 63) :
    (List.range g).map ({ start := 1, count := n } : SequenceSource.Config).value =
      List.range' 1 g := by
  rw [List.range'_eq_map_range]
  refine List.map_congr_left fun i hi => ?_
  have hi : i < g := List.mem_range.1 hi
  show (wrapInt64 (1 + (i : ℤ) * 1)).toNat = 1 + i
  rw [wrapInt64_of_mem ⟨by omega, by omega⟩]
  omega

namespace SequenceSource

variable (s : SequenceSource) (accepted : ℕ)

/-- With no stop asked, `generate` returns `true` exactly while fewer than `count` events were
counted, and then hands `emit` the value `current_`. -/
theorem generate_call :
    (s.generate false accepted).1 = decide (s.tally.generated < s.config.count) ∧
      ((s.generate false accepted).2.1.map fun m => m.event.payload.toNat).toList =
        if s.tally.generated < s.config.count then [s.current.toNat] else [] := by
  unfold generate
  by_cases h : s.tally.generated < s.config.count
  · simp [h, Nat.not_le.2 h]
  · simp [h, Nat.le_of_not_lt h]

end SequenceSource

/-- A `SequenceSource` on the thread of its instance: the source; how many outputs have taken the
event of the `generate` call under way, the `count` of its `emit`; and the increments of
`metrics_->events_processed()` that `run_sources` makes on this thread, one after each `generate`
that returns `true` — the whole counter when this is the only source. -/
structure SourceThread where
  source : SequenceSource
  accepted : ℕ
  eventsProcessed : ℕ

/-- Whether a log entry is a push that its queue accepted. -/
def Obs.taken : Obs → Bool
  | .push _ _ ok => ok
  | _ => false

namespace SourceThread

/-- What `generate(ctx)` does as the thread calls it: whether it returns `true`, and the values of
the events it hands to `emit`. -/
def call (t : SourceThread) : Bool × List ℕ :=
  ((t.source.generate false 0).1,
    ((t.source.generate false 0).2.1.map fun m => m.event.payload.toNat).toList)

variable {C : Capacity}

/-- **The thread of instance `j₀` after the action `a` took `s` to `s'`**: a push of its `emit`
adds the outputs that took the event; the return of `generate` hands the source that count, and
`run_sources` counts the call in `events_processed` if it returned `true`. -/
def after (j₀ : ℕ) (s s' : RunState C) (t : SourceThread) : Act → SourceThread
  | .source j =>
    if j = j₀ then
      match s.sources j₀ with
      | .emitting more [] =>
        ⟨(t.source.generate false t.accepted).2.2, 0,
          if more then wrap64 (t.eventsProcessed + 1) else t.eventsProcessed⟩
      | .emitting _ (_ :: _) =>
        { t with accepted := t.accepted + (s'.log.drop s.log.length).countP Obs.taken }
      | _ => t
    else t
  | _ => t

/-- Where the source stands against its thread's phase in the runtime and the stop thread's: at
the loop test, and once returned, no output has taken an event of a call under way, and the thread
returned only once `count` events were counted or `stop` was called; in `generate`, the call
returns `true` exactly while fewer than `count` events were counted, and either has its push onto
queue `k₀` left or has made it, and `k₀` took it. -/
def Agrees (config : SequenceSource.Config) (k₀ : ℕ) (t : SourceThread) :
    SourcePhase → StopPhase → Prop
  | .top, _ => t.accepted = 0
  | .exited, stop =>
    t.accepted = 0 ∧ (t.source.tally.generated = config.count ∨ stop ≠ .running)
  | .emitting more ps, _ =>
    more = decide (t.source.tally.generated < config.count) ∧
      ((ps = (if t.source.tally.generated < config.count then
          [(k₀, config.value t.source.tally.generated)] else []) ∧ t.accepted = 0) ∨
        (ps = [] ∧ t.accepted = if t.source.tally.generated < config.count then 1 else 0))

section Lemmas

variable {j₀ : ℕ} {s s' : RunState C} {t : SourceThread}

theorem after_top (h : s.sources j₀ = .top) : t.after j₀ s s' (.source j₀) = t := by
  simp [after, h]

theorem after_return {more : Bool} (h : s.sources j₀ = .emitting more []) :
    t.after j₀ s s' (.source j₀) = ⟨(t.source.generate false t.accepted).2.2, 0,
      if more then wrap64 (t.eventsProcessed + 1) else t.eventsProcessed⟩ := by
  simp [after, h]

theorem after_push {more : Bool} {p : ℕ × ℕ} {ps : List (ℕ × ℕ)}
    (h : s.sources j₀ = .emitting more (p :: ps)) :
    t.after j₀ s s' (.source j₀) =
      { t with accepted := t.accepted + (s'.log.drop s.log.length).countP Obs.taken } := by
  simp [after, h]

variable {config : SequenceSource.Config} {k₀ : ℕ} {stop : StopPhase}

theorem agrees_top : t.Agrees config k₀ .top stop ↔ t.accepted = 0 := Iff.rfl

theorem agrees_exited : t.Agrees config k₀ .exited stop ↔
    t.accepted = 0 ∧ (t.source.tally.generated = config.count ∨ stop ≠ .running) := Iff.rfl

theorem agrees_emitting {more : Bool} {ps : List (ℕ × ℕ)} :
    t.Agrees config k₀ (.emitting more ps) stop ↔
      more = decide (t.source.tally.generated < config.count) ∧
        ((ps = (if t.source.tally.generated < config.count then
            [(k₀, config.value t.source.tally.generated)] else []) ∧ t.accepted = 0) ∨
          (ps = [] ∧ t.accepted = if t.source.tally.generated < config.count then 1 else 0)) :=
  Iff.rfl

/-- Where the source stands against a thread that has not moved does not depend on the stop
thread, but for the thread's return, and `stop` is never undone. -/
theorem Agrees.of_stop {p : SourcePhase} {stop' : StopPhase} (h : t.Agrees config k₀ p stop)
    (hs : stop ≠ .running → stop' ≠ .running) : t.Agrees config k₀ p stop' := by
  cases p with
  | exited => exact agrees_exited.2 ⟨h.1, h.2.imp_right hs⟩
  | _ => exact h

end Lemmas

end SourceThread

/-- Whether action `a` is the thread of instance `j₀` calling `generate` as the source of `t` does. -/
def Act.runsSource (j₀ : ℕ) (t : SourceThread) : Act → Bool
  | .generate j more out => if j = j₀ then (more, out) == t.call else true
  | _ => true

/-- A worker holds no event of instance `j₀` and has no push onto queue `k₀` left. -/
def WorkerPhase.Off (j₀ k₀ : ℕ) (p : WorkerPhase) : Prop :=
  (∀ j done e, p = .holding j done e → j ≠ j₀) ∧ p.pendingOn k₀ = []

/-- Where the thread of a source with no outputs stands: in `generate`, the call returns `true`
exactly when `count > 0`, and has no push to make; once returned, `count = 0` or `stop` was
called. -/
def SourcePhase.Spins (count : ℕ) : SourcePhase → StopPhase → Prop
  | .top, _ => True
  | .exited, stop => count = 0 ∨ stop ≠ .running
  | .emitting more ps, _ => more = decide (0 < count) ∧ ps = []

/-! ## The first operator of a line -/

variable {b : StreamGraphBuilder} {names : List String}

/-- **How `Runtime::init` wires the first operator of a line**: its instance `j₀` is the only
source, reads no queue, and writes queue `0`, which no other instance writes. -/
theorem line_head_wiring (hl : IsLine b names) (nw : ℕ) (policy : SchedulingPolicy) {j₀ : ℕ}
    (hj : j₀ < b.operators.length) (h1 : 1 < names.length) (hjm : b.operators[j₀].1 = names[0]) :
    (∀ j, (RunConfig.ofGraph b nw policy).isSource j = true → j = j₀) ∧
      (RunConfig.ofGraph b nw policy).input j₀ = none ∧
      (RunConfig.ofGraph b nw policy).outputs j₀ = [0] ∧
      ∀ j, j ≠ j₀ → 0 ∉ (RunConfig.ofGraph b nw policy).outputs j := by
  refine ⟨fun j hs => ?_, ?_, ?_, fun j hne hmem => ?_⟩
  · have hj' : j < b.operators.length := by
      by_contra hge
      simp [RunConfig.isSource, RunConfig.ofGraph, wireInstances,
        List.getElem?_eq_none (Nat.le_of_not_lt hge)] at hs
    obtain ⟨m, hm, hjm'⟩ := hl.exists_position hj'
    obtain rfl := hl.eq_zero_of_isSource nw policy hj' hm hjm' hs
    exact operators_name_inj hj' hj (hjm'.trans hjm.symm)
  · cases h : (RunConfig.ofGraph b nw policy).input j₀ with
    | none => rfl
    | some k => exact absurd ((hl.input_eq_some nw policy hj (by omega) hjm).1 h) (by omega)
  · have hnd : ((RunConfig.ofGraph b nw policy).outputs j₀).Nodup := by
      rw [ofGraph_outputs nw policy hj]; exact nodup_idsOf _ _
    refine List.perm_singleton.1 ((List.perm_ext_iff_of_nodup hnd (List.nodup_singleton 0)).2
      fun k => ?_)
    rw [hl.mem_outputs nw policy hj (by omega) hjm, List.mem_singleton]
    exact and_iff_left h1
  · by_cases hj' : j < b.operators.length
    · obtain ⟨m, hm, hjm'⟩ := hl.exists_position hj'
      obtain ⟨rfl, -⟩ := (hl.mem_outputs nw policy hj' hm hjm').1 hmem
      exact hne (operators_name_inj hj' hj (hjm'.trans hjm.symm))
    · simp [RunConfig.outputs, RunConfig.ofGraph, wireInstances,
        List.getElem?_eq_none (Nat.le_of_not_lt hj')] at hmem

namespace RunState

variable {C : Capacity} {cfg : RunConfig} {op : ℕ → ℕ → List ℕ} {s s' : RunState C}

/-! ## Runs in which a thread runs a `SequenceSource` -/

variable (cfg op) in
/-- **The states, with the source of instance `j₀`, that some interleaving reaches from `start`
when every instance `j` emits `op j e` on the event `e` and instance `j₀` runs a `SequenceSource`
built from `config`.** -/
inductive FedBy (j₀ : ℕ) (config : SequenceSource.Config) : RunState C → SourceThread → Prop
  | start (draws : ℕ → ℕ) : FedBy j₀ config (start draws) ⟨.new config, 0, 0⟩
  | step {s s' : RunState C} {t : SourceThread} (a : Act) : FedBy j₀ config s t →
      a.follows op s = true → a.runsSource j₀ t = true → s.act cfg a = some s' →
      FedBy j₀ config s' (t.after j₀ s s' a)

theorem FedBy.reachableBy {j₀ : ℕ} {config : SequenceSource.Config} {t : SourceThread}
    (hs : s.FedBy cfg op j₀ config t) : s.ReachableBy cfg op := by
  induction hs with
  | start draws => exact .start draws
  | step a _ hf _ ha ih => exact ih.step a hf ha

variable (cfg op) in
/-- The actions `as` taken in turn from `s`, with the thread of `j₀`; `none` if one cannot be
taken, or does not follow `op` or the source. -/
def fedRun (j₀ : ℕ) : RunState C → SourceThread → List Act → Option (RunState C × SourceThread)
  | s, t, [] => some (s, t)
  | s, t, a :: as =>
    if a.follows op s && a.runsSource j₀ t then
      (s.act cfg a).bind fun s' => fedRun j₀ s' (t.after j₀ s s' a) as
    else none

theorem FedBy.run {j₀ : ℕ} {config : SequenceSource.Config} {t t' : SourceThread}
    (h : s.FedBy cfg op j₀ config t) {as : List Act} (hr : fedRun cfg op j₀ s t as = some (s', t')) :
    s'.FedBy cfg op j₀ config t' := by
  induction as generalizing s t with
  | nil => cases hr; exact h
  | cons a as ih =>
    rw [fedRun] at hr
    split_ifs at hr with hf
    obtain ⟨s₁, h₁, h₂⟩ := Option.bind_eq_some.1 hr
    rw [Bool.and_eq_true] at hf
    exact ih (h.step a hf.1 hf.2 h₁) h₂

/-- The test's run cut down to two events: the thread of `source` calls `generate` three times,
the first two emitting `1` and `2` and the last returning `false`, then one worker takes the line in
round-robin order. -/
def mapFilterSequenceRun : List Act :=
  [.generate 0 true [1], .source 0, .source 0, .generate 0 true [2], .source 0, .source 0,
    .generate 0 false [], .source 0,
    .worker 0, .worker 0, .process 0 [1], .worker 0, .worker 0, .worker 0, .process 0 [4],
    .worker 0, .worker 0, .worker 0, .worker 0, .worker 0, .process 0 [], .worker 0, .worker 0,
    .process 0 [4], .worker 0, .worker 0, .worker 0, .worker 0, .worker 0, .process 0 [],
    .worker 0, .worker 0]

/-- **What the source of instance `j₀` has done, along every run**: its config; `current_` at the
`generated_`-th value of the sequence; its counters; the events queue `k₀` accepted, and that it
refused none; where it stands against its thread; and no worker in the way of either. -/
structure FeedInv (config : SequenceSource.Config) (j₀ k₀ : ℕ) (s : RunState C) (t : SourceThread) :
    Prop where
  source : t.source.config = config ∧
    t.source.current = wrapInt64 (config.start + t.source.tally.generated * config.step) ∧
    t.source.tally.generated ≤ config.count
  counters : t.source.tally.backpressureEvents = 0 ∧
    t.source.tally.eventsEmitted = wrap64 t.source.tally.generated ∧
    t.eventsProcessed = wrap64 t.source.tally.generated
  accepted : s.log.flatMap (Obs.into k₀) =
    (List.range t.source.tally.generated).map config.value ++
      List.replicate t.accepted (config.value t.source.tally.generated)
  refused : s.log.flatMap (Obs.refusedOn k₀) = []
  phase : t.Agrees config k₀ (s.sources j₀) s.stop
  workers : ∀ w, (s.workers w).Off j₀ k₀

/-! ## The steps that leave the source alone -/

/-- A step of a worker, of `process` or of `stop` leaves every source thread where it was. -/
theorem act_sources_of_not_source {a : Act} (h : s.act cfg a = some s')
    (hs : ∀ j, a ≠ .source j) (hg : ∀ j more out, a ≠ .generate j more out) :
    s'.sources = s.sources := by
  cases a with
  | worker w =>
    simp only [act] at h; split_ifs at h; unfold workerStep at h
    split at h
    · split_ifs at h <;> cases h <;> simp
    · split at h
      · cases h; rfl
      · split_ifs at h
        · split at h <;> cases h <;> rfl
        · cases h; rfl
    · cases h
    · cases h; rfl
    · obtain ⟨s₁, h₁, rfl⟩ := Option.map_eq_some'.1 h
      obtain ⟨ok, q, -, rfl⟩ := pushOn_eq_some h₁
      rfl
    · cases h
  | process w out =>
    simp only [act] at h; split_ifs at h; unfold processStep at h
    split at h <;> cases h; rfl
  | source j => exact absurd rfl (hs j)
  | generate j more out => exact absurd rfl (hg j more out)
  | stop =>
    simp only [act] at h; unfold stopStep at h
    split at h <;> (try split_ifs at h) <;> cases h <;> rfl

/-- Once `stop` has been called, no step brings the stop thread back to `running`. -/
theorem Step.stop_ne_running (hs : Step cfg s s') (h : s.stop ≠ .running) : s'.stop ≠ .running := by
  cases hs with
  | requestStop | joined | drained | close | stopPool | joinedWorkers => simp
  | probe => split <;> simp
  | next => simpa using h
  | _ => exact h

/-- **No queue is closed while a source thread has not returned**: `stop` closes the queues only
after joining the source threads. -/
theorem StopInv.open_of_not_exited (hi : s.StopInv cfg) {j : ℕ} (hj : cfg.isSource j = true)
    (hne : s.sources j ≠ .exited) (k : ℕ) : (s.queues k).closed = false := by
  by_contra hc
  have hcl := hi.closed k (by simpa using hc)
  exact hne (hi.sourcesDone (fun h => by rw [h] at hcl; exact hcl)
    (fun h => by rw [h] at hcl; exact hcl) j (cfg.mem_sourceIds.2 hj))

section Feed

variable {j₀ k₀ : ℕ}

/-- **Every step keeps the workers off instance `j₀` and queue `k₀`**, when `j₀` reads no queue and
no other instance writes `k₀`. -/
theorem Step.workersOff (hin : cfg.input j₀ = none) (hoff : ∀ j, j ≠ j₀ → k₀ ∉ cfg.outputs j)
    (hs : Step cfg s s') (h : ∀ w, (s.workers w).Off j₀ k₀) : ∀ w, (s'.workers w).Off j₀ k₀ := by
  have hupd : ∀ w (p : WorkerPhase), p.Off j₀ k₀ → ∀ w', (Function.update s.workers w p w').Off j₀ k₀ :=
    fun w p hp => (Function.forall_update_iff _ (fun _ (p : WorkerPhase) => p.Off j₀ k₀)).2 ⟨hp, fun x _ => h x⟩
  cases hs with
  | next =>
    simp only [setWorker_workers, next_workers]
    exact hupd _ _ (by split <;> simp [WorkerPhase.Off, WorkerPhase.pendingOn])
  | exit | endBatch | processed => exact hupd _ _ (by simp [WorkerPhase.Off, WorkerPhase.pendingOn])
  | @pop w j done k e q _ _ hinj =>
    refine hupd _ _ ⟨?_, rfl⟩
    rintro j' d' e' ⟨⟩ rfl
    simp [hin] at hinj
  | @process w j done e out _ hp =>
    have hj := (h w).1 j done e hp
    exact hupd _ _ ⟨by simp, by
      simp [WorkerPhase.pendingOn, onQueue_pushesOf, List.count_eq_zero.2 (hoff j hj)]⟩
  | @workerPush w j done k e ps ok q _ hp _ =>
    have hpend := (h w).2
    rw [hp, WorkerPhase.pendingOn, onQueue_cons, List.append_eq_nil] at hpend
    exact hupd _ _ ⟨by simp, hpend.2⟩
  | _ => exact h

/-- **A step that leaves the thread of `j₀` where it was pushes nothing onto `k₀`**, when `j₀` is
the only source and no worker has a push onto `k₀` left. -/
theorem Step.pushedOn_eq (hsrc : ∀ j, cfg.isSource j = true → j = j₀) (hs : Step cfg s s')
    (h : ∀ w, (s.workers w).Off j₀ k₀) (hj : s'.sources j₀ = s.sources j₀) :
    s'.log.flatMap (Obs.into k₀) = s.log.flatMap (Obs.into k₀) ∧
      s'.log.flatMap (Obs.refusedOn k₀) = s.log.flatMap (Obs.refusedOn k₀) := by
  cases hs with
  | @workerPush w j done k e ps ok q _ hp _ =>
    have hpend := (h w).2
    rw [hp, WorkerPhase.pendingOn, onQueue_cons, List.append_eq_nil] at hpend
    have hk : k ≠ k₀ := fun hk => by simp [hk] at hpend
    cases ok <;> simp [Obs.into, Obs.refusedOn, hk]
  | @sourcePush j k e more ps ok q hj' hp _ =>
    obtain rfl := hsrc j hj'
    simp [hp] at hj
  | pop | process => simp [Obs.into, Obs.refusedOn]
  | next => simp
  | _ => exact ⟨rfl, rfl⟩

/-- `generate` as the thread calls it on a source at its `generated_`-th value. -/
theorem SourceThread.call_eq {config : SequenceSource.Config} {t : SourceThread}
    (hc : t.source.config = config)
    (hcur : t.source.current = wrapInt64 (config.start + t.source.tally.generated * config.step)) :
    t.call = (decide (t.source.tally.generated < config.count),
      if t.source.tally.generated < config.count then [config.value t.source.tally.generated]
      else []) := by
  obtain ⟨h1, h2⟩ := t.source.generate_call 0
  rw [SourceThread.call, h1, h2, hc, hcur, SequenceSource.Config.value]

variable {config : SequenceSource.Config} {t : SourceThread}

/-- **The loop test fails once `stop` was called**, and the thread returns. -/
theorem sourceStep_exit (hp : s.sources j₀ = .top) (h : s.sourceStep j₀ = some s')
    (hi : FeedInv config j₀ k₀ s t) : FeedInv config j₀ k₀ s' (t.after j₀ s s' (.source j₀)) := by
  obtain ⟨hsrc, hcnt, hacc, href, hph, hw⟩ := hi
  simp only [sourceStep, hp] at h
  split_ifs at h with hr
  cases h
  rw [hp, SourceThread.agrees_top] at hph
  rw [SourceThread.after_top hp]
  refine ⟨hsrc, hcnt, hacc, href, ?_, hw⟩
  simp only [setSource_sources, Function.update_same, setSource_stop]
  exact SourceThread.agrees_exited.2 ⟨hph, .inr hr⟩

/-- **`generate` returns, and the source takes the count of its `emit`.** Before `count`, `k₀` took
the event, so `current_` moves on, the event is counted, and `run_sources` counts the call; after,
nothing moves and the thread returns. -/
theorem sourceStep_return {more : Bool} (hp : s.sources j₀ = .emitting more [])
    (h : s.sourceStep j₀ = some s') (hi : FeedInv config j₀ k₀ s t) :
    FeedInv config j₀ k₀ s' (t.after j₀ s s' (.source j₀)) := by
  obtain ⟨hsrc, hcnt, hacc, href, hph, hw⟩ := hi
  simp only [sourceStep, hp, Option.some.injEq] at h
  subst h
  rw [hp, SourceThread.agrees_emitting] at hph
  obtain ⟨rfl, hps⟩ := hph
  rw [SourceThread.after_return hp]
  by_cases hc : t.source.tally.generated < config.count
  · have h1 : t.accepted = 1 := by
      rcases hps with ⟨hps, -⟩ | ⟨-, h1⟩
      · rw [if_pos hc] at hps; cases hps
      · rwa [if_pos hc] at h1
    have hgen := congrArg (·.2.2) (t.source.generate_of_lt 1 (by rwa [hsrc.1]))
    simp only [if_pos Nat.one_pos] at hgen
    rw [h1, hgen]
    refine ⟨by simpa [hgen] using (t.source.generate_step false 1 config hsrc).1, ?_, ?_, href, ?_, hw⟩
    · simp [SourceTally.countEmitted, hc, hcnt, wrap64_add_wrap64]
    · simp [hacc, h1, List.range_succ]
    · simpa [hc] using SourceThread.agrees_top.2 rfl
  · have h0 : t.accepted = 0 := by
      rcases hps with ⟨-, h0⟩ | ⟨-, h0⟩
      · exact h0
      · rwa [if_neg hc] at h0
    rw [h0, t.source.generate_of_le false 0 (by rw [hsrc.1]; omega)]
    refine ⟨hsrc, by simpa [hc] using hcnt, by simpa [h0] using hacc, href, ?_, hw⟩
    simp only [setSource_sources, Function.update_same, setSource_stop, hc, decide_False,
      Bool.false_eq_true, ite_false]
    exact SourceThread.agrees_exited.2 ⟨rfl, .inl (Nat.le_antisymm hsrc.2.2 (Nat.le_of_not_lt hc))⟩

/-- **A `push` of `emit` finds `k₀` open**, since the source has not returned, and `k₀` takes the
event. -/
theorem sourceStep_push (hj : cfg.isSource j₀ = true) (hstop : s.StopInv cfg) {more : Bool}
    {p : ℕ × ℕ} {ps : List (ℕ × ℕ)} (hp : s.sources j₀ = .emitting more (p :: ps))
    (h : s.sourceStep j₀ = some s') (hi : FeedInv config j₀ k₀ s t) :
    FeedInv config j₀ k₀ s' (t.after j₀ s s' (.source j₀)) := by
  obtain ⟨hsrc, hcnt, hacc, href, hph, hw⟩ := hi
  rw [SourceThread.after_push hp]
  obtain ⟨k, e⟩ := p
  simp only [sourceStep, hp] at h
  obtain ⟨s₁, h₁, rfl⟩ := Option.map_eq_some'.1 h
  obtain ⟨ok, q, hq, rfl⟩ := pushOn_eq_some h₁
  obtain rfl : ok = true := by
    by_contra hok
    have := (push_closed hq).2 (by simpa using hok)
    rw [hstop.open_of_not_exited hj (by rw [hp]; nofun) k] at this
    cases this
  rw [hp, SourceThread.agrees_emitting] at hph
  obtain ⟨hmore, ⟨hps, h0⟩ | ⟨hps, -⟩⟩ := hph
  · have hc : t.source.tally.generated < config.count := by
      by_contra hc; rw [if_neg hc] at hps; cases hps
    rw [if_pos hc, List.cons.injEq, Prod.mk.injEq] at hps
    obtain ⟨⟨rfl, rfl⟩, rfl⟩ := hps
    refine ⟨hsrc, hcnt, ?_, ?_, ?_, hw⟩ <;>
      simp only [setSource_log, record_log, setQueue_log, List.drop_left, List.flatMap_append,
        setSource_sources, Function.update_same, setSource_stop, h0]
    · simp [hacc, h0, Obs.into, Obs.taken]
    · simp [href, Obs.refusedOn]
    · exact SourceThread.agrees_emitting.2 ⟨hmore, .inr ⟨rfl, by simp [Obs.taken, hc]⟩⟩
  · cases hps

/-- **A step of the thread of `j₀` keeps the account.** -/
theorem sourceStep_feedInv (hj : cfg.isSource j₀ = true) (hstop : s.StopInv cfg)
    (h : s.sourceStep j₀ = some s') (hi : FeedInv config j₀ k₀ s t) :
    FeedInv config j₀ k₀ s' (t.after j₀ s s' (.source j₀)) := by
  cases hp : s.sources j₀ with
  | top => exact sourceStep_exit hp h hi
  | emitting more ps =>
    cases ps with
    | nil => exact sourceStep_return hp h hi
    | cons p ps => exact sourceStep_push hj hstop hp h hi
  | exited => simp [sourceStep, hp] at h

/-- **The thread of `j₀` calls `generate` as its source does**: the call returns `true` exactly
while fewer than `count` events were counted, and emits the `generated_`-th value onto `k₀`. -/
theorem generateStep_feedInv (hout : cfg.outputs j₀ = [k₀]) {more : Bool} {out : List ℕ}
    (h : s.generateStep cfg j₀ more out = some s') (hcall : (more, out) = t.call)
    (hi : FeedInv config j₀ k₀ s t) : FeedInv config j₀ k₀ s' t := by
  obtain ⟨hsrc, hcnt, hacc, href, hph, hw⟩ := hi
  unfold generateStep at h
  split at h
  · rename_i hp
    split_ifs at h
    cases h
    rw [hp, SourceThread.agrees_top] at hph
    rw [SourceThread.call_eq hsrc.1 hsrc.2.1, Prod.mk.injEq] at hcall
    obtain ⟨rfl, rfl⟩ := hcall
    refine ⟨hsrc, hcnt, hacc, href, ?_, hw⟩
    simp only [setSource_sources, Function.update_same, setSource_stop, hout]
    refine SourceThread.agrees_emitting.2 ⟨rfl, .inl ⟨?_, hph⟩⟩
    split_ifs <;> simp [pushesOf]
  · cases h

variable (hsrc : ∀ j, cfg.isSource j = true → j = j₀) (hin : cfg.input j₀ = none)
  (hout : cfg.outputs j₀ = [k₀]) (hoff : ∀ j, j ≠ j₀ → k₀ ∉ cfg.outputs j)

include hsrc hin hout hoff in
/-- **What a `SequenceSource` has handed its queue, along every run.** When instance `j₀` is the
only source, reads no queue and writes queue `k₀` alone, then along every run in which it runs a
`SequenceSource` built from `config`, whatever the other operators, the number of workers, the
policy and the interleaving: `current_` is the `generated_`-th value of the sequence, the events
`k₀` accepted are the first `generated_` values then the one of the call under way if `k₀` took
it, and once the thread has returned, `generated_ = count` or `stop` was called. -/
theorem FedBy.feedInv (hs : s.FedBy cfg op j₀ config t) : FeedInv config j₀ k₀ s t := by
  induction hs with
  | start draws =>
    exact ⟨⟨rfl, by simp [SequenceSource.new, wrapInt64_of_mem config.start_mem], Nat.zero_le _⟩,
      ⟨rfl, rfl, rfl⟩, rfl, rfl, rfl, fun _ => ⟨fun _ _ _ h => (nomatch h), rfl⟩⟩
  | @step s s' t a hs _ hg ha ih =>
    cases a with
    | source j =>
      simp only [act] at ha
      split_ifs at ha with hj
      obtain rfl := hsrc j hj
      exact sourceStep_feedInv hj hs.reachableBy.reachable.stopInv ha ih
    | generate j more out =>
      simp only [act] at ha
      split_ifs at ha with hj
      obtain rfl := hsrc j hj
      simp only [Act.runsSource, ite_true, beq_iff_eq] at hg
      exact generateStep_feedInv hout ha hg ih
    | _ =>
      have hst := act_step ha
      have hj := congrFun (act_sources_of_not_source ha (by simp) (by simp)) j₀
      have hpush := hst.pushedOn_eq hsrc ih.workers hj
      exact ⟨ih.source, ih.counters, hpush.1.trans ih.accepted, hpush.2.trans ih.refused,
        hj ▸ ih.phase.of_stop (hst.stop_ne_running), hst.workersOff hin hoff ih.workers⟩

include hsrc hin hout hoff in
/-- **A `SequenceSource` in the runtime never meets backpressure.** `stop` closes the queues only
after joining the source threads, so every push of the source's `emit` finds `k₀` open: along every
run, `k₀` refuses no push, `record_backpressure` is never called, and both `events_emitted` and
the `events_processed` metric that `run_sources` increments after each `generate` returning `true`
equal `generated_`, modulo `2 ^ 64`. -/
theorem FedBy.sourceCounters (hs : s.FedBy cfg op j₀ config t) :
    s.log.flatMap (Obs.refusedOn k₀) = [] ∧ t.source.tally.backpressureEvents = 0 ∧
      t.source.tally.eventsEmitted = wrap64 t.source.tally.generated ∧
      t.eventsProcessed = wrap64 t.source.tally.generated :=
  have hi := hs.feedInv hsrc hin hout hoff
  ⟨hi.refused, hi.counters⟩

end Feed

theorem sourceCounters_mapFilter :
    ∃ (s : RunState (Capacity.ofPow 12)) (t : SourceThread),
      fedRun (.ofGraph mapFilterGraph 1 .roundRobin)
          ((RunConfig.ofGraph mapFilterGraph 1 .roundRobin).opByName mapFilterOps) 0
          (start fun _ => 0) ⟨.new { start := 1, count := 2 }, 0, 0⟩ mapFilterSequenceRun = some (s, t) ∧
      s.log.flatMap (Obs.refusedOn 0) = [] ∧ t.source.tally.backpressureEvents = 0 ∧
      t.source.tally.eventsEmitted = wrap64 t.source.tally.generated ∧
      t.eventsProcessed = wrap64 t.source.tally.generated :=
  have hw := line_head_wiring mapFilterGraph_isLine 1 .roundRobin
    (show 0 < mapFilterGraph.operators.length by decide) (by decide) rfl
  ⟨_, _, rfl, FedBy.sourceCounters hw.1 hw.2.1 hw.2.2.1 hw.2.2.2
    ((FedBy.start _).run (show fedRun (.ofGraph mapFilterGraph 1 .roundRobin)
      ((RunConfig.ofGraph mapFilterGraph 1 .roundRobin).opByName mapFilterOps) 0
      (start fun _ => 0 : RunState (Capacity.ofPow 12)) ⟨.new { start := 1, count := 2 }, 0, 0⟩
      mapFilterSequenceRun = _ from rfl))⟩

/-! ## A source connected to nothing -/

/-- **What a `SequenceSource` with no outputs has done, along every run**: `generated_` at `0` and
`current_` at `start`; as many `events_processed` increments as `backpressure_events`; no output
taken; and where its thread stands. -/
structure SpinInv (config : SequenceSource.Config) (j₀ : ℕ) (s : RunState C) (t : SourceThread) :
    Prop where
  source : t.source.config = config ∧ t.source.current = config.start ∧
    t.source.tally.generated = 0
  counters : t.eventsProcessed = t.source.tally.backpressureEvents
  accepted : t.accepted = 0
  phase : (s.sources j₀).Spins config.count s.stop

/-- A step of another thread leaves the thread of `j₀` where it was. -/
theorem act_sources_self {a : Act} {j₀ : ℕ} (h : s.act cfg a = some s') (hs : a ≠ .source j₀)
    (hg : ∀ more out, a ≠ .generate j₀ more out) : s'.sources j₀ = s.sources j₀ := by
  cases a with
  | source j =>
    have hj : j₀ ≠ j := fun h => hs (h ▸ rfl)
    simp only [act] at h; split_ifs at h; unfold sourceStep at h
    split at h
    · split_ifs at h; cases h; simp [Function.update_noteq hj]
    · cases h; simp [Function.update_noteq hj]
    · obtain ⟨s₁, h₁, rfl⟩ := Option.map_eq_some'.1 h
      obtain ⟨ok, q, -, rfl⟩ := pushOn_eq_some h₁
      simp [Function.update_noteq hj]
    · cases h
  | generate j more out =>
    have hj : j₀ ≠ j := fun h => hg more out (h ▸ rfl)
    simp only [act] at h; split_ifs at h; unfold generateStep at h
    split at h
    · split_ifs at h; cases h; simp [Function.update_noteq hj]
    · cases h
  | _ => exact congrFun (act_sources_of_not_source h (by simp) (by simp)) j₀

section Spin

variable {j₀ : ℕ} {config : SequenceSource.Config} {t : SourceThread}

/-- **A step of the thread of a source with no outputs**: its loop test returns only once `stop`
was called, its `generate` emits to nothing, and the call returns having recorded backpressure,
which `run_sources` counts in `events_processed`. -/
theorem sourceStep_spinInv (h : s.sourceStep j₀ = some s') (hi : SpinInv config j₀ s t) :
    SpinInv config j₀ s' (t.after j₀ s s' (.source j₀)) := by
  obtain ⟨hsrc, hcnt, h0, hph⟩ := hi
  cases hp : s.sources j₀ with
  | top =>
    simp only [sourceStep, hp] at h
    split_ifs at h with hr
    cases h
    rw [SourceThread.after_top hp]
    exact ⟨hsrc, hcnt, h0, by simpa [SourcePhase.Spins] using .inr hr⟩
  | emitting more ps =>
    rw [hp] at hph
    obtain ⟨rfl, rfl⟩ := hph
    simp only [sourceStep, hp, Option.some.injEq] at h
    subst h
    rw [SourceThread.after_return hp, h0]
    by_cases hc : 0 < config.count
    · rw [t.source.generate_of_lt 0 (by rw [hsrc.1, hsrc.2.2]; exact hc), if_neg (Nat.lt_irrefl 0)]
      refine ⟨hsrc, ?_, rfl, by simp [hc, SourcePhase.Spins]⟩
      simp [hc, hcnt, SourceTally.countBackpressure]
    · rw [t.source.generate_of_le false 0 (by rw [hsrc.1, hsrc.2.2]; omega)]
      exact ⟨hsrc, by simpa [hc] using hcnt, rfl, by simp [hc, SourcePhase.Spins]; omega⟩
  | exited => simp [sourceStep, hp] at h

/-- **`generate` of a source with no outputs** returns `true` exactly when `count > 0`, and has no
push to make. -/
theorem generateStep_spinInv (hout : cfg.outputs j₀ = []) {more : Bool} {out : List ℕ}
    (h : s.generateStep cfg j₀ more out = some s') (hcall : (more, out) = t.call)
    (hi : SpinInv config j₀ s t) : SpinInv config j₀ s' t := by
  obtain ⟨hsrc, hcnt, h0, -⟩ := hi
  simp only [generateStep] at h
  split at h
  · split_ifs at h
    cases h
    simp only [SourceThread.call, hsrc.1, hsrc.2.2, SequenceSource.generate_call,
      Prod.mk.injEq] at hcall
    exact ⟨hsrc, hcnt, h0, by simp [SourcePhase.Spins, hcall.1, hout, pushesOf]⟩
  · cases h

/-- A step of another thread keeps the account: the source's thread is where it was, and `stop` is
never undone. -/
theorem SpinInv.frame (hi : SpinInv config j₀ s t) (hj : s'.sources j₀ = s.sources j₀)
    (hstop : s.stop ≠ .running → s'.stop ≠ .running) : SpinInv config j₀ s' t := by
  refine ⟨hi.source, hi.counters, hi.accepted, ?_⟩
  have hph := hi.phase
  rw [← hj] at hph
  cases hp : s'.sources j₀ <;> rw [hp] at hph
  · trivial
  · exact hph
  · exact hph.imp_right hstop

/-- **Every step of a run keeps the account of a source with no outputs.** -/
theorem FedBy.spinInv (hout : cfg.outputs j₀ = []) (hs : s.FedBy cfg op j₀ config t) :
    SpinInv config j₀ s t := by
  induction hs with
  | start draws => exact ⟨⟨rfl, rfl, rfl⟩, rfl, rfl, trivial⟩
  | @step s s' t a _ _ hg ha ih =>
    by_cases hsrc : a = .source j₀
    · subst hsrc
      simp only [act] at ha
      split_ifs at ha
      exact sourceStep_spinInv ha ih
    by_cases hgen : ∃ more out, a = .generate j₀ more out
    · obtain ⟨more, out, rfl⟩ := hgen
      simp only [act] at ha
      split_ifs at ha
      simp only [Act.runsSource, ite_true, beq_iff_eq] at hg
      exact generateStep_spinInv hout ha hg ih
    · push_neg at hgen
      have hafter : t.after j₀ s s' a = t := by cases a <;> simp_all [SourceThread.after]
      rw [hafter]
      exact ih.frame (act_sources_self ha hsrc hgen) (act_step ha).stop_ne_running

/-- **A source connected to nothing spins until `stop`.** When instance `j₀` has no outputs —
`Runtime::init` takes a graph in which no edge leaves a source — and `count > 0`, then along every
run, whatever the other threads do: each `generate` call returns `true`, emits to no queue and
records backpressure, so `generated_` stays `0` and `current_` at `start`, while `run_sources`
counts every call in `events_processed`, as many as `backpressure_events`; and the thread returns
only once `stop` was called. -/
theorem FedBy.unconnectedSource (hout : cfg.outputs j₀ = []) (hc : 0 < config.count)
    (hs : s.FedBy cfg op j₀ config t) :
    t.source.tally.generated = 0 ∧ t.source.current = config.start ∧
      t.eventsProcessed = t.source.tally.backpressureEvents ∧
      (s.sources j₀ = .exited → s.stop ≠ .running) := by
  have hi := hs.spinInv hout
  have hph := hi.phase
  exact ⟨hi.source.2.2, hi.source.2.1, hi.counters, fun hex => by
    rw [hex] at hph; exact hph.resolve_left (by omega)⟩

end Spin

/-- A graph of one source and no edges, which `Runtime::init` takes. -/
def loneSource : StreamGraphBuilder := ⟨[("source", true)], [], by decide⟩

/-- The source's thread calls `generate` twice, each call handing `emit` the event `0`. -/
def loneSourceRun : List Act := [.generate 0 true [0], .source 0, .generate 0 true [0], .source 0]

theorem unconnectedSource_twice :
    ∃ (s : RunState (Capacity.ofPow 12)) (t : SourceThread),
      fedRun (.ofGraph loneSource 1 .roundRobin) (fun _ _ => []) 0 (start fun _ => 0)
          ⟨.new { count := 3 }, 0, 0⟩ loneSourceRun = some (s, t) ∧
      (RunConfig.ofGraph loneSource 1 .roundRobin).outputs 0 = [] ∧ 0 < 3 ∧
      t.source.tally.generated = 0 ∧ t.source.current = 0 ∧
      t.eventsProcessed = t.source.tally.backpressureEvents ∧
      (s.sources 0 = .exited → s.stop ≠ .running) :=
  ⟨_, _, rfl, rfl, by decide, FedBy.unconnectedSource
    (show (RunConfig.ofGraph loneSource 1 .roundRobin).outputs 0 = [] from rfl) (Nat.succ_pos 2)
    ((FedBy.start _).run (show fedRun (.ofGraph loneSource 1 .roundRobin) (fun _ _ => []) 0
      (start fun _ => 0 : RunState (Capacity.ofPow 12)) ⟨.new { count := 3 }, 0, 0⟩
      loneSourceRun = _ from rfl))⟩

/-! ## `IntegrationTest.MapFilterPipeline`, from its source -/

variable {nw : ℕ} {policy : SchedulingPolicy}

/-- **`IntegrationTest.MapFilterPipeline`, from its source.** Along every run of the line
`source → square → even → sink` in which the instance `j₀` of `source` runs a `SequenceSource`
with `start = 1`, `step = 1` and `count = n`, `n * n` below `2 ^ 63`, and the other operators act as
`mapFilterOps` says, with any number of workers, either policy and any iteration order of
`operators_`: once the source thread is at its loop test or returned, the queues empty, the
workers idle and no queue closed, the source has counted `g ≤ n` events, `g = n` if its thread
returned before `stop` was called, and the sink has been handed exactly the even squares among
`1², …, g²`; an `AggregatingSink` consuming them reports their number and their sum. -/
theorem FedBy.mapFilterSequence (hl : IsLine b mapFilterLine) {j₀ : ℕ}
    (hj₀ : (b.operators[j₀]?).map Prod.fst = some "source") {n : ℕ} (hn : n * n < 2 ^ 63)
    {t : SourceThread}
    (hs : s.FedBy (.ofGraph b nw policy) ((RunConfig.ofGraph b nw policy).opByName mapFilterOps) j₀
      { start := 1, count := n } t)
    (hthread : s.sources j₀ = .top ∨ s.sources j₀ = .exited)
    (hempty : ∀ k < b.edges.length, (s.queues k).size = 0)
    (hidle : ∀ w < nw, (s.workers w).busy = false) (hcl : ¬ s.stop.HasClosed 0)
    (md : EventMetadata) :
    t.source.tally.generated ≤ n ∧
      (s.sources j₀ = .exited → s.stop = .running → t.source.tally.generated = n) ∧
      (s.log.flatMap (Obs.processedFrom (.ofGraph b nw policy) 2) : Multiset ℕ) =
        ((List.range' 1 t.source.tally.generated).map fun v => v * v).filter (· % 2 = 0) ∧
      ∃ r, ({} : AggregatingSink).consumeAll
          ((s.log.flatMap (Obs.processedFrom (.ofGraph b nw policy) 2)).map (intEvent md)) = some r ∧
        r.count =
          wrap64 (((List.range' 1 t.source.tally.generated).map fun v => v * v).filter
            (· % 2 = 0)).length ∧
        r.sum = wrapInt64 ((((List.range' 1 t.source.tally.generated).map fun v => v * v).filter
          (· % 2 = 0)).sum : ℕ) := by
  obtain ⟨p, hp, hname⟩ := Option.map_eq_some'.1 hj₀
  obtain ⟨hj, rfl⟩ := List.getElem?_eq_some_iff.1 hp
  obtain ⟨hsrc, hin, hout, hoff⟩ := line_head_wiring hl nw policy hj (by decide) hname
  have hi := hs.feedInv hsrc hin hout hoff
  have hle := hi.source.2.2
  have h0 : t.accepted = 0 := by
    have hph := hi.phase
    rcases hthread with h | h
    · rwa [h, SourceThread.agrees_top] at hph
    · rw [h, SourceThread.agrees_exited] at hph; exact hph.1
  have hq : (s.log.flatMap (Obs.into 0) : Multiset ℕ) = List.range' 1 t.source.tally.generated := by
    rw [hi.accepted, h0, List.replicate_zero, List.append_nil, SequenceSource.Config.map_value_range
      (lt_of_le_of_lt (hle.trans (Nat.le_mul_self n)) hn)]
  have hm := hs.reachableBy.mapFilter hl hempty hidle hcl hq
  refine ⟨hle, fun hex hrun => ?_, hm, consumeAll_evenSquares (Multiset.coe_eq_coe.1 hm)
    (lt_of_le_of_lt (Nat.mul_le_mul hle hle) hn) md⟩
  have hph := hi.phase
  rw [hex, SourceThread.agrees_exited] at hph
  exact hph.2.resolve_right (not_not.2 hrun)

theorem mapFilterSequence_two :
    ∃ (s : RunState (Capacity.ofPow 12)) (t : SourceThread),
      fedRun (.ofGraph mapFilterGraph 1 .roundRobin)
          ((RunConfig.ofGraph mapFilterGraph 1 .roundRobin).opByName mapFilterOps) 0
          (start fun _ => 0) ⟨.new { start := 1, count := 2 }, 0, 0⟩ mapFilterSequenceRun = some (s, t) ∧
      t.source.tally.generated ≤ 2 ∧
      (s.sources 0 = .exited → s.stop = .running → t.source.tally.generated = 2) ∧
      (s.log.flatMap (Obs.processedFrom (.ofGraph mapFilterGraph 1 .roundRobin) 2) : Multiset ℕ) =
        ((List.range' 1 t.source.tally.generated).map fun v => v * v).filter (· % 2 = 0) ∧
      ∃ r, ({} : AggregatingSink).consumeAll
          ((s.log.flatMap (Obs.processedFrom (.ofGraph mapFilterGraph 1 .roundRobin) 2)).map
            (intEvent { timestamp := 0 })) = some r ∧
        r.count =
          wrap64 (((List.range' 1 t.source.tally.generated).map fun v => v * v).filter
            (· % 2 = 0)).length ∧
        r.sum = wrapInt64 ((((List.range' 1 t.source.tally.generated).map fun v => v * v).filter
          (· % 2 = 0)).sum : ℕ) :=
  ⟨_, _, rfl, FedBy.mapFilterSequence mapFilterGraph_isLine
    (show (mapFilterGraph.operators[0]?).map Prod.fst = some "source" from rfl) (by decide)
    ((FedBy.start _).run (show fedRun (.ofGraph mapFilterGraph 1 .roundRobin)
      ((RunConfig.ofGraph mapFilterGraph 1 .roundRobin).opByName mapFilterOps) 0
      (start fun _ => 0 : RunState (Capacity.ofPow 12)) ⟨.new { start := 1, count := 2 }, 0, 0⟩
      mapFilterSequenceRun = _ from rfl))
    (by decide) (by decide) (by decide) (by simp [StopPhase.HasClosed, start]) _⟩

end RunState

end KLStream
