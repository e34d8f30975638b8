import KLStream.Runtime.Drain
import Mathlib.Algebra.BigOperators.Group.Finset
import Mathlib.Data.Multiset.OrderedMonoid
import Mathlib.Tactic.Abel

/-!
# Runtime/Dataflow — what a running graph computes

`Runtime/Exec` leaves what a user operator's `process` emits to each step. Here instance `j` runs an
operator whose `process`, on the event `e`, emits `op j e` — a map, a filter, a sink: any operator
whose output is a function of its input — and the runs are those whose `process` steps follow `op`
(`ReachableBy`). Two accounts then hold along every run, whatever the number of workers, the
policy, and the interleaving of the workers, the sources and `stop`:

* `ReachableBy.emitted` — the events pushed onto a queue that no source writes, with those still
  waiting in some worker's `emit`, are, as a multiset, the events the `process` calls so far sent
  to that queue;
* `Reachable.taken` — the events taken from a queue are those passed to `process` by the instances
  reading it, with those the workers hold.

With the queues' FIFO account (`Reachable.fifo`) they give conservation, and at a settled state
the dataflow equation:

* `ReachableBy.conservation` — at every state, each event sent to such a queue is in exactly one
  place: processed by a reader, held by a worker, in the queue, refused at `close()`, or still to
  be pushed;

* `ReachableBy.dataflow` — once a queue is empty, every worker is idle, and `stop` has not closed
  the queue, the instances reading it have processed exactly, with multiplicities, the events the
  `process` calls sent to it: nothing lost, duplicated or invented;
* `ReachableBy.processedFrom_eq_bind` — along one stage of a pipeline, an instance alone in writing
  its output and alone in reading its input, the stage's reader has processed `op` applied to what
  the stage processed; `Reachable.processedFrom_eq_into` — and a source's reader what the source's
  queue accepted.
-/

namespace KLStream

open Finset

/-! ## What goes where -/

/-- The events of the pushes `ps` bound for queue `k`, in order. -/
def onQueue (k : ℕ) (ps : List (ℕ × ℕ)) : List ℕ :=
  ps.filterMap fun p => if p.1 = k then some p.2 else none

@[simp] theorem onQueue_nil (k : ℕ) : onQueue k [] = [] := rfl

@[simp] theorem onQueue_cons (k k' e : ℕ) (ps : List (ℕ × ℕ)) :
    onQueue k ((k', e) :: ps) = (if k' = k then [e] else []) ++ onQueue k ps := by
  by_cases h : k' = k <;> simp [onQueue, h]

theorem onQueue_append (k : ℕ) (ps ps' : List (ℕ × ℕ)) :
    onQueue k (ps ++ ps') = onQueue k ps ++ onQueue k ps' :=
  List.filterMap_append _ _ _

/-- `emit` of one event over `outputs` puts it into `k` once for each time `k` is an output. -/
theorem onQueue_map (k e : ℕ) (outputs : List ℕ) :
    onQueue k (outputs.map fun k' => (k', e)) = List.replicate (outputs.count k) e := by
  induction outputs with
  | nil => rfl
  | cons k' outputs ih =>
    rw [List.map_cons, onQueue_cons, ih, List.count_cons]
    by_cases h : k' = k <;> simp [h, List.replicate_succ]

/-- `emit` of each event of `out` puts each into `k` once for each time `k` is an output. -/
theorem onQueue_pushesOf (k : ℕ) (outputs out : List ℕ) :
    onQueue k (pushesOf outputs out) = out.flatMap fun e => List.replicate (outputs.count k) e := by
  induction out with
  | nil => rfl
  | cons e out ih => rw [pushesOf, List.flatMap_cons, onQueue_append, onQueue_map, ← pushesOf, ih,
      List.flatMap_cons]

/-- The pushes a source thread has still to make. -/
def SourcePhase.pushes : SourcePhase → List (ℕ × ℕ)
  | .emitting _ ps => ps
  | _ => []

/-- The events a worker has still to push onto queue `k` in its `emit`. -/
def WorkerPhase.pendingOn (k : ℕ) : WorkerPhase → List ℕ
  | .emitting _ _ ps => onQueue k ps
  | _ => []

/-- The event a worker holds, if it took it from queue `k`. -/
def WorkerPhase.heldFrom (cfg : RunConfig) (k : ℕ) : WorkerPhase → List ℕ
  | .holding j _ e => if cfg.input j = some k then [e] else []
  | _ => []

/-- The event a log entry pushed onto queue `k`, accepted or refused. -/
def Obs.pushedOn (k : ℕ) : Obs → List ℕ
  | .push k' e _ => if k' = k then [e] else []
  | _ => []

/-- The event a log entry says queue `k` refused. -/
def Obs.refusedOn (k : ℕ) : Obs → List ℕ
  | .push k' e false => if k' = k then [e] else []
  | _ => []

/-- A push onto `k` is accepted or refused. -/
theorem Obs.pushedOn_eq (o : Obs) (k : ℕ) : o.pushedOn k = o.into k ++ o.refusedOn k := by
  cases o with
  | push k' e ok => cases ok <;> by_cases h : k' = k <;> simp [Obs.pushedOn, Obs.into, Obs.refusedOn, h]
  | _ => rfl

/-- The event a log entry passed to `process` of an instance that reads queue `k`. -/
def Obs.processedFrom (cfg : RunConfig) (k : ℕ) : Obs → List ℕ
  | .process _ j e => if cfg.input j = some k then [e] else []
  | _ => []

/-- The events that a `process` call, logged by the entry, sends to queue `k` when instance `j`
emits `op j e`. -/
def Obs.emitsOn (cfg : RunConfig) (op : ℕ → ℕ → List ℕ) (k : ℕ) : Obs → List ℕ
  | .process _ j e => onQueue k (pushesOf (cfg.outputs j) (op j e))
  | _ => []

theorem WorkerPhase.pendingOn_eq_nil {p : WorkerPhase} (h : p.busy = false) (k : ℕ) :
    p.pendingOn k = [] := by
  cases p <;> first | rfl | cases h

theorem WorkerPhase.heldFrom_eq_nil {p : WorkerPhase} (h : p.busy = false) (cfg : RunConfig)
    (k : ℕ) : p.heldFrom cfg k = [] := by
  cases p <;> first | rfl | cases h

/-! ## Runs whose operators are functions -/

variable {C : Capacity}

/-- Whether action `a` follows `op` from state `s`: a `process` call of a worker that holds the event
`e` of instance `j` emits `op j e`. -/
def Act.follows (op : ℕ → ℕ → List ℕ) (s : RunState C) : Act → Bool
  | .process w out =>
    match s.workers w with
    | .holding j _ e => out == op j e
    | _ => true
  | _ => true

namespace RunState

variable (cfg : RunConfig) (op : ℕ → ℕ → List ℕ)

/-- **The states some interleaving reaches from `start` when every instance `j` emits `op j e` on
the event `e`.** -/
inductive ReachableBy : RunState C → Prop
  | start (draws : ℕ → ℕ) : ReachableBy (start draws)
  | step {s s' : RunState C} (a : Act) : ReachableBy s → a.follows op s = true →
      s.act cfg a = some s' → ReachableBy s'

/-- What following `op` asks of one step: a worker that held the event `e` of instance `j` still
holds it, or has run `process` and is to emit `op j e`. -/
def Obeys (s s' : RunState C) : Prop :=
  ∀ w j done e, s.workers w = .holding j done e →
    s'.workers w = s.workers w ∨ s'.workers w = .emitting j done (pushesOf (cfg.outputs j) (op j e))

variable {cfg op} {s s' : RunState C}

theorem ReachableBy.reachable (hs : s.ReachableBy cfg op) : s.Reachable cfg := by
  induction hs with
  | start draws => exact .start draws
  | step a _ _ ha ih => exact ih.step a ha

/-- A worker step leaves every other worker where it was. -/
theorem workerStep_frame {w w' : ℕ} (h : s.workerStep cfg w = some s') (hne : w' ≠ w) :
    s'.workers w' = s.workers w' := by
  unfold workerStep at h
  split at h
  · split_ifs at h <;> cases h <;> simp [Function.update_noteq hne]
  · split at h
    · cases h; simp [Function.update_noteq hne]
    · split_ifs at h
      · split at h <;> cases h <;> simp [Function.update_noteq hne]
      · cases h; simp [Function.update_noteq hne]
  · cases h
  · cases h; simp [Function.update_noteq hne]
  · obtain ⟨s₁, h₁, rfl⟩ := Option.map_eq_some'.1 h
    obtain ⟨ok, q, -, rfl⟩ := pushOn_eq_some h₁
    simp [Function.update_noteq hne]
  · cases h

/-- A step of a source thread or of `stop` leaves the workers alone. -/
theorem act_workers_of_not_worker {a : Act} (h : s.act cfg a = some s')
    (ha : ∀ w, a ≠ .worker w) (hp : ∀ w out, a ≠ .process w out) : s'.workers = s.workers := by
  cases a with
  | worker w => exact absurd rfl (ha w)
  | process w out => exact absurd rfl (hp w out)
  | source j =>
    simp only [act] at h; split_ifs at h; unfold sourceStep at h
    split at h
    · split_ifs at h; cases h; rfl
    · cases h; rfl
    · obtain ⟨s₁, h₁, rfl⟩ := Option.map_eq_some'.1 h
      obtain ⟨ok, q, -, rfl⟩ := pushOn_eq_some h₁
      simp
    · cases h
  | generate j more out =>
    simp only [act] at h; split_ifs at h; unfold generateStep at h
    split at h
    · split_ifs at h; cases h; rfl
    · cases h
  | stop =>
    simp only [act] at h; unfold stopStep at h
    split at h <;> (try split_ifs at h) <;> cases h <;> rfl

/-- **A step that follows `op` obeys it.** -/
theorem act_obeys {a : Act} (h : s.act cfg a = some s') (hf : a.follows op s = true) :
    Obeys cfg op s s' := by
  intro w j done e hw
  cases a with
  | worker w' =>
    simp only [act] at h; split_ifs at h
    refine .inl (workerStep_frame h ?_)
    rintro rfl
    simp [workerStep, hw] at h
  | process w' out =>
    simp only [act] at h; split_ifs at h; unfold processStep at h
    split at h
    · rename_i j' done' e' hw'
      cases h
      by_cases hww : w' = w
      · subst hww
        rw [hw] at hw'; cases hw'
        simp only [Act.follows, hw, beq_iff_eq] at hf
        exact .inr (by simp [hf])
      · exact .inl (by simp [Function.update_noteq (Ne.symm hww)])
    · cases h
  | _ => exact .inl (congrFun (act_workers_of_not_worker h (by simp) (by simp)) w)

/-! ## The two accounts -/

/-- Changing the phase of one worker `w < n` changes one summand of a sum over the workers. -/
theorem sum_update (g : WorkerPhase → Multiset ℕ) (ws : ℕ → WorkerPhase) {w n : ℕ} (hw : w < n)
    (p : WorkerPhase) :
    ∑ i ∈ range n, g (Function.update ws w p i) + g (ws w) = ∑ i ∈ range n, g (ws i) + g p := by
  rw [← add_sum_erase _ _ (mem_range.2 hw), ← add_sum_erase _ _ (mem_range.2 hw),
    sum_congr rfl fun i hi => by rw [Function.update_noteq (ne_of_mem_erase hi)],
    Function.update_same]
  abel

variable (cfg) in
/-- The events the workers have still to push onto queue `k`. -/
def workersPending (k : ℕ) (ws : ℕ → WorkerPhase) : Multiset ℕ :=
  ∑ w ∈ range cfg.numWorkers, ((ws w).pendingOn k : Multiset ℕ)

variable (cfg) in
/-- The events the workers hold from queue `k`. -/
def workersHeld (k : ℕ) (ws : ℕ → WorkerPhase) : Multiset ℕ :=
  ∑ w ∈ range cfg.numWorkers, ((ws w).heldFrom cfg k : Multiset ℕ)

theorem workersPending_update (k : ℕ) (ws : ℕ → WorkerPhase) {w : ℕ} (hw : w < cfg.numWorkers)
    (p : WorkerPhase) :
    workersPending cfg k (Function.update ws w p) + (ws w).pendingOn k =
      workersPending cfg k ws + p.pendingOn k :=
  sum_update (fun p => (p.pendingOn k : Multiset ℕ)) ws hw p

theorem workersHeld_update (k : ℕ) (ws : ℕ → WorkerPhase) {w : ℕ} (hw : w < cfg.numWorkers)
    (p : WorkerPhase) :
    workersHeld cfg k (Function.update ws w p) + (ws w).heldFrom cfg k =
      workersHeld cfg k ws + p.heldFrom cfg k :=
  sum_update (fun p => (p.heldFrom cfg k : Multiset ℕ)) ws hw p

/-- A worker that moves between two phases with nothing to push onto `k` leaves the sum alone. -/
theorem workersPending_update_of_nil (k : ℕ) (ws : ℕ → WorkerPhase) {w : ℕ}
    (hw : w < cfg.numWorkers) (p : WorkerPhase) (h₁ : (ws w).pendingOn k = []) (h₂ : p.pendingOn k = []) :
    workersPending cfg k (Function.update ws w p) = workersPending cfg k ws := by
  simpa [h₁, h₂] using workersPending_update k ws hw p

/-- A worker that moves between two phases holding nothing from `k` leaves the sum alone. -/
theorem workersHeld_update_of_nil (k : ℕ) (ws : ℕ → WorkerPhase) {w : ℕ}
    (hw : w < cfg.numWorkers) (p : WorkerPhase) (h₁ : (ws w).heldFrom cfg k = []) (h₂ : p.heldFrom cfg k = []) :
    workersHeld cfg k (Function.update ws w p) = workersHeld cfg k ws := by
  simpa [h₁, h₂] using workersHeld_update k ws hw p

variable (cfg op) in
/-- **The emission account of queue `k`**: the events pushed onto `k`, accepted or refused, with
those the workers have still to push onto it, are those the `process` calls so far sent to it. -/
def EmitAccount (k : ℕ) (s : RunState C) : Prop :=
  (s.log.flatMap (Obs.pushedOn k) : Multiset ℕ) + workersPending cfg k s.workers =
    s.log.flatMap (Obs.emitsOn cfg op k)

variable (cfg) in
/-- **The take account of queue `k`**: the events taken from `k` are those passed to `process` by
instances reading `k`, with those the workers hold. -/
def TakeAccount (k : ℕ) (s : RunState C) : Prop :=
  (s.log.flatMap (Obs.outOf k) : Multiset ℕ) =
    (s.log.flatMap (Obs.processedFrom cfg k) : Multiset ℕ) + workersHeld cfg k s.workers

/-- No source thread has a push onto `k` left to make when no source writes `k`. -/
theorem Step.sourcesOff {k : ℕ} (hk : ∀ j ∈ cfg.sourceIds, k ∉ cfg.outputs j)
    (hs : Step cfg s s') (h : ∀ j, onQueue k (s.sources j).pushes = []) :
    ∀ j, onQueue k (s'.sources j).pushes = [] := by
  intro j'
  cases hs with
  | @generate j more out hj =>
    rw [setSource_sources, Function.update_apply]
    split_ifs with hjj
    · subst hjj
      have : (cfg.outputs j').count k = 0 := List.count_eq_zero.2 (hk j' (cfg.mem_sourceIds.2 hj))
      simp [SourcePhase.pushes, onQueue_pushesOf, this]
    · exact h j'
  | @sourcePush j k' e more ps _ _ _ hp =>
    simp only [setSource_sources, Function.update_apply]
    split_ifs with hjj
    · subst hjj
      have := h j'
      rw [hp, SourcePhase.pushes, onQueue_cons, List.append_eq_nil] at this
      exact this.2
    · simpa using h j'
  | sourceExit | generated =>
    simp only [setSource_sources, Function.update_apply]
    split_ifs <;> first | rfl | exact h j'
  | _ => simpa using h j'

/-- **One step keeps the emission account** of a queue that no source thread still has to push
onto. -/
theorem Step.emitAccount {k : ℕ} (hs : Step cfg s s') (hob : Obeys cfg op s s')
    (hsrc : ∀ j, onQueue k (s.sources j).pushes = []) (h : s.EmitAccount cfg op k) :
    s'.EmitAccount cfg op k := by
  unfold EmitAccount at h ⊢
  cases hs with
  | @next w hw hp _ =>
    simp only [setWorker_log, next_log, setWorker_workers, next_workers]
    rw [workersPending_update_of_nil k s.workers hw _ (by rw [hp]; rfl) (by split <;> rfl)]
    exact h
  | @exit w hw hp _ =>
    simpa [workersPending_update_of_nil k s.workers hw .exited (by rw [hp]; rfl) rfl] using h
  | @endBatch w j done hw hp _ =>
    simpa [workersPending_update_of_nil k s.workers hw .top (by rw [hp]; rfl) rfl] using h
  | @pop w j done k' e q hw hp =>
    simpa [workersPending_update_of_nil k s.workers hw (.holding j done e) (by rw [hp]; rfl) rfl,
      Obs.pushedOn, Obs.emitsOn] using h
  | @processed w j done hw hp =>
    simpa [workersPending_update_of_nil k s.workers hw (.batch j (done + 1)) (by rw [hp]; rfl)
      rfl] using h
  | @process w j done e out hw hp =>
    have hout : pushesOf (cfg.outputs j) out = pushesOf (cfg.outputs j) (op j e) := by
      rcases hob w j done e hp with h' | h' <;> simp [hp] at h'
      exact h'
    have hu := workersPending_update k s.workers hw
      (.emitting j done (pushesOf (cfg.outputs j) (op j e)))
    simp only [hp, WorkerPhase.pendingOn, Multiset.coe_nil, add_zero] at hu
    simp only [record_log, setWorker_log, record_workers, setWorker_workers, List.flatMap_append,
      List.flatMap_cons, List.flatMap_nil, List.append_nil, ← Multiset.coe_add, Obs.pushedOn,
      Obs.emitsOn, Multiset.coe_nil, add_zero, hout, hu, ← h]
    abel
  | @workerPush w j done k' e ps ok q hw hp _ =>
    have hu := workersPending_update k s.workers hw (.emitting j done ps)
    simp only [hp, WorkerPhase.pendingOn, onQueue_cons, ← Multiset.coe_add, ← add_assoc] at hu
    simp only [setWorker_log, record_log, setQueue_log, setWorker_workers, record_workers,
      setQueue_workers, List.flatMap_append, List.flatMap_cons, List.flatMap_nil,
      List.append_nil, ← Multiset.coe_add, Obs.pushedOn, ← h, ← add_right_cancel hu]
    abel
  | @sourcePush j k' e more ps ok q _ hp _ =>
    have hx : (if k' = k then [e] else []) = [] := by
      have := hsrc j
      rw [hp, SourcePhase.pushes, onQueue_cons, List.append_eq_nil] at this
      exact this.1
    simpa [Obs.pushedOn, Obs.emitsOn, hx] using h
  | _ => simpa using h

/-- **One step keeps the take account** of every queue. -/
theorem Step.takeAccount {k : ℕ} (hs : Step cfg s s') (h : s.TakeAccount cfg k) :
    s'.TakeAccount cfg k := by
  unfold TakeAccount at h ⊢
  cases hs with
  | @next w hw hp _ =>
    simp only [setWorker_log, next_log, setWorker_workers, next_workers]
    rw [workersHeld_update_of_nil k s.workers hw _ (by rw [hp]; rfl) (by split <;> rfl)]
    exact h
  | @exit w hw hp _ =>
    simpa [workersHeld_update_of_nil k s.workers hw .exited (by rw [hp]; rfl) rfl] using h
  | @endBatch w j done hw hp _ =>
    simpa [workersHeld_update_of_nil k s.workers hw .top (by rw [hp]; rfl) rfl] using h
  | @processed w j done hw hp =>
    simpa [workersHeld_update_of_nil k s.workers hw (.batch j (done + 1)) (by rw [hp]; rfl) rfl]
      using h
  | @workerPush w j done k' e ps ok q hw hp _ =>
    simpa [workersHeld_update_of_nil k s.workers hw (.emitting j done ps) (by rw [hp]; rfl) rfl,
      Obs.outOf, Obs.processedFrom] using h
  | @pop w j done k' e q hw hp hin =>
    have hu := workersHeld_update k s.workers hw (.holding j done e)
    simp only [hp, WorkerPhase.heldFrom, hin, Option.some.injEq, Multiset.coe_nil, add_zero]
      at hu
    simp only [record_log, setWorker_log, setQueue_log, record_workers, setWorker_workers,
      setQueue_workers, List.flatMap_append, List.flatMap_cons, List.flatMap_nil, List.append_nil,
      ← Multiset.coe_add, Obs.outOf, Obs.processedFrom, Multiset.coe_nil, add_zero, hu, h]
    abel
  | @process w j done e out hw hp =>
    have hu := workersHeld_update k s.workers hw (.emitting j done (pushesOf (cfg.outputs j) out))
    simp only [hp, WorkerPhase.heldFrom, Multiset.coe_nil, add_zero] at hu
    simp only [record_log, setWorker_log, record_workers, setWorker_workers, List.flatMap_append,
      List.flatMap_cons, List.flatMap_nil, List.append_nil, ← Multiset.coe_add, Obs.outOf,
      Obs.processedFrom, Multiset.coe_nil, add_zero, h, ← hu]
    abel
  | sourcePush => simpa [Obs.outOf, Obs.processedFrom] using h
  | _ => simpa using h

/-- **Along every run, the events taken from a queue are those passed to `process` by its
readers, with those the workers hold.** -/
theorem Reachable.taken (hs : s.Reachable cfg) (k : ℕ) : s.TakeAccount cfg k := by
  induction hs with
  | start => simp [TakeAccount, workersHeld, RunState.start, WorkerPhase.heldFrom]
  | step a _ ha ih => exact (act_step ha).takeAccount ih

theorem ReachableBy.sourcesOff (hs : s.ReachableBy cfg op) {k : ℕ}
    (hk : ∀ j ∈ cfg.sourceIds, k ∉ cfg.outputs j) : ∀ j, onQueue k (s.sources j).pushes = [] := by
  induction hs with
  | start => exact fun _ => rfl
  | step a _ _ ha ih => exact (act_step ha).sourcesOff hk ih

/-- **Along every run whose operators emit `op`, the events pushed onto a queue that no source
writes, with those the workers have still to push onto it, are those the `process` calls sent to
it.** -/
theorem ReachableBy.emitted (hs : s.ReachableBy cfg op) {k : ℕ}
    (hk : ∀ j ∈ cfg.sourceIds, k ∉ cfg.outputs j) : s.EmitAccount cfg op k := by
  induction hs with
  | start => simp [EmitAccount, workersPending, RunState.start, WorkerPhase.pendingOn]
  | step a hr hf ha ih => exact (act_step ha).emitAccount (act_obeys ha hf) (hr.sourcesOff hk) ih

/-! ## The dataflow equation -/

theorem workersPending_idle {k : ℕ} {ws : ℕ → WorkerPhase}
    (h : ∀ w < cfg.numWorkers, (ws w).busy = false) : workersPending cfg k ws = 0 :=
  sum_eq_zero fun w hw => by rw [(ws w).pendingOn_eq_nil (h w (mem_range.1 hw))]; rfl

theorem workersHeld_idle {k : ℕ} {ws : ℕ → WorkerPhase}
    (h : ∀ w < cfg.numWorkers, (ws w).busy = false) : workersHeld cfg k ws = 0 :=
  sum_eq_zero fun w hw => by rw [(ws w).heldFrom_eq_nil (h w (mem_range.1 hw))]; rfl

/-- With no push onto `k` refused, what `k` accepted is what was pushed onto it. -/
theorem flatMap_into_of_unrefused {k : ℕ} {l : List Obs} (h : ∀ e, Obs.push k e false ∉ l) :
    l.flatMap (Obs.into k) = l.flatMap (Obs.pushedOn k) := by
  induction l with
  | nil => rfl
  | cons o l ih =>
    rw [List.flatMap_cons, List.flatMap_cons, ih fun e he => h e (List.mem_cons_of_mem _ he)]
    congr 1
    cases o with
    | push k' e ok =>
      cases ok
      · by_cases hk : k' = k
        · subst hk; exact absurd (List.mem_cons_self _ _) (h e)
        · simp [Obs.into, Obs.pushedOn, hk]
      · rfl
    | _ => rfl

/-- **The dataflow equation.** Along every run whose operators emit `op`, under either policy and
with any number of workers: once queue `k`, which no source writes, is empty, every worker is idle,
and `stop` has not closed `k`, the instances reading `k` have passed to `process` exactly, with
multiplicities, the events the `process` calls sent to `k`. Nothing was lost, taken twice, or
invented on the way. -/
theorem ReachableBy.dataflow (hs : s.ReachableBy cfg op) {k : ℕ}
    (hk : ∀ j ∈ cfg.sourceIds, k ∉ cfg.outputs j) (hcl : ¬ s.stop.HasClosed k)
    (hempty : (s.queues k).size = 0) (hidle : ∀ w < cfg.numWorkers, (s.workers w).busy = false) :
    (s.log.flatMap (Obs.processedFrom cfg k) : Multiset ℕ) = s.log.flatMap (Obs.emitsOn cfg op k) := by
  have hr := hs.reachable
  have hcontents : (s.queues k).contents = [] :=
    List.eq_nil_of_length_eq_zero (by rw [BoundedQueue.length_contents, hempty])
  have hfifo := hr.fifo k
  rw [hcontents, List.append_nil,
    flatMap_into_of_unrefused fun e he => hcl (hr.stopInv.refused k e he)] at hfifo
  calc (s.log.flatMap (Obs.processedFrom cfg k) : Multiset ℕ)
      = s.log.flatMap (Obs.outOf k) := by rw [hr.taken k, workersHeld_idle hidle, add_zero]
    _ = s.log.flatMap (Obs.pushedOn k) := by rw [hfifo]
    _ = s.log.flatMap (Obs.emitsOn cfg op k) := by
      rw [← hs.emitted hk, workersPending_idle hidle, add_zero]

theorem flatMap_pushedOn (k : ℕ) (l : List Obs) :
    (l.flatMap (Obs.pushedOn k) : Multiset ℕ) = ↑(l.flatMap (Obs.into k)) + ↑(l.flatMap (Obs.refusedOn k)) := by
  induction l with
  | nil => rfl
  | cons o l ih =>
    rw [List.flatMap_cons, List.flatMap_cons, List.flatMap_cons, ← Multiset.coe_add, ih,
      o.pushedOn_eq, ← Multiset.coe_add, ← Multiset.coe_add, ← Multiset.coe_add]
    abel

/-- **No event is lost, duplicated or invented, at any moment.** Along every run whose operators
emit `op`, under either policy, with any number of workers and at every state, not only a settled
one: each event the `process` calls have sent to a queue `k` that no source writes is, counted with
multiplicity, in exactly one place — passed to `process` by a reader of `k`, held by a worker
between its `try_pop` and `process`, still in the queue, refused by the queue once `stop` closed
it, or still to be pushed by a worker's `emit`. -/
theorem ReachableBy.conservation (hs : s.ReachableBy cfg op) {k : ℕ}
    (hk : ∀ j ∈ cfg.sourceIds, k ∉ cfg.outputs j) :
    (s.log.flatMap (Obs.processedFrom cfg k) : Multiset ℕ) + workersHeld cfg k s.workers +
        ↑(s.queues k).contents + ↑(s.log.flatMap (Obs.refusedOn k)) + workersPending cfg k s.workers =
      s.log.flatMap (Obs.emitsOn cfg op k) := by
  have hr := hs.reachable
  calc (s.log.flatMap (Obs.processedFrom cfg k) : Multiset ℕ) + workersHeld cfg k s.workers +
          ↑(s.queues k).contents + ↑(s.log.flatMap (Obs.refusedOn k)) + workersPending cfg k s.workers
      = ↑(s.log.flatMap (Obs.into k)) + ↑(s.log.flatMap (Obs.refusedOn k)) +
          workersPending cfg k s.workers := by
        rw [← hr.taken k, Multiset.coe_add, ← hr.fifo k]
    _ = ↑(s.log.flatMap (Obs.pushedOn k)) + workersPending cfg k s.workers := by
        rw [flatMap_pushedOn]
    _ = s.log.flatMap (Obs.emitsOn cfg op k) := hs.emitted hk

/-- **What a queue's readers have processed is what the queue accepted**, once it is empty and
every worker idle, along every run. -/
theorem Reachable.processedFrom_eq_into (hs : s.Reachable cfg) {k : ℕ}
    (hempty : (s.queues k).size = 0) (hidle : ∀ w < cfg.numWorkers, (s.workers w).busy = false) :
    (s.log.flatMap (Obs.processedFrom cfg k) : Multiset ℕ) = s.log.flatMap (Obs.into k) := by
  have hcontents : (s.queues k).contents = [] :=
    List.eq_nil_of_length_eq_zero (by rw [BoundedQueue.length_contents, hempty])
  rw [hs.fifo k, hcontents, List.append_nil, hs.taken k, workersHeld_idle hidle, add_zero]

/-- What a stage sends to its output `k`, in log order: `op j` of each event it processed, when
instance `j` is alone in writing `k`, which it has once among its outputs, and alone in reading its
input `k₀`. -/
theorem flatMap_emitsOn_eq_bind (l : List Obs) {j k₀ k : ℕ} (hout : (cfg.outputs j).count k = 1)
    (hwriter : ∀ j' < cfg.instances.length, j' ≠ j → k ∉ cfg.outputs j')
    (hin : cfg.input j = some k₀)
    (hreader : ∀ j' < cfg.instances.length, cfg.input j' = some k₀ → j' = j) :
    l.flatMap (Obs.emitsOn cfg op k) = (l.flatMap (Obs.processedFrom cfg k₀)).flatMap (op j) := by
  rw [List.flatMap_assoc]
  congr 1
  funext o
  cases o with
  | process w j' e =>
    simp only [Obs.emitsOn, Obs.processedFrom, onQueue_pushesOf]
    by_cases hj : j' = j
    · subst hj; simp [hout, hin]
    · by_cases hlt : j' < cfg.instances.length
      · rw [List.count_eq_zero.2 (hwriter j' hlt hj), if_neg (hj ∘ hreader j' hlt)]
        simp
      · simp [RunConfig.outputs, RunConfig.input, List.getElem?_eq_none (Nat.le_of_not_lt hlt)]
  | _ => rfl

/-- **One stage of a pipeline.** Let instance `j` be alone in writing queue `k`, which it has once
among its outputs, and alone in reading its input `k₀`. Then, at the moments of `dataflow`, the
readers of `k` have processed `op j` of each event `j` processed. -/
theorem ReachableBy.processedFrom_eq_bind (hs : s.ReachableBy cfg op) {j k₀ k : ℕ}
    (hk : ∀ j' ∈ cfg.sourceIds, k ∉ cfg.outputs j') (hout : (cfg.outputs j).count k = 1)
    (hwriter : ∀ j' < cfg.instances.length, j' ≠ j → k ∉ cfg.outputs j')
    (hin : cfg.input j = some k₀)
    (hreader : ∀ j' < cfg.instances.length, cfg.input j' = some k₀ → j' = j)
    (hcl : ¬ s.stop.HasClosed k) (hempty : (s.queues k).size = 0)
    (hidle : ∀ w < cfg.numWorkers, (s.workers w).busy = false) :
    (s.log.flatMap (Obs.processedFrom cfg k) : Multiset ℕ) =
      (s.log.flatMap (Obs.processedFrom cfg k₀)).flatMap (op j) := by
  rw [hs.dataflow hk hcl hempty hidle, flatMap_emitsOn_eq_bind _ hout hwriter hin hreader]

/-! ## A run that follows an operator -/

variable (cfg op) in
/-- Whether every action of `as`, taken in turn from `s`, follows `op`. -/
def followsRun : RunState C → List Act → Bool
  | _, [] => true
  | s, a :: as => a.follows op s && ((s.act cfg a).map fun s' => followsRun s' as).getD true

theorem ReachableBy.run (hs : s.ReachableBy cfg op) {as : List Act} (h : s.run cfg as = some s')
    (hf : followsRun cfg op s as = true) : s'.ReachableBy cfg op := by
  induction as generalizing s with
  | nil => cases h; exact hs
  | cons a as ih =>
    rw [run_cons, Option.bind_eq_some] at h
    obtain ⟨s₁, h₁, h₂⟩ := h
    rw [followsRun, h₁, Bool.and_eq_true] at hf
    exact ih (hs.step a hf.1 h₁) h₂ hf.2

/-- `src` emits `7`; the worker runs it through a `map` that doubles it, and through `sink`; then
`stop` drains and clears `running_`. -/
def doubledThenDrained : List Act :=
  [.generate 0 false [7], .source 0, .source 0, .worker 0, .worker 0, .process 0 [14], .worker 0,
    .worker 0, .worker 0, .worker 0, .worker 0, .process 0 [], .worker 0, .worker 0,
    .stop, .stop, .stop, .stop, .stop]

theorem conservation_doubled :
    ∃ s : RunState (Capacity.ofPow 12), (start fun _ => 0).run soloPipeline doubledThenDrained = some s ∧
      (s.log.flatMap (Obs.processedFrom soloPipeline 1) : Multiset ℕ) +
          workersHeld soloPipeline 1 s.workers + ↑(s.queues 1).contents +
          ↑(s.log.flatMap (Obs.refusedOn 1)) + workersPending soloPipeline 1 s.workers =
        s.log.flatMap (Obs.emitsOn soloPipeline (fun j e => if j = 1 then [2 * e] else []) 1) :=
  ⟨_, rfl, ReachableBy.conservation ((ReachableBy.start _).run
    (show (start fun _ => 0 : RunState (Capacity.ofPow 12)).run soloPipeline doubledThenDrained = _
      from rfl) (by decide)) (by decide)⟩

end RunState

end KLStream
