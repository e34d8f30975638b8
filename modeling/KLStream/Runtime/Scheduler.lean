import KLStream.Queue.Ring
import KLStream.Runtime.Lifecycle
import Mathlib.Data.List.Perm.Basic
import Mathlib.Algebra.Group.Nat.Basic

/-!
# Runtime/Scheduler — `RoundRobinScheduler`, `WorkStealingScheduler` and `SchedulerFactory`

`Scheduler::next(worker_id)` (`core/scheduler.hpp`) picks the instance a worker runs next. Both
schedulers read an instance only through `has_work()`, which the model takes as a function of the
instance's index at the time of the call: `Runtime::init` hands `SchedulerFactory::create` the
instances in the order of `instances_`, so an instance is its index. The cursors of `positions_`
are `std::size_t` and the counters of `SchedulerStats` are `std::uint64_t`; both count modulo
`2 ^ 64` (`wrap64`).

* `RoundRobinScheduler.next` — an empty instance list returns null at once; otherwise the probe
  loop `rrScan` from the worker's cursor, with the counters;
* `distribute` — the loop of `SchedulerFactory::create` that deals the instances to the workers;
  `distribute_partition` — list `w` holds, in order, the instances whose index is `w` modulo the
  worker count, so the lists partition the instances and differ in length by at most one;
* `WorkStealingScheduler.next` — the worker's own list first, then `num_workers` draws of a victim;
  an index out of range of `per_worker_` is undefined behaviour, `none`; `next_eq_wsNext` — on the
  lists `create` builds it returns what the runtime model's `wsNext` does;
* `Runtime.initScheduler` — lines 80–99 of `Runtime::init`; `initScheduler_in_bounds` — the worker
  count is at least one, the scheduler and the pool get the same count, and no `next` call of a pool
  worker takes `i % 0` or indexes `per_worker_` out of range;
* `roundRobin_empty_uncounted` — over no instances, `next` returns null and counts nothing.
-/

namespace KLStream

/-- `SchedulingPolicy`. -/
inductive SchedulingPolicy
  | roundRobin
  | workStealing
  | priority
  | loadAware
  deriving DecidableEq, Repr

/-- `SchedulerStats`, without `backpressure_waits`, which no scheduler writes. -/
structure SchedulerStats where
  totalScheduled : ℕ := 0
  idleCycles : ℕ := 0
  workStolen : ℕ := 0
  deriving DecidableEq, Repr

namespace SchedulerStats

/-- `stats_.total_scheduled++`. -/
def countScheduled (s : SchedulerStats) : SchedulerStats :=
  { s with totalScheduled := wrap64 (s.totalScheduled + 1) }

/-- `stats_.idle_cycles++`. -/
def countIdle (s : SchedulerStats) : SchedulerStats :=
  { s with idleCycles := wrap64 (s.idleCycles + 1) }

/-- `stats_.work_stolen++`. -/
def countStolen (s : SchedulerStats) : SchedulerStats :=
  { s with workStolen := wrap64 (s.workStolen + 1) }

end SchedulerStats

/-! ## Round robin -/

/-- The loop of `RoundRobinScheduler::next` with `checks` probes left, from cursor `pos`: probe
instance `pos % n`, advance the cursor, return the instance if it has work. -/
def rrScan (n : ℕ) (hasWork : ℕ → Bool) : ℕ → ℕ → Option ℕ × ℕ
  | 0, pos => (none, pos)
  | checks + 1, pos =>
    if hasWork (pos % n) then (some (pos % n), wrap64 (pos + 1))
    else rrScan n hasWork checks (wrap64 (pos + 1))

/-- The instance `RoundRobinScheduler::next` returns over `n` instances, and the worker's cursor
after it. -/
def rrNext (n : ℕ) (hasWork : ℕ → Bool) (pos : ℕ) : Option ℕ × ℕ :=
  if n = 0 then (none, pos) else rrScan n hasWork n pos

/-- `RoundRobinScheduler`: `instances_` by its size, the cursors `positions_` (a worker without one
reads `0`, the value `operator[]` inserts), and `stats_`. -/
structure RoundRobinScheduler where
  numInstances : ℕ
  positions : ℕ → ℕ
  stats : SchedulerStats

namespace RoundRobinScheduler

/-- `RoundRobinScheduler(instances)` over `n` instances. -/
def new (n : ℕ) : RoundRobinScheduler := ⟨n, fun _ => 0, {}⟩

/-- **`RoundRobinScheduler::next(worker_id)`**: an empty instance list returns null at once;
otherwise the call is counted, `rrScan` probes up to `n` instances from the worker's cursor, and a
null result is counted idle. -/
def next (s : RoundRobinScheduler) (hasWork : ℕ → Bool) (w : ℕ) : Option ℕ × RoundRobinScheduler :=
  if s.numInstances = 0 then (none, s)
  else
    let r := rrScan s.numInstances hasWork s.numInstances (s.positions w)
    let stats := s.stats.countScheduled
    (r.1, { s with
      positions := Function.update s.positions w r.2
      stats := if r.1 = none then stats.countIdle else stats })

variable (s : RoundRobinScheduler) (hasWork : ℕ → Bool) (w : ℕ)

@[simp] theorem next_numInstances : (s.next hasWork w).2.numInstances = s.numInstances := by
  unfold next; split_ifs <;> rfl

theorem next_fst : (s.next hasWork w).1 = (rrNext s.numInstances hasWork (s.positions w)).1 := by
  unfold next rrNext; split_ifs <;> rfl

theorem next_positions :
    (s.next hasWork w).2.positions =
      Function.update s.positions w (rrNext s.numInstances hasWork (s.positions w)).2 := by
  unfold next rrNext; split_ifs
  · exact (Function.update_eq_self _ _).symm
  · rfl

end RoundRobinScheduler

/-! ## Work stealing -/

/-- The elements of `L` whose index is `w` modulo `nw`, in order: `per_worker[w]` after
`SchedulerFactory::create` (`distribute_partition`). -/
def dealt {α : Type} (L : List α) (nw w : ℕ) : List α :=
  (L.enum.filter fun p => p.1 % nw = w).map Prod.snd

/-- **The loop of `SchedulerFactory::create` for work stealing**, from index `i` of the instance
list: `per_worker[i % num_workers].push_back(instances[i])`; `none` where it would take `i % 0`. -/
def distribute {α : Type} (nw : ℕ) : ℕ → List α → List (List α) → Option (List (List α))
  | _, [], pw => some pw
  | i, x :: xs, pw =>
    if nw = 0 then none else distribute nw (i + 1) xs (pw.modify (· ++ [x]) (i % nw))

section Distribute

variable {α β : Type}

/-- The loop from index `i`, on lists `pw` one per worker: list `w` gets, in order, the elements of
`xs` whose index, counted from `i`, is `w` modulo `nw`. -/
theorem distribute_getElem? {nw : ℕ} (hnw : 0 < nw) (i : ℕ) (xs : List α) (pw : List (List α))
    (hpw : pw.length = nw) :
    ∃ pw', distribute nw i xs pw = some pw' ∧ pw'.length = nw ∧
      ∀ w < nw, pw'[w]? = some (pw.getD w [] ++
        ((xs.enumFrom i).filter fun p => p.1 % nw = w).map Prod.snd) := by
  induction xs generalizing i pw with
  | nil =>
    refine ⟨pw, rfl, hpw, fun w hw => ?_⟩
    simp [List.getElem?_eq_getElem (hpw ▸ hw), List.getD_eq_getElem?_getD]
  | cons x xs ih =>
    obtain ⟨pw', h, hl, hget⟩ := ih (i + 1) (pw.modify (· ++ [x]) (i % nw)) (by simpa using hpw)
    refine ⟨pw', by simpa [distribute, Nat.pos_iff_ne_zero.1 hnw] using h, hl, fun w hw => ?_⟩
    rw [hget w hw]
    by_cases hiw : i % nw = w
    · simp [List.getD_eq_getElem?_getD, List.getElem?_modify, hiw,
        List.getElem?_eq_getElem (hpw ▸ hw)]
    · simp [List.getD_eq_getElem?_getD, List.getElem?_modify, hiw]

/-- From `num_workers` empty lists, the loop leaves `dealt L n w` in list `w`. -/
theorem distribute_replicate (L : List α) {n : ℕ} (hn : 0 < n) :
    distribute n 0 L (List.replicate n []) = some ((List.range n).map (dealt L n)) := by
  obtain ⟨pw, h, hl, hget⟩ := distribute_getElem? hn 0 L (List.replicate n []) (by simp)
  rw [h]
  congr 1
  refine List.ext_getElem? fun w => ?_
  by_cases hw : w < n
  · simp [hget w hw, hw, dealt, List.enum]
  · rw [List.getElem?_eq_none (by omega), List.getElem?_map,
      List.getElem?_eq_none (by simpa using Nat.le_of_not_lt hw)]
    rfl

/-- Sorting by a key below `n` into one list per key, and putting the lists back together, only
permutes. -/
theorem flatMap_filter_key_perm (l : List β) (key : β → ℕ) (n : ℕ) :
    ((List.range n).flatMap fun w => l.filter fun b => key b = w).Perm
      (l.filter fun b => key b < n) := by
  induction n with
  | zero => simp
  | succ n ih =>
    rw [List.range_succ, List.flatMap_append, List.flatMap_singleton]
    refine (ih.append_right _).trans ?_
    have h₁ : (l.filter fun b => key b < n + 1).filter (fun b => key b < n) =
        l.filter fun b => key b < n := by
      rw [List.filter_filter]
      exact List.filter_congr fun b _ => by by_cases key b < n <;> simp [*]; omega
    have h₂ : (l.filter fun b => key b < n + 1).filter (fun b => !decide (key b < n)) =
        l.filter fun b => key b = n := by
      rw [List.filter_filter]
      exact List.filter_congr fun b _ => by by_cases key b < n <;> simp [*] <;> omega
    have := List.filter_append_perm (fun b => decide (key b < n)) (l.filter fun b => key b < n + 1)
    rwa [h₁, h₂] at this

/-- One step up from `m` either moves the remainder modulo `n` up by one or closes a round. -/
theorem succ_mod_cases {n : ℕ} (hn : 0 < n) (m : ℕ) :
    (m + 1) / n = m / n ∧ (m + 1) % n = m % n + 1 ∧ m % n + 1 < n ∨
      (m + 1) / n = m / n + 1 ∧ (m + 1) % n = 0 ∧ m % n + 1 = n := by
  have hdm := Nat.div_add_mod m n
  have hr := Nat.mod_lt m hn
  rcases Nat.lt_or_ge (m % n + 1) n with h | h
  · have q : (m + 1) / n = m / n ∧ (m + 1) % n = m % n + 1 :=
      (Nat.div_mod_unique hn).2 ⟨by omega, h⟩
    exact .inl ⟨q.1, q.2, h⟩
  · have q : (m + 1) / n = m / n + 1 ∧ (m + 1) % n = 0 :=
      (Nat.div_mod_unique hn).2 ⟨by rw [Nat.mul_succ]; omega, hn⟩
    exact .inr ⟨q.1, q.2, by omega⟩

/-- Among `0, …, m - 1`, the numbers `w` modulo `n`: one per full round of `n`, and one more if
`w` comes before the remainder. -/
theorem length_filter_range_mod {n w : ℕ} (hn : 0 < n) (hw : w < n) (m : ℕ) :
    ((List.range m).filter fun i => i % n = w).length = m / n + if w < m % n then 1 else 0 := by
  induction m with
  | zero => simp
  | succ m ih =>
    rw [List.range_succ, List.filter_append, List.length_append, ih]
    simp only [List.filter_cons, List.filter_nil, decide_eq_true_eq]
    rcases succ_mod_cases hn m with ⟨hq, hr, -⟩ | ⟨hq, hr, hlast⟩ <;> rw [hq, hr] <;>
      split_ifs <;> simp only [List.length_cons, List.length_nil] <;> omega

/-- Dealing one more element first shifts every other element one worker on. -/
theorem dealt_cons (x : α) (xs : List α) {n w : ℕ} (hw : w < n) :
    dealt (x :: xs) n w = if w = 0 then x :: dealt xs n (n - 1) else dealt xs n (w - 1) := by
  have key : ∀ i, (i + 1) % n = w ↔ i % n = if w = 0 then n - 1 else w - 1 := fun i => by
    rcases succ_mod_cases (by omega : 0 < n) i with ⟨-, h, h'⟩ | ⟨-, h, h'⟩ <;> rw [h] <;>
      split_ifs <;> omega
  have hf : ((fun p : ℕ × α => decide (p.1 % n = w)) ∘ Prod.map (· + 1) id) =
      fun p => decide (p.1 % n = if w = 0 then n - 1 else w - 1) := funext fun p => by simp [key]
  simp only [dealt, List.enum_cons', List.filter_cons, List.filter_map, hf]
  by_cases hw0 : w = 0
  · simp [hw0, List.map_map, Function.comp_def]
  · simp [hw0, Ne.symm hw0, List.map_map, Function.comp_def]

/-- Position `j` of worker `w`'s list is index `j * n + w` of `L`. -/
theorem dealt_getElem? (L : List α) {n w : ℕ} (hw : w < n) (j : ℕ) :
    (dealt L n w)[j]? = L[j * n + w]? := by
  induction L generalizing w j with
  | nil => simp [dealt]
  | cons x xs ih =>
    rw [dealt_cons x xs hw]
    split_ifs with hw0
    · subst hw0
      cases j with
      | zero => simp
      | succ j =>
        rw [List.getElem?_cons_succ, ih (Nat.sub_lt hw Nat.one_pos),
          show (j + 1) * n + 0 = j * n + (n - 1) + 1 by rw [Nat.succ_mul]; omega,
          List.getElem?_cons_succ]
    · rw [ih (by omega), show j * n + w = j * n + (w - 1) + 1 by omega, List.getElem?_cons_succ]

theorem length_dealt (L : List α) {n w : ℕ} (hn : 0 < n) (hw : w < n) :
    (dealt L n w).length = L.length / n + if w < L.length % n then 1 else 0 := by
  rw [← length_filter_range_mod hn hw, ← List.enum_map_fst, List.filter_map, List.length_map,
    dealt, List.length_map]
  rfl

theorem flatten_dealt_perm (L : List α) {n : ℕ} (hn : 0 < n) :
    ((List.range n).map (dealt L n)).flatten.Perm L := by
  have h := (flatMap_filter_key_perm L.enum (fun p => p.1 % n) n).map Prod.snd
  rw [List.filter_eq_self.2 fun p _ => by simpa using Nat.mod_lt _ hn, List.enum_map_snd] at h
  simpa [dealt, List.map_flatMap, List.flatMap] using h

/-- **`SchedulerFactory::create` partitions the instances round robin by index.** For every list
`L` and worker count `n ≥ 1`, the loop builds `n` lists, list `w` holding, in `L`'s order, exactly
the elements whose index is `w` modulo `n`: position `j` of list `w` is index `j * n + w` of `L`,
so index `i` sits in list `i % n` only; together they are `L` up to order, each keeps `L`'s
order, and two of them differ in length by at most one. -/
theorem distribute_partition (L : List α) {n : ℕ} (hn : 0 < n) :
    distribute n 0 L (List.replicate n []) = some ((List.range n).map (dealt L n)) ∧
    (∀ w < n, ∀ j, (dealt L n w)[j]? = L[j * n + w]?) ∧
    ((List.range n).map (dealt L n)).flatten.Perm L ∧
    (∀ w < n, (dealt L n w).Sublist L) ∧
    ∀ v < n, ∀ w < n, (dealt L n v).length ≤ (dealt L n w).length + 1 := by
  refine ⟨distribute_replicate L hn, fun w hw => dealt_getElem? L hw, flatten_dealt_perm L hn,
    fun w _ => ?_, fun v hv w hw => ?_⟩
  · simpa [List.enum_map_snd] using (List.filter_sublist L.enum).map Prod.snd
  · rw [length_dealt L hn hv, length_dealt L hn hw]
    split_ifs <;> omega

theorem distribute_partition_five_two :
    0 < 2 ∧
    (distribute 2 0 [10, 11, 12, 13, 14] (List.replicate 2 []) =
        some ((List.range 2).map (dealt [10, 11, 12, 13, 14] 2)) ∧
      (∀ w < 2, ∀ j, (dealt [10, 11, 12, 13, 14] 2 w)[j]? = [10, 11, 12, 13, 14][j * 2 + w]?) ∧
      ((List.range 2).map (dealt [10, 11, 12, 13, 14] 2)).flatten.Perm [10, 11, 12, 13, 14] ∧
      (∀ w < 2, (dealt [10, 11, 12, 13, 14] 2 w).Sublist [10, 11, 12, 13, 14]) ∧
      ∀ v < 2, ∀ w < 2,
        (dealt [10, 11, 12, 13, 14] 2 v).length ≤ (dealt [10, 11, 12, 13, 14] 2 w).length + 1) :=
  ⟨by decide, distribute_partition [10, 11, 12, 13, 14] (by decide)⟩

end Distribute

/-- The stealing loop of the runtime model, `per_worker_` given by `dealt`, with `attempts`
left; draw `c` is the next value of `dist(rng_)`, the victim its residue modulo `nw`. -/
def wsSteal (n nw w : ℕ) (hasWork : ℕ → Bool) (draws : ℕ → ℕ) : ℕ → ℕ → Option ℕ × ℕ
  | 0, c => (none, c)
  | attempts + 1, c =>
    if draws c % nw = w then wsSteal n nw w hasWork draws attempts (c + 1)
    else match (dealt (List.range n) nw (draws c % nw)).find? hasWork with
      | some j => (some j, c + 1)
      | none => wsSteal n nw w hasWork draws attempts (c + 1)

/-- The instance `WorkStealingScheduler::next` returns on the lists `create` builds over `n`
instances, and the number of draws taken after it (`next_eq_wsNext`). -/
def wsNext (n nw w : ℕ) (hasWork : ℕ → Bool) (draws : ℕ → ℕ) (c : ℕ) : Option ℕ × ℕ :=
  match (dealt (List.range n) nw w).find? hasWork with
  | some j => (some j, c)
  | none => wsSteal n nw w hasWork draws nw c

/-- `WorkStealingScheduler`: `per_worker_`, `num_workers_`, the values `dist(rng_)` draws in turn
with the number drawn so far, and `stats_`. -/
structure WorkStealingScheduler where
  perWorker : List (List ℕ)
  numWorkers : ℕ
  draws : ℕ → ℕ
  drawn : ℕ
  stats : SchedulerStats

namespace WorkStealingScheduler

/-- The stealing loop of `WorkStealingScheduler::next` with `attempts` left, the next draw being
number `c`: a victim equal to the caller is skipped, and `per_worker_[victim]` out of range is
undefined behaviour, `none`. -/
def steal (pw : List (List ℕ)) (nw w : ℕ) (hasWork : ℕ → Bool) (draws : ℕ → ℕ) :
    ℕ → ℕ → Option (Option ℕ × ℕ)
  | 0, c => some (none, c)
  | attempts + 1, c =>
    if draws c % nw = w then steal pw nw w hasWork draws attempts (c + 1)
    else match pw[draws c % nw]? with
      | none => none
      | some victim => match victim.find? hasWork with
        | some j => some (some j, c + 1)
        | none => steal pw nw w hasWork draws attempts (c + 1)

/-- **`WorkStealingScheduler::next(worker_id)`**: count the call; the first instance with work in
`per_worker_[worker_id]`, else up to `num_workers_` stealing attempts, a hit counted as stolen and a
miss as idle. `none` where it indexes `per_worker_` out of range. -/
def next (s : WorkStealingScheduler) (hasWork : ℕ → Bool) (w : ℕ) :
    Option (Option ℕ × WorkStealingScheduler) :=
  let stats := s.stats.countScheduled
  match s.perWorker[w]? with
  | none => none
  | some own => match own.find? hasWork with
    | some j => some (some j, { s with stats })
    | none => (steal s.perWorker s.numWorkers w hasWork s.draws s.numWorkers s.drawn).map fun r =>
      (r.1, { s with
        drawn := r.2
        stats := if r.1 = none then stats.countIdle else stats.countStolen })

section Create

variable {n nw : ℕ} (hnw : 0 < nw)
include hnw

theorem steal_dealt (w : ℕ) (hasWork : ℕ → Bool) (draws : ℕ → ℕ) (attempts c : ℕ) :
    steal ((List.range nw).map (dealt (List.range n) nw)) nw w hasWork draws attempts c =
      some (wsSteal n nw w hasWork draws attempts c) := by
  induction attempts generalizing c with
  | zero => rfl
  | succ a ih =>
    have hv : ((List.range nw).map (dealt (List.range n) nw))[draws c % nw]? =
        some (dealt (List.range n) nw (draws c % nw)) := by
      simp [Nat.mod_lt _ hnw]
    simp only [steal, wsSteal, hv, ih]
    split_ifs <;> [rfl; split <;> rfl]

/-- **On the lists `create` builds, `next` is the runtime model's `wsNext`**: it indexes
`per_worker_` in range, returns what `wsNext` returns, takes as many draws, and keeps
`per_worker_`, `num_workers_` and the draws. -/
theorem next_eq_wsNext (s : WorkStealingScheduler)
    (hpw : s.perWorker = (List.range nw).map (dealt (List.range n) nw)) (hn : s.numWorkers = nw)
    {w : ℕ} (hw : w < nw) (hasWork : ℕ → Bool) :
    ∃ s', s.next hasWork w = some ((wsNext n nw w hasWork s.draws s.drawn).1, s') ∧
      s'.perWorker = s.perWorker ∧ s'.numWorkers = s.numWorkers ∧ s'.draws = s.draws ∧
      s'.drawn = (wsNext n nw w hasWork s.draws s.drawn).2 := by
  have hown : s.perWorker[w]? = some (dealt (List.range n) nw w) := by simp [hpw, hw]
  simp only [next, hown, wsNext]
  split
  · exact ⟨_, rfl, rfl, rfl, rfl, rfl⟩
  · rw [hpw, hn, steal_dealt hnw]
    exact ⟨_, rfl, rfl, rfl, rfl, rfl⟩

end Create

end WorkStealingScheduler

/-! ## The factory -/

/-- A scheduler `SchedulerFactory::create` returns. -/
inductive Scheduler
  | roundRobin (s : RoundRobinScheduler)
  | workStealing (s : WorkStealingScheduler)

/-- `Scheduler::next(worker_id)`; `none` where it is undefined behaviour. -/
def Scheduler.next : Scheduler → (ℕ → Bool) → ℕ → Option (Option ℕ × Scheduler)
  | .roundRobin s, hasWork, w => some ((s.next hasWork w).1, .roundRobin (s.next hasWork w).2)
  | .workStealing s, hasWork, w => (s.next hasWork w).map fun r => (r.1, .workStealing r.2)

/-- **`SchedulerFactory::create`** over the instances `0, …, n - 1`, `rng_` drawing `draws`: work
stealing deals the instances to `num_workers` lists (`none` where that takes `i % 0`); every other
policy gets round robin. -/
def SchedulerFactory.create (policy : SchedulingPolicy) (n numWorkers : ℕ) (draws : ℕ → ℕ) :
    Option Scheduler :=
  match policy with
  | .workStealing => (distribute numWorkers 0 (List.range n) (List.replicate numWorkers [])).map
      fun pw => .workStealing ⟨pw, numWorkers, draws, 0, {}⟩
  | _ => some (.roundRobin (.new n))

/-- The lists `create` deals `n` instances into for `nw ≥ 1` workers. -/
theorem SchedulerFactory.create_workStealing {n nw : ℕ} (hnw : 0 < nw) (draws : ℕ → ℕ) :
    SchedulerFactory.create .workStealing n nw draws =
      some (.workStealing ⟨(List.range nw).map (dealt (List.range n) nw), nw, draws, 0, {}⟩) := by
  simp only [SchedulerFactory.create, distribute_replicate _ hnw, Option.map_some']

/-- `WorkerPool`: `config_.num_workers` after its constructor, and the ids of `workers_`. -/
structure WorkerPool where
  numWorkers : ℕ
  workers : List ℕ
  deriving DecidableEq, Repr

/-- `WorkerPool(config)`: the same fallback as `Runtime::init`, on `config.num_workers`. -/
def WorkerPool.new (numWorkers hardwareConcurrency : ℕ) : WorkerPool :=
  ⟨Runtime.workerCount numWorkers hardwareConcurrency, []⟩

/-- `WorkerPool::init(scheduler)`: `Worker(i, scheduler)` for each `i < num_workers`. -/
def WorkerPool.init (p : WorkerPool) : WorkerPool := { p with workers := List.range p.numWorkers }

/-- **Lines 80–99 of `Runtime::init`** over `n` instances: resolve `num_workers`, then
`SchedulerFactory::create` and a `WorkerPool` with the count, the pool started on the scheduler. -/
def Runtime.initScheduler (numWorkers hardwareConcurrency : ℕ) (policy : SchedulingPolicy)
    (n : ℕ) (draws : ℕ → ℕ) : Option (Scheduler × WorkerPool) :=
  let count := Runtime.workerCount numWorkers hardwareConcurrency
  (SchedulerFactory.create policy n count draws).map fun sched =>
    (sched, (WorkerPool.new count hardwareConcurrency).init)

/-! ## What `Runtime::init` hands the workers -/

theorem Runtime.workerCount_pos (numWorkers hardwareConcurrency : ℕ) :
    0 < Runtime.workerCount numWorkers hardwareConcurrency := by
  unfold Runtime.workerCount; split_ifs <;> omega

theorem Runtime.workerCount_of_pos {numWorkers : ℕ} (h : 0 < numWorkers) (hardwareConcurrency : ℕ) :
    Runtime.workerCount numWorkers hardwareConcurrency = numWorkers := by
  simp [Runtime.workerCount, Nat.pos_iff_ne_zero.1 h]

/-- The schedulers `s₀` becomes after `next` calls by workers `w < nw`, on any readiness of the
instances. -/
inductive Scheduler.Reachable (nw : ℕ) (s₀ : Scheduler) : Scheduler → Prop
  | start : Reachable nw s₀ s₀
  | next {s s' : Scheduler} {r : Option ℕ} {hasWork : ℕ → Bool} {w : ℕ} : w < nw →
      Reachable nw s₀ s → s.next hasWork w = some (r, s') → Reachable nw s₀ s'

/-- **The worker count is at least one, and the scheduler and the workers agree on it.** For every
`num_workers` (`0` included), every `hardware_concurrency()` result, policy and instance count,
lines 80–99 of `Runtime::init` resolve a count `≥ 1`; the `WorkerPool` keeps it through its own
fallback; `create` gets the same count and so never takes `i % 0`; the workers' ids are `0, …,
count - 1`; and no `next` call by one of them, after any earlier calls, indexes `per_worker_` out of
range (victims are drawn from `0, …, count - 1`). -/
theorem initScheduler_in_bounds (numWorkers hardwareConcurrency : ℕ) (policy : SchedulingPolicy)
    (n : ℕ) (draws : ℕ → ℕ) :
    ∃ sched pool, Runtime.initScheduler numWorkers hardwareConcurrency policy n draws =
        some (sched, pool) ∧
      0 < pool.numWorkers ∧ pool.numWorkers = Runtime.workerCount numWorkers hardwareConcurrency ∧
      SchedulerFactory.create policy n pool.numWorkers draws = some sched ∧
      pool.workers = List.range pool.numWorkers ∧
      ∀ s, sched.Reachable pool.numWorkers s → ∀ w ∈ pool.workers, ∀ hasWork,
        (s.next hasWork w).isSome := by
  set nw := Runtime.workerCount numWorkers hardwareConcurrency
  have hnw : 0 < nw := Runtime.workerCount_pos _ _
  have hpool : (WorkerPool.new nw hardwareConcurrency).init = ⟨nw, List.range nw⟩ := by
    simp [WorkerPool.new, WorkerPool.init, Runtime.workerCount_of_pos hnw]
  /- a scheduler the workers reach is round robin, or work stealing on the lists `create` dealt -/
  let Inv : Scheduler → Prop := fun s => (∃ t, s = .roundRobin t) ∨ ∃ t, s = .workStealing t ∧
    t.perWorker = (List.range nw).map (dealt (List.range n) nw) ∧ t.numWorkers = nw
  have hstep : ∀ s, Inv s → ∀ w < nw, ∀ hasWork,
      ∃ r s', s.next hasWork w = some (r, s') ∧ Inv s' := by
    rintro s (⟨t, rfl⟩ | ⟨t, rfl, hpw, hn⟩) w hw hasWork
    · exact ⟨_, _, rfl, .inl ⟨_, rfl⟩⟩
    · obtain ⟨t', ht', hpw', hn', -⟩ := WorkStealingScheduler.next_eq_wsNext hnw t hpw hn hw hasWork
      exact ⟨_, _, by rw [Scheduler.next, ht']; rfl, .inr ⟨t', rfl, hpw' ▸ hpw, hn' ▸ hn⟩⟩
  obtain ⟨sched, hcreate, hinv⟩ : ∃ sched, SchedulerFactory.create policy n nw draws = some sched ∧
      Inv sched := by
    cases policy
    case workStealing =>
      exact ⟨_, SchedulerFactory.create_workStealing hnw draws, .inr ⟨_, rfl, rfl, rfl⟩⟩
    all_goals exact ⟨_, rfl, .inl ⟨_, rfl⟩⟩
  refine ⟨sched, ⟨nw, List.range nw⟩, by simp [Runtime.initScheduler, hcreate, hpool], hnw, rfl,
    hcreate, rfl, fun s hs w hw hasWork => ?_⟩
  have hs : Inv s := by
    induction hs with
    | start => exact hinv
    | next hw' _ hn ih =>
      obtain ⟨r, s', h, hi⟩ := hstep _ ih _ hw' _
      rw [h] at hn; cases hn; exact hi
  obtain ⟨r, s', h, -⟩ := hstep s hs w (List.mem_range.1 hw) hasWork
  simp [h]

/-- **Round robin over no instances counts nothing.** `create` gives any policy but work stealing
a `RoundRobinScheduler`; over an empty instance list its `next` returns null before
`total_scheduled++` and never reaches `idle_cycles++`, so the call is neither counted nor idle. -/
theorem roundRobin_empty_uncounted (policy : SchedulingPolicy) (hp : policy ≠ .workStealing)
    (numWorkers : ℕ) (draws : ℕ → ℕ) (hasWork : ℕ → Bool) (w : ℕ) :
    SchedulerFactory.create policy 0 numWorkers draws = some (.roundRobin (.new 0)) ∧
    ((RoundRobinScheduler.new 0).next hasWork w).1 = none ∧
    ((RoundRobinScheduler.new 0).next hasWork w).2.stats = {} := by
  cases policy <;> first | exact absurd rfl hp | exact ⟨rfl, rfl, rfl⟩

theorem roundRobin_empty_uncounted_priority :
    SchedulingPolicy.priority ≠ .workStealing ∧
    (SchedulerFactory.create .priority 0 4 id = some (.roundRobin (.new 0)) ∧
      ((RoundRobinScheduler.new 0).next (fun _ => true) 0).1 = none ∧
      ((RoundRobinScheduler.new 0).next (fun _ => true) 0).2.stats = {}) :=
  ⟨by decide, roundRobin_empty_uncounted .priority (by decide) 4 id (fun _ => true) 0⟩

end KLStream
