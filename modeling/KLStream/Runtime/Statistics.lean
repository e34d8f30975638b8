import KLStream.Runtime.RoundRobin

/-!
# Runtime/Statistics — what `SchedulerStats` counts

The spec counts every `next` call in `total_scheduled`, every null return in `idle_cycles` and every
cross-partition hit in `work_stolen`. `roundRobin_empty_uncounted` shows a round robin over no
instances counting nothing; everywhere else the counters do what the spec says, modulo `2 ^ 64`:

* `RoundRobinScheduler.run_stats` — over at least one instance a run counts each call, and each
  null result as idle;
* `WorkStealingScheduler.next_stats`, `run_stats` — on the lists `create` deals, each call returns,
  and a hit from another worker's list (`stolenBy`) is what `work_stolen` counts;
* `schedulerStats_count` — both, from the schedulers `SchedulerFactory::create` builds.
-/

namespace KLStream

namespace SchedulerStats

variable (s : SchedulerStats)

@[simp] theorem countScheduled_totalScheduled :
    s.countScheduled.totalScheduled = wrap64 (s.totalScheduled + 1) := rfl
@[simp] theorem countScheduled_idleCycles : s.countScheduled.idleCycles = s.idleCycles := rfl
@[simp] theorem countScheduled_workStolen : s.countScheduled.workStolen = s.workStolen := rfl
@[simp] theorem countIdle_totalScheduled : s.countIdle.totalScheduled = s.totalScheduled := rfl
@[simp] theorem countIdle_idleCycles : s.countIdle.idleCycles = wrap64 (s.idleCycles + 1) := rfl
@[simp] theorem countIdle_workStolen : s.countIdle.workStolen = s.workStolen := rfl
@[simp] theorem countStolen_totalScheduled : s.countStolen.totalScheduled = s.totalScheduled := rfl
@[simp] theorem countStolen_idleCycles : s.countStolen.idleCycles = s.idleCycles := rfl
@[simp] theorem countStolen_workStolen : s.countStolen.workStolen = wrap64 (s.workStolen + 1) :=
  rfl

/-- The counters as `std::uint64_t` values. -/
def Bounded : Prop :=
  s.totalScheduled < 2 ^ 64 ∧ s.idleCycles < 2 ^ 64 ∧ s.workStolen < 2 ^ 64

variable {s}

theorem Bounded.countScheduled (h : s.Bounded) : s.countScheduled.Bounded :=
  ⟨wrap64_lt _, h.2.1, h.2.2⟩
theorem Bounded.countIdle (h : s.Bounded) : s.countIdle.Bounded := ⟨h.1, wrap64_lt _, h.2.2⟩
theorem Bounded.countStolen (h : s.Bounded) : s.countStolen.Bounded := ⟨h.1, h.2.1, wrap64_lt _⟩

end SchedulerStats

/-- Position `j` of a worker's list is instance `j * nw + w`, so every instance in worker `w`'s
list is `w` modulo `nw`. -/
theorem mod_of_mem_dealt {n nw w j : ℕ} (hw : w < nw) (h : j ∈ dealt (List.range n) nw w) :
    j % nw = w := by
  obtain ⟨i, hi⟩ := List.mem_iff_getElem?.1 h
  rw [dealt_getElem? _ hw] at hi
  obtain ⟨-, rfl⟩ := List.getElem?_eq_some_iff.1 hi
  simp [List.getElem_range, Nat.add_mod, Nat.mul_mod_left, Nat.mod_eq_of_lt hw]


namespace RoundRobinScheduler

@[simp] theorem new_stats (n : ℕ) : (new n).stats = {} := rfl

/-- Over at least one instance, `next` counts the call, and a null result as idle. -/
theorem next_stats {s : RoundRobinScheduler} (hs : s.numInstances ≠ 0) (hasWork : ℕ → Bool)
    (w : ℕ) :
    (s.next hasWork w).2.stats = if (s.next hasWork w).1 = none
      then s.stats.countScheduled.countIdle else s.stats.countScheduled := by
  unfold next; simp only [hs, if_false]

/-- Over at least one instance, a run counts every call and every null result. -/
theorem run_stats (calls : List (ℕ × (ℕ → Bool))) (s : RoundRobinScheduler)
    (hs : s.numInstances ≠ 0) (hb : s.stats.Bounded) :
    (s.run calls).2.stats =
      ⟨wrap64 (s.stats.totalScheduled + calls.length),
        wrap64 (s.stats.idleCycles + ((s.run calls).1.filter fun c => c.2.isNone).length),
        s.stats.workStolen⟩ := by
  induction calls generalizing s with
  | nil =>
    obtain ⟨h1, h2, -⟩ := hb
    simp [run, wrap64_of_lt h1, wrap64_of_lt h2]
  | cons c calls ih =>
    obtain ⟨v, hasWork⟩ := c
    have hs' : (s.next hasWork v).2.numInstances ≠ 0 := by simpa using hs
    have hst := next_stats hs hasWork v
    have hb' : (s.next hasWork v).2.stats.Bounded := by
      rw [hst]; split_ifs
      · exact hb.countScheduled.countIdle
      · exact hb.countScheduled
    simp only [run, List.filter_cons, List.length_cons]
    rw [ih _ hs' hb', hst]
    cases (s.next hasWork v).1 <;> simp [wrap64_add_wrap64, Nat.add_assoc, Nat.add_comm 1]

end RoundRobinScheduler

/-- An instance the stealing loop returns belongs to a victim other than the caller. -/
theorem mod_ne_of_wsSteal {n nw w : ℕ} (hnw : 0 < nw) {hasWork : ℕ → Bool} {draws : ℕ → ℕ}
    {attempts c j : ℕ} (h : (wsSteal n nw w hasWork draws attempts c).1 = some j) : j % nw ≠ w := by
  induction attempts generalizing c with
  | zero => simp [wsSteal] at h
  | succ a ih =>
    simp only [wsSteal] at h
    split_ifs at h with hv
    · exact ih h
    · split at h
      · rename_i j' hj
        cases h
        rwa [mod_of_mem_dealt (Nat.mod_lt _ hnw) (List.mem_of_find?_eq_some hj)]
      · exact ih h

namespace WorkStealingScheduler

/-- `next(w)` calls in order, each on the readiness it sees: the worker and result of each call,
and the scheduler after them; `none` if a call indexes `per_worker_` out of range. -/
def run : WorkStealingScheduler → List (ℕ × (ℕ → Bool)) →
    Option (List (ℕ × Option ℕ) × WorkStealingScheduler)
  | s, [] => some ([], s)
  | s, (w, hasWork) :: calls =>
    (s.next hasWork w).bind fun r => (run r.2 calls).map fun t => ((w, r.1) :: t.1, t.2)

/-- Whether a call by `w` returned an instance of another worker's list: `j % nw ≠ w`. -/
def stolenBy (nw : ℕ) (c : ℕ × Option ℕ) : Bool := c.2.any fun j => j % nw != c.1

section Create

variable {n nw : ℕ} (hnw : 0 < nw)
include hnw

/-- **One call on the lists `create` builds**: it returns, counts the call, counts a null result as
idle and an instance from another worker's list as stolen, and keeps the lists. -/
theorem next_stats (s : WorkStealingScheduler)
    (hpw : s.perWorker = (List.range nw).map (dealt (List.range n) nw)) (hn : s.numWorkers = nw)
    {w : ℕ} (hw : w < nw) (hasWork : ℕ → Bool) :
    ∃ r s', s.next hasWork w = some (r, s') ∧ s'.perWorker = s.perWorker ∧
      s'.numWorkers = s.numWorkers ∧
      s'.stats = if r = none then s.stats.countScheduled.countIdle
        else if stolenBy nw (w, r) then s.stats.countScheduled.countStolen
        else s.stats.countScheduled := by
  have hown : s.perWorker[w]? = some (dealt (List.range n) nw w) := by simp [hpw, hw]
  simp only [next, hown]
  split
  · rename_i j hj
    have : j % nw = w := mod_of_mem_dealt hw (List.mem_of_find?_eq_some hj)
    exact ⟨_, _, rfl, rfl, rfl, by simp [stolenBy, this]⟩
  · rw [hpw, hn, steal_dealt hnw]
    refine ⟨_, _, rfl, rfl, rfl, ?_⟩
    rcases hr : (wsSteal n nw w hasWork s.draws nw s.drawn).1 with _ | j
    · simp
    · simp [stolenBy, mod_ne_of_wsSteal hnw hr]

/-- **A run on the lists `create` builds**, by workers below `nw`: every call returns, and the
run counts every call, every null result, and every instance returned from another worker's
list. -/
theorem run_stats (calls : List (ℕ × (ℕ → Bool))) (hcalls : ∀ c ∈ calls, c.1 < nw)
    (s : WorkStealingScheduler) (hpw : s.perWorker = (List.range nw).map (dealt (List.range n) nw))
    (hn : s.numWorkers = nw) (hb : s.stats.Bounded) :
    ∃ res s', s.run calls = some (res, s') ∧ res.map Prod.fst = calls.map Prod.fst ∧
      s'.stats = ⟨wrap64 (s.stats.totalScheduled + calls.length),
        wrap64 (s.stats.idleCycles + (res.filter fun c => c.2.isNone).length),
        wrap64 (s.stats.workStolen + (res.filter (stolenBy nw)).length)⟩ := by
  induction calls generalizing s with
  | nil =>
    obtain ⟨h1, h2, h3⟩ := hb
    exact ⟨[], s, rfl, rfl, by simp [wrap64_of_lt h1, wrap64_of_lt h2, wrap64_of_lt h3]⟩
  | cons c calls ih =>
    obtain ⟨w, hasWork⟩ := c
    obtain ⟨r, s₁, hnext, hpw₁, hn₁, hst⟩ :=
      next_stats hnw s hpw hn (hcalls _ (.head _)) hasWork
    have hb₁ : s₁.stats.Bounded := by
      rw [hst]; split_ifs
      · exact hb.countScheduled.countIdle
      · exact hb.countScheduled.countStolen
      · exact hb.countScheduled
    obtain ⟨res, s', hrun, hfst, hst'⟩ :=
      ih (fun c hc => hcalls c (.tail _ hc)) s₁ (hpw₁.trans hpw) (hn₁.trans hn) hb₁
    refine ⟨(w, r) :: res, s', by simp [run, hnext, hrun], by simp [hfst], ?_⟩
    rw [hst', hst]
    rcases r with _ | j
    · simp [stolenBy, wrap64_add_wrap64, Nat.add_assoc, Nat.add_comm 1]
    · by_cases hj : stolenBy nw (w, some j) <;>
        simp [hj, wrap64_add_wrap64, Nat.add_assoc, Nat.add_comm 1]

end Create

end WorkStealingScheduler

/-- **Where `SchedulerStats` counts what the spec says.** Over every sequence of `next` calls by any
workers, a `RoundRobinScheduler` over `n ≥ 1` instances counts every call in `total_scheduled` and
every null result in `idle_cycles`, and steals nothing. The `WorkStealingScheduler` that
`SchedulerFactory::create` builds over `m` instances for `nw ≥ 1` workers returns on every call by
a worker below `nw`, and counts every call, every null result, and in `work_stolen` every instance
returned from another worker's list. All counts are modulo `2 ^ 64`. -/
theorem schedulerStats_count {n : ℕ} (hn : 0 < n) (calls : List (ℕ × (ℕ → Bool))) (m : ℕ) {nw : ℕ}
    (hnw : 0 < nw) (draws : ℕ → ℕ) (wcalls : List (ℕ × (ℕ → Bool)))
    (hw : ∀ c ∈ wcalls, c.1 < nw) :
    ((RoundRobinScheduler.new n).run calls).2.stats =
        ⟨wrap64 calls.length,
          wrap64 (((RoundRobinScheduler.new n).run calls).1.filter fun c => c.2.isNone).length, 0⟩ ∧
    ∃ s₀, SchedulerFactory.create .workStealing m nw draws = some (.workStealing s₀) ∧
      ∃ res s', s₀.run wcalls = some (res, s') ∧ res.map Prod.fst = wcalls.map Prod.fst ∧
        s'.stats = ⟨wrap64 wcalls.length, wrap64 (res.filter fun c => c.2.isNone).length,
          wrap64 (res.filter (WorkStealingScheduler.stolenBy nw)).length⟩ := by
  have hb : ({} : SchedulerStats).Bounded :=
    ⟨Nat.two_pow_pos 64, Nat.two_pow_pos 64, Nat.two_pow_pos 64⟩
  refine ⟨by simpa using RoundRobinScheduler.run_stats calls (.new n) (Nat.pos_iff_ne_zero.1 hn) hb,
    _, SchedulerFactory.create_workStealing hnw draws, ?_⟩
  simpa using WorkStealingScheduler.run_stats hnw wcalls hw ⟨_, nw, draws, 0, {}⟩ rfl rfl hb

theorem schedulerStats_count_two_workers :
    0 < 2 ∧ 0 < 2 ∧
    (∀ c ∈ ([(0, fun i => decide (i = 1)), (1, fun _ => false)] : List (ℕ × (ℕ → Bool))),
      c.1 < 2) ∧
    (((RoundRobinScheduler.new 2).run [(0, fun _ => false), (1, fun _ => true)]).2.stats =
        ⟨wrap64 ([(0, fun _ => false), (1, fun _ => true)] : List (ℕ × (ℕ → Bool))).length,
          wrap64 (((RoundRobinScheduler.new 2).run
            [(0, fun _ => false), (1, fun _ => true)]).1.filter fun c => c.2.isNone).length, 0⟩ ∧
    ∃ s₀, SchedulerFactory.create .workStealing 3 2 id = some (.workStealing s₀) ∧
      ∃ res s', s₀.run [(0, fun i => decide (i = 1)), (1, fun _ => false)] = some (res, s') ∧
        res.map Prod.fst =
          ([(0, fun i => decide (i = 1)), (1, fun _ => false)] : List (ℕ × (ℕ → Bool))).map
            Prod.fst ∧
        s'.stats =
          ⟨wrap64 ([(0, fun i => decide (i = 1)), (1, fun _ => false)] :
              List (ℕ × (ℕ → Bool))).length,
            wrap64 (res.filter fun c => c.2.isNone).length,
            wrap64 (res.filter (WorkStealingScheduler.stolenBy 2)).length⟩) :=
  ⟨by decide, by decide, by decide, schedulerStats_count (by decide) _ 3 (by decide) id _ (by decide)⟩

end KLStream
