import KLStream.Runtime.Scheduler
import KLStream.Operators.Event
import Mathlib.Algebra.BigOperators.Group.List

/-!
# Runtime/Metrics — `MetricsCollector::snapshot` and `Histogram`

`snapshot()` reads `events_processed`, the one metric the core increments, and reports as
`events_per_second` the `std::uint64_t` difference from the count the previous snapshot read,
divided by the whole seconds elapsed since that snapshot — `0` when under a second has elapsed.
Either way the snapshot becomes the previous one. `format()` is a snapshot put into words.

* `snapshot_rates` — over every run of `increment`, `reset` and `snapshot` calls from a collector
  constructed at `t₀`, each snapshot reports the counter (the increments since the last reset,
  modulo `2 ^ 64`) and, as its rate, its difference from the previous snapshot's count over the
  whole seconds between the two;
* `rate_counts_whole_seconds` — so events counted less than a second after a snapshot drop out of
  every rate, and after a `reset` the difference wraps.

`Histogram::observe(value)` adds one to `count_` and to the count of the first bound `value <=`,
or to the `+Inf` count past the last bound:

* `histogram_counts` — after any observations, each count is the number of values that landed in
  its bucket, and the counts add up to `count()`, modulo `2 ^ 64`;
* `histogram_cumulative` — with increasing bounds, the first `i + 1` counts add up to the values
  `<= buckets[i]`, the reading of a cumulative histogram.
-/

namespace KLStream

/-- The part of `RuntimeMetrics` a snapshot computes from `events_processed`. -/
structure RuntimeMetrics where
  totalEventsProcessed : ℕ
  eventsPerSecond : ℕ
  timestamp : ℕ
  deriving DecidableEq, Repr

/-- The part of `MetricsCollector` `snapshot` reads and writes: the `events_processed` counter, and
`last_snapshot_time_` (a `steady_clock` reading, in nanoseconds) and `last_events_`. -/
structure MetricsCollector where
  eventsProcessed : ℕ := 0
  lastSnapshotTime : ℕ
  lastEvents : ℕ := 0
  eventsProcessed_lt : eventsProcessed < 2 ^ 64 := by decide
  lastEvents_lt : lastEvents < 2 ^ 64 := by decide

namespace MetricsCollector

/-- `MetricsCollector()` at the clock reading `now`: `last_snapshot_time_{now()}`. -/
def new (now : ℕ) : MetricsCollector := { lastSnapshotTime := now }

/-- **`MetricsCollector::snapshot()`** at the clock reading `now`: `elapsed` is
`now - last_snapshot_time_` cast to whole seconds (truncated); the rate is
`(total - last_events_) / elapsed` in `std::uint64_t`, or `0` when `elapsed` is not positive; then
`last_snapshot_time_` and `last_events_` take this snapshot's. -/
def snapshot (m : MetricsCollector) (now : ℕ) : RuntimeMetrics × MetricsCollector :=
  let elapsed := (now - m.lastSnapshotTime) / 10 ^ 9
  let total := m.eventsProcessed
  (⟨total, if 0 < elapsed then wrap64 (total + 2 ^ 64 - m.lastEvents) / elapsed else 0, now⟩,
    { m with lastSnapshotTime := now, lastEvents := total, lastEvents_lt := m.eventsProcessed_lt })

end MetricsCollector

/-- `events_processed().increment(value)`, `events_processed().reset()`, and `snapshot()` (or
`format()`) at a clock reading. -/
inductive MetricsCall
  | increment (value : ℕ)
  | reset
  | snapshot (now : ℕ)

namespace MetricsCollector

/-- One call: `Counter::increment` adds modulo `2 ^ 64`, `Counter::reset` stores `0`. -/
def call (m : MetricsCollector) : MetricsCall → Option RuntimeMetrics × MetricsCollector
  | .increment v =>
    (none, { m with eventsProcessed := wrap64 (m.eventsProcessed + v),
                    eventsProcessed_lt := wrap64_lt _ })
  | .reset => (none, { m with eventsProcessed := 0, eventsProcessed_lt := Nat.two_pow_pos 64 })
  | .snapshot now => ((m.snapshot now).1, (m.snapshot now).2)

/-- The calls in turn: the snapshots' reports, and the collector after them. -/
def run (m : MetricsCollector) : List MetricsCall → List RuntimeMetrics × MetricsCollector
  | [] => ([], m)
  | c :: cs => ((m.call c).1.toList ++ ((m.call c).2.run cs).1, ((m.call c).2.run cs).2)

end MetricsCollector

/-- What a call does to the value `c` of `events_processed`. -/
def MetricsCall.count (c : ℕ) : MetricsCall → ℕ
  | .increment v => wrap64 (c + v)
  | .reset => 0
  | .snapshot _ => c

/-- **The value of `events_processed` after calls from `0`**: the increments since the last reset,
modulo `2 ^ 64`. -/
def counterAfter (calls : List MetricsCall) : ℕ := calls.foldl MetricsCall.count 0

/-- **The rate a report gives in the reading of `snapshot_rates`**: after a snapshot at the clock
reading `prev.1` that read `prev.2`, the `std::uint64_t` difference of the counts over the whole
seconds between the two, and `0` when they are less than a second apart. -/
def rateAfter (prev : ℕ × ℕ) (r : RuntimeMetrics) : ℕ :=
  if 10 ^ 9 ≤ r.timestamp - prev.1 then
    wrap64 (r.totalEventsProcessed + 2 ^ 64 - prev.2) / ((r.timestamp - prev.1) / 10 ^ 9)
  else 0

namespace MetricsCollector

variable (m : MetricsCollector)

/-- A snapshot reports the counter, its rate after the previous snapshot, and its clock reading,
and becomes the previous snapshot. -/
theorem call_snapshot (now : ℕ) :
    m.call (.snapshot now) =
      (some ⟨m.eventsProcessed, rateAfter (m.lastSnapshotTime, m.lastEvents)
          ⟨m.eventsProcessed, 0, now⟩, now⟩,
        { m with lastSnapshotTime := now, lastEvents := m.eventsProcessed,
                 lastEvents_lt := m.eventsProcessed_lt }) := by
  simp [call, snapshot, rateAfter, Nat.div_pos_iff]

/-- Any other call reports nothing and leaves the previous snapshot as it was. -/
theorem call_of_ne_snapshot {c : MetricsCall} (hc : ∀ now, c ≠ .snapshot now) :
    (m.call c).1 = none ∧ (m.call c).2.lastSnapshotTime = m.lastSnapshotTime ∧
      (m.call c).2.lastEvents = m.lastEvents := by
  cases c with
  | snapshot now => exact absurd rfl (hc now)
  | _ => exact ⟨rfl, rfl, rfl⟩

@[simp] theorem call_eventsProcessed (c : MetricsCall) :
    (m.call c).2.eventsProcessed = c.count m.eventsProcessed := by
  cases c <;> rfl

theorem run_append (a b : List MetricsCall) :
    m.run (a ++ b) = ((m.run a).1 ++ ((m.run a).2.run b).1, ((m.run a).2.run b).2) := by
  induction a generalizing m with
  | nil => rfl
  | cons c a ih => simp [run, ih]

/-- Over a run the counter moves call by call. -/
theorem run_eventsProcessed (calls : List MetricsCall) :
    (m.run calls).2.eventsProcessed = calls.foldl MetricsCall.count m.eventsProcessed := by
  induction calls generalizing m with
  | nil => rfl
  | cons c calls ih => simp [run, ih]

/-- **Each report's rate is taken after the report before it**, the first after the collector's
previous snapshot. -/
theorem run_rates (calls : List MetricsCall) :
    (m.run calls).1.map (·.eventsPerSecond) =
      List.zipWith rateAfter ((m.lastSnapshotTime, m.lastEvents) ::
        (m.run calls).1.map fun r => (r.timestamp, r.totalEventsProcessed)) (m.run calls).1 := by
  induction calls generalizing m with
  | nil => rfl
  | cons c calls ih =>
    by_cases hc : ∃ now, c = .snapshot now
    · obtain ⟨now, rfl⟩ := hc
      simp [run, call_snapshot, ih, rateAfter]
    · obtain ⟨h1, h2, h3⟩ := m.call_of_ne_snapshot (c := c) fun now h => hc ⟨now, h⟩
      simp only [run, h1, Option.toList_none, List.nil_append]
      rw [ih, h2, h3]

end MetricsCollector

/-- **What every snapshot reports.** Over every run of `increment`, `reset` and `snapshot` calls
from a collector constructed at the clock reading `t₀`: each snapshot reports the counter — the
increments since the last reset, modulo `2 ^ 64` — and, as `events_per_second`, the `std::uint64_t`
difference from the previous snapshot's count over the whole seconds since that snapshot (`t₀` and
`0` for the first), or `0` when under a second has passed. -/
theorem snapshot_rates (t₀ : ℕ) (calls : List MetricsCall) :
    ((MetricsCollector.new t₀).run calls).1.map (·.eventsPerSecond) =
        List.zipWith rateAfter ((t₀, 0) :: ((MetricsCollector.new t₀).run calls).1.map fun r =>
          (r.timestamp, r.totalEventsProcessed)) ((MetricsCollector.new t₀).run calls).1 ∧
      ∀ pre t, ((MetricsCollector.new t₀).run (pre ++ [.snapshot t])).1.getLast?.map
        (fun r => (r.totalEventsProcessed, r.timestamp)) = some (counterAfter pre, t) := by
  refine ⟨MetricsCollector.run_rates _ calls, fun pre t => ?_⟩
  simp [MetricsCollector.run_append, MetricsCollector.run, MetricsCollector.call_snapshot,
    MetricsCollector.run_eventsProcessed, counterAfter, MetricsCollector.new]

/-- **Rates count whole seconds.** Five events and a snapshot at one second report `5`. Five more and
a snapshot half a second later report `0`, not `10`: those five drop out of every rate. Three more
and a snapshot a second and a half later report `3`, not `2`. A `reset`, one event and a snapshot a
second later report `2 ^ 64 - 12`, not `1`. -/
theorem rate_counts_whole_seconds :
    ((MetricsCollector.new 0).run [.increment 5, .snapshot (10 * 10 ^ 8), .increment 5,
        .snapshot (15 * 10 ^ 8), .increment 3, .snapshot (30 * 10 ^ 8), .reset, .increment 1,
        .snapshot (40 * 10 ^ 8)]).1.map (·.eventsPerSecond) = [5, 0, 3, 2 ^ 64 - 12] := by
  decide

/-! ## `Histogram` -/

/-- `Histogram`: `buckets_`, `counts_` — one count per bound, then the `+Inf` count — and `count_`,
each count an `std::uint64_t`. `sum_` and `mean()` are left out: they are `double` arithmetic. -/
structure Histogram where
  buckets : List Double
  counts : List ℕ
  count : ℕ
  counts_length : counts.length = buckets.length + 1
  counts_lt : ∀ c ∈ counts, c < 2 ^ 64
  count_lt : count < 2 ^ 64

namespace Histogram

/-- `Histogram(buckets)`: every count `0`. -/
def new (buckets : List Double) : Histogram :=
  ⟨buckets, List.replicate (buckets.length + 1) 0, 0, List.length_replicate _ _,
    fun _ h => (List.eq_of_mem_replicate h).symm ▸ Nat.two_pow_pos 64, Nat.two_pow_pos 64⟩

/-- `Histogram::default_buckets()`: `0.001, 0.005, 0.01, 0.025, 0.05, 0.1, 0.25, 0.5, 1.0, 2.5,
5.0, 10.0`, each the `double` nearest to it. -/
def defaultBuckets : List Double :=
  [⟨0x3F50624DD2F1A9FC⟩, ⟨0x3F747AE147AE147B⟩, ⟨0x3F847AE147AE147B⟩, ⟨0x3F9999999999999A⟩,
    ⟨0x3FA999999999999A⟩, ⟨0x3FB999999999999A⟩, ⟨0x3FD0000000000000⟩, ⟨0x3FE0000000000000⟩,
    ⟨0x3FF0000000000000⟩, ⟨0x4004000000000000⟩, ⟨0x4014000000000000⟩, ⟨0x4024000000000000⟩]

/-- The loop of `observe` over `buckets_` and `counts_` in step: the count of the first bound with
`value <= bound` goes up by one and the loop returns; past the last bound, the count left is
`counts_.back()`, the `+Inf` count. -/
def observeLoop (value : Double) : List Double → List ℕ → List ℕ
  | b :: bs, c :: cs => if value.le b then wrap64 (c + 1) :: cs else c :: observeLoop value bs cs
  | [], c :: cs => wrap64 (c + 1) :: cs
  | _, [] => []

/-- The bucket `value` lands in: the first bound it is `<=`, or `buckets.length`, the `+Inf`
bucket — where a NaN lands, being `<=` nothing. -/
def bucketIndex (value : Double) (buckets : List Double) : ℕ := buckets.findIdx (value.le ·)

/-- `observe` adds one to the count of the bucket the value lands in. -/
theorem observeLoop_eq_modify (value : Double) :
    ∀ (bs : List Double) (cs : List ℕ),
      observeLoop value bs cs = cs.modify (fun c => wrap64 (c + 1)) (bucketIndex value bs)
  | b :: bs, c :: cs => by
    by_cases hv : value.le b
    · simp [observeLoop, bucketIndex, List.findIdx_cons, hv]
    · simp [observeLoop, bucketIndex, List.findIdx_cons, hv, observeLoop_eq_modify value bs cs]
  | [], c :: cs => rfl
  | _, [] => by simp [observeLoop]

/-- What holds of a list's entries and of every `f c` holds of its entries after `modify f`. -/
theorem forall_mem_modify {p : ℕ → Prop} {f : ℕ → ℕ} (hf : ∀ c, p (f c)) :
    ∀ (n : ℕ) (l : List ℕ), (∀ c ∈ l, p c) → ∀ c ∈ l.modify f n, p c
  | _, [], _ => by simp
  | 0, a :: l, h => by simpa using ⟨hf a, fun c hc => h c (List.mem_cons_of_mem a hc)⟩
  | n + 1, a :: l, h => by
    simpa using ⟨h a (List.mem_cons_self a l),
      forall_mem_modify hf n l fun c hc => h c (List.mem_cons_of_mem a hc)⟩

/-- **`Histogram::observe(value)`**, but for `sum_ += value`. -/
def observe (h : Histogram) (value : Double) : Histogram where
  buckets := h.buckets
  counts := observeLoop value h.buckets h.counts
  count := wrap64 (h.count + 1)
  counts_length := by rw [observeLoop_eq_modify, List.length_modify, h.counts_length]
  counts_lt := by
    rw [observeLoop_eq_modify]
    exact @forall_mem_modify (· < 2 ^ 64) _ (fun _ => wrap64_lt _) _ _ h.counts_lt
  count_lt := wrap64_lt _

@[simp] theorem observe_buckets (h : Histogram) (v : Double) : (h.observe v).buckets = h.buckets := rfl

@[simp] theorem observe_counts (h : Histogram) (v : Double) :
    (h.observe v).counts = h.counts.modify (fun c => wrap64 (c + 1)) (bucketIndex v h.buckets) :=
  observeLoop_eq_modify v _ _

@[simp] theorem observe_count (h : Histogram) (v : Double) :
    (h.observe v).count = wrap64 (h.count + 1) := rfl

/-- `observe` called on each value in turn. -/
def observeAll (h : Histogram) (values : List Double) : Histogram := values.foldl observe h

/-- A NaN is `<=` no bound: it lands in the `+Inf` bucket. -/
example : ((new defaultBuckets).observe ⟨0x7FF8000000000000⟩).counts = List.replicate 12 0 ++ [1] := by
  decide

@[simp] theorem observeAll_buckets (h : Histogram) (vs : List Double) :
    (h.observeAll vs).buckets = h.buckets := by
  induction vs generalizing h with
  | nil => rfl
  | cons v vs ih => exact ih (h.observe v)

/-- `count()` counts the calls, modulo `2 ^ 64`. -/
theorem observeAll_count (h : Histogram) (vs : List Double) :
    (h.observeAll vs).count = wrap64 (h.count + vs.length) := by
  induction vs generalizing h with
  | nil => exact (wrap64_of_lt h.count_lt).symm
  | cons v vs ih =>
    show ((h.observe v).observeAll vs).count = _
    rw [ih, observe_count, wrap64_add_wrap64, List.length_cons, Nat.add_assoc, Nat.add_comm 1]

/-- **Each count counts the values that landed in its bucket**, modulo `2 ^ 64`, over any run of
`observe` calls. -/
theorem observeAll_counts (h : Histogram) (vs : List Double) (i : ℕ) :
    (h.observeAll vs).counts[i]? =
      h.counts[i]?.map fun c => wrap64 (c + vs.countP fun v => bucketIndex v h.buckets = i) := by
  induction vs generalizing h with
  | nil =>
    cases hc : h.counts[i]? with
    | none => simpa [observeAll] using hc
    | some c => simpa [observeAll, wrap64_of_lt (h.counts_lt c (List.getElem?_mem hc))] using hc
  | cons v vs ih =>
    show ((h.observe v).observeAll vs).counts[i]? = _
    rw [ih, observe_buckets, observe_counts, List.getElem?_modify]
    cases h.counts[i]? with
    | none => rfl
    | some c =>
      by_cases hv : bucketIndex v h.buckets = i <;>
        simp [hv, List.countP_cons, wrap64_add_wrap64, Nat.add_assoc, Nat.add_comm 1]

/-- The counts after `Histogram(buckets)` and any `observe` calls. -/
theorem counts_new_observeAll (bs vs : List Double) :
    ((new bs).observeAll vs).counts =
      (List.range (bs.length + 1)).map fun i => wrap64 (vs.countP fun v => bucketIndex v bs = i) := by
  refine List.ext_getElem? fun i => ?_
  rw [observeAll_counts]
  by_cases hi : i < bs.length + 1
  · simp [new, hi, List.getElem?_replicate, List.getElem?_range]
  · simp [new, hi, List.getElem?_replicate, List.getElem?_eq_none (by simpa using Nat.le_of_not_lt hi :
      (List.range (bs.length + 1)).length ≤ i)]

/-- Values at or below `i + 1` are those at or below `i` and those at `i + 1`. -/
theorem countP_le_succ {α : Type} (f : α → ℕ) (vs : List α) (i : ℕ) :
    vs.countP (fun v => f v ≤ i + 1) = vs.countP (fun v => f v ≤ i) + vs.countP (fun v => f v = i + 1) := by
  induction vs with
  | nil => rfl
  | cons v vs ih => simp only [List.countP_cons, ih, decide_eq_true_eq]; split_ifs <;> omega

/-- The first `i + 1` counts of a bucket-by-bucket tally add up to the values in buckets up to `i`. -/
theorem wrap64_sum_range_countP {α : Type} (f : α → ℕ) (vs : List α) (i : ℕ) :
    wrap64 (((List.range (i + 1)).map fun j => wrap64 (vs.countP fun v => f v = j)).sum) =
      wrap64 (vs.countP fun v => f v ≤ i) := by
  induction i with
  | zero => simp [List.range_succ, wrap64, Nat.le_zero]
  | succ i ih =>
    rw [List.range_succ, List.map_append, List.sum_append, countP_le_succ, List.map_singleton,
      List.sum_singleton]
    simp only [wrap64, Nat.add_mod, Nat.mod_mod] at ih ⊢
    rw [ih]

/-- With bounds in increasing order, a value lands at or before bucket `i` exactly when it is
`<= buckets[i]`. -/
theorem bucketIndex_le_iff {bs : List Double} (hs : bs.Pairwise fun a b => a.le b = true)
    (v : Double) {i : ℕ} (hi : i < bs.length) : bucketIndex v bs ≤ i ↔ v.le bs[i] = true := by
  constructor
  · intro h
    have hlt : bs.findIdx (v.le ·) < bs.length := by unfold bucketIndex at h; omega
    have hle := List.findIdx_getElem (w := hlt)
    rcases Nat.lt_or_eq_of_le h with h | h
    · exact Double.le_trans hle (List.pairwise_iff_getElem.1 hs _ _ hlt hi h)
    · simp only [bucketIndex] at h; simpa [h] using hle
  · intro h
    by_contra hlt
    have := List.not_of_lt_findIdx (Nat.lt_of_not_le hlt)
    simp_all

/-- **A histogram counts each observation once, in its bucket.** After `Histogram(buckets)` and any
`observe` calls, `count()` is their number and each count the number of values that landed in its
bucket, modulo `2 ^ 64`; so the counts add up to `count()`. -/
theorem histogram_counts (bs vs : List Double) :
    ((new bs).observeAll vs).count = wrap64 vs.length ∧
      ((new bs).observeAll vs).counts =
        (List.range (bs.length + 1)).map (fun i => wrap64 (vs.countP fun v => bucketIndex v bs = i)) ∧
      wrap64 ((new bs).observeAll vs).counts.sum = ((new bs).observeAll vs).count := by
  have hcount : ((new bs).observeAll vs).count = wrap64 vs.length := by
    rw [observeAll_count]; simp [new]
  refine ⟨hcount, counts_new_observeAll bs vs, ?_⟩
  rw [counts_new_observeAll, wrap64_sum_range_countP, hcount, List.countP_eq_length.2]
  exact fun v _ => by simpa [bucketIndex] using List.findIdx_le_length (v.le ·)

/-- **With increasing bounds the counts are cumulative bounds.** When each bound is `<=` every later
one, the first `i + 1` counts add up, modulo `2 ^ 64`, to the observed values `<= buckets[i]`. -/
theorem histogram_cumulative {bs : List Double} (hs : bs.Pairwise fun a b => a.le b = true)
    (vs : List Double) {i : ℕ} (hi : i < bs.length) :
    wrap64 ((((new bs).observeAll vs).counts.take (i + 1)).sum) =
      wrap64 (vs.countP fun v => v.le bs[i]) := by
  rw [counts_new_observeAll, ← List.map_take, List.take_range, Nat.min_eq_left (by omega),
    wrap64_sum_range_countP]
  exact congrArg wrap64 (List.countP_congr fun v _ => by simp [bucketIndex_le_iff hs v hi])

theorem histogram_cumulative_default :
    defaultBuckets.Pairwise (fun a b => a.le b = true) ∧ 8 < defaultBuckets.length ∧
      wrap64 (((((new defaultBuckets).observeAll
          [⟨0x3FE0000000000000⟩, ⟨0x4000000000000000⟩]).counts.take (8 + 1))).sum) =
        wrap64 ([(⟨0x3FE0000000000000⟩ : Double), ⟨0x4000000000000000⟩].countP fun v =>
          v.le (defaultBuckets.get ⟨8, by decide⟩)) :=
  ⟨by decide, by decide, histogram_cumulative (by decide) _ (by decide)⟩

end Histogram

end KLStream
