import KLStream.Queue.Invariant
import Mathlib.Algebra.Ring.Int.Defs

/-!
# Queue/Counters — what `push_count` and `pop_count` count

`push` and `push_for` run `stats_.push_count++` on entry, before they know whether they will store
the event; `pop` and `pop_for` do the same with `pop_count`. Their siblings `try_push` and `try_pop`
count only after their early return, so only an event they move. The counters are `std::uint64_t`,
so `push_count - pop_count` is computed modulo `2 ^ 64`, and it drifts from `size_` by every refused
`push` or `push_for` and every `pop` or `pop_for` that returns `nullopt`.

* `QueueOp.unmoved` — what one completed call counts without moving an event;
* `counterGap_store`, `counterGap_take` — a call that moves an event counts it, and leaves the gap
  `push_count - pop_count - size_` where it was;
* `step_counterGap`, `exec_counterGap` — each call moves the gap by exactly what it counts
  without moving an event, modulo `2 ^ 64`, call by call and over a run;
* `init_exec_counters` — from a default-constructed queue, `current_size = size_` and
  `push_count - pop_count = size_ + Σ unmoved` modulo `2 ^ 64`; so a `push` on a closed queue counts
  one push and stores nothing (`init_exec_counters_closed_push`).
-/

namespace KLStream

variable {C : Capacity} {α : Type}

/-- What a completed call adds to `push_count - pop_count` beyond the event it moves: `push` and
`push_for` count a call they refuse, `pop` and `pop_for` a call that returns `nullopt`. -/
def QueueOp.unmoved : QueueOp α → Reply α → ℤ
  | .push _, .pushed false => 1
  | .pushFor _, .pushed false => 1
  | .pop, .popped none => -1
  | .popFor, .popped none => -1
  | _, _ => 0

namespace BoundedQueue

/-- `push_count - pop_count - size_`, modulo `2 ^ 64` as `std::uint64_t` arithmetic computes it. -/
def counterGap (q : BoundedQueue C α) : ℤ :=
  ((q.stats.pushCount : ℤ) - q.stats.popCount - q.size) % 2 ^ 64

section Gap

variable (q : BoundedQueue C α)

theorem counterGap_bounds : 0 ≤ q.counterGap ∧ q.counterGap < 2 ^ 64 := by
  unfold counterGap; omega

/-- A call that stores its event counts it: the gap stays. -/
theorem counterGap_store (e : α) :
    ((q.mapStats QueueStats.countPush).enqueue e).counterGap = q.counterGap := by
  simp only [counterGap, enqueue_pushCount, enqueue_popCount, enqueue_size, mapStats_stats,
    mapStats_size, QueueStats.countPush, wrap64]; omega

/-- A call that takes the front counts it: the gap stays. -/
theorem counterGap_take (h : q.size ≠ 0) :
    (q.mapStats QueueStats.countPop).dequeue.counterGap = q.counterGap := by
  simp only [counterGap, dequeue_pushCount, dequeue_popCount, dequeue_size, mapStats_stats,
    mapStats_size, QueueStats.countPop, wrap64]; omega

/-- A counted `push` that stores nothing moves the gap up by one. -/
theorem counterGap_countPush :
    (q.mapStats QueueStats.countPush).counterGap = (q.counterGap + 1) % 2 ^ 64 := by
  simp only [counterGap, mapStats_stats, mapStats_size, QueueStats.countPush, wrap64]; omega

/-- A counted `pop` that takes nothing moves the gap down by one. -/
theorem counterGap_countPop :
    (q.mapStats QueueStats.countPop).counterGap = (q.counterGap - 1) % 2 ^ 64 := by
  simp only [counterGap, mapStats_stats, mapStats_size, QueueStats.countPop, wrap64]; omega

theorem counterGap_countPushBlocked :
    (q.mapStats QueueStats.countPushBlocked).counterGap = q.counterGap := rfl
theorem counterGap_countPopBlocked :
    (q.mapStats QueueStats.countPopBlocked).counterGap = q.counterGap := rfl
theorem counterGap_close : q.close.counterGap = q.counterGap := rfl

end Gap

theorem step_counterGap {q q' : BoundedQueue C α} {op : QueueOp α} {r : Reply α}
    (h : q.step op = some (r, q')) : q'.counterGap = (q.counterGap + op.unmoved r) % 2 ^ 64 := by
  have := q.counterGap_bounds
  cases op <;>
    simp only [step, push, tryPush, pushFor, pop, tryPop, popFor, pushCommit, popCommit,
      Option.map_eq_some', Option.some.injEq, Prod.mk.injEq, mapStats_size, mapStats_closed] at h
  case push | pop =>
    obtain ⟨a, ha, rfl, rfl⟩ := h
    split_ifs at ha <;> cases ha <;>
      simp (disch := assumption) only [QueueOp.unmoved, counterGap_store, counterGap_take,
        counterGap_countPush, counterGap_countPop] <;> omega
  all_goals
    (try split_ifs at h) <;> obtain ⟨rfl, rfl⟩ := h <;>
      simp (disch := assumption) only [QueueOp.unmoved, counterGap_store, counterGap_take,
        counterGap_countPush, counterGap_countPop, counterGap_countPushBlocked,
        counterGap_countPopBlocked, counterGap_close] <;> omega

/-- **A run moves the gap by what its calls count without moving an event**, modulo `2 ^ 64`. -/
theorem exec_counterGap {q q' : BoundedQueue C α} {ops : List (QueueOp α)} {rs : List (Reply α)}
    (h : q.exec ops = some (rs, q')) :
    q'.counterGap = (q.counterGap + (List.zipWith QueueOp.unmoved ops rs).sum) % 2 ^ 64 := by
  induction ops generalizing q rs with
  | nil => cases h; simp [counterGap]
  | cons op ops ih =>
    obtain ⟨r, q₁, rs', h1, h2, rfl⟩ := exec_cons_eq_some h
    rw [ih h2, step_counterGap h1, List.zipWith_cons_cons, List.sum_cons]
    omega

/-- **What the two counters count.** On every run from a default-constructed queue,
`stats_.current_size = size_`, and `push_count - pop_count`, in `std::uint64_t` arithmetic, is
`size_` plus the `push` and `push_for` calls refused, minus the `pop` and `pop_for` calls that
returned `nullopt`: these count every call, `try_push` and `try_pop` only the events they move. -/
theorem init_exec_counters [Inhabited α] {ops : List (QueueOp α)} {rs : List (Reply α)}
    {q : BoundedQueue C α} (h : (init : BoundedQueue C α).exec ops = some (rs, q)) :
    q.stats.currentSize = q.size ∧
    ((q.stats.pushCount : ℤ) - q.stats.popCount) % 2 ^ 64 =
      (q.size + (List.zipWith QueueOp.unmoved ops rs).sum) % 2 ^ 64 := by
  refine ⟨(init_exec_ringInv h).1.currentSize_eq, ?_⟩
  have := exec_counterGap h
  simp only [counterGap, init] at this
  omega

/-- A `push` on a closed queue returns `false`, stores nothing and counts one push. -/
theorem init_exec_counters_closed_push :
    ∃ q, (init : BoundedQueue (Capacity.ofPow 1) ℕ).exec [.close, .push 7] =
        some ([.void, .pushed false], q) ∧
      q.stats.pushCount = 1 ∧ q.stats.popCount = 0 ∧ q.size = 0 ∧
      (q.stats.currentSize = q.size ∧
        ((q.stats.pushCount : ℤ) - q.stats.popCount) % 2 ^ 64 =
          (q.size + (List.zipWith QueueOp.unmoved [.close, .push 7]
            [.void, .pushed false]).sum) % 2 ^ 64) :=
  ⟨_, rfl, rfl, rfl, rfl, init_exec_counters rfl⟩

end BoundedQueue

end KLStream
