import Mathlib.Algebra.Group.Nat.Basic
import Mathlib.Data.Nat.Defs
import Mathlib.Logic.Function.Basic

/-!
# Queue/Ring — `BoundedQueue<Capacity>`, the ring under one mutex

`BoundedQueue` (`core/queue.hpp`) keeps its events in a ring of `Capacity` cells: `head_` is the
next cell to read, `tail_` the next to write, `size_` the number held and `closed_` the one-way end
flag. Every public call runs under `mutex_`, so a call that does not wait is one atomic `step` of
the state; a call that must wait on `not_full_` or `not_empty_` is taken at the critical section in
which it completes (the waiting itself, wait sets and notifications, is `Queue/Wakeup`).

* `Capacity` — a template argument that passes the two `static_assert`s; `mask_eq_mod` is what
  they buy: the index update `(x + 1) & (Capacity - 1)` is `(x + 1) mod Capacity`.
* `enqueue` / `dequeue` — the stores shared by the three pushes and the three pops.
* `step` — one call (`none`: it would wait); `exec` — a sequence of calls.
-/

namespace KLStream

/-- **A `BoundedQueue` capacity**: a `Capacity` template argument that passes both
`static_assert`s, `(Capacity & (Capacity - 1)) == 0` and `Capacity > 0`. -/
structure Capacity where
  val : ℕ
  pow2 : val &&& (val - 1) = 0
  pos : 0 < val

namespace Capacity

/-- **The `static_assert`s admit exactly the powers of two** — the top bit of a capacity that is
not a power of two survives in `Capacity - 1`. -/
theorem exists_eq_two_pow (C : Capacity) : ∃ k, C.val = 2 ^ k := by
  refine ⟨C.val.log2, ?_⟩
  have hle := Nat.log2_self_le (Nat.pos_iff_ne_zero.mp C.pos)
  have hlt : C.val < 2 ^ C.val.log2 * 2 := Nat.pow_succ .. ▸ Nat.lt_log2_self
  obtain ⟨r, hr⟩ := Nat.exists_eq_add_of_le hle
  by_contra hne
  have hbit : ∀ x < 2 ^ C.val.log2, (2 ^ C.val.log2 + x).testBit C.val.log2 = true := fun x hx => by
    rw [Nat.testBit_two_pow_add_eq, Nat.testBit_lt_two_pow hx]; rfl
  have h1 : C.val.testBit C.val.log2 = true := by
    have := hbit r (by omega)
    rwa [← hr] at this
  have h2 : (C.val - 1).testBit C.val.log2 = true := by
    rw [show C.val - 1 = 2 ^ C.val.log2 + (r - 1) by omega]
    exact hbit _ (by omega)
  simpa [h1, h2] using congrArg (Nat.testBit · C.val.log2) C.pow2

/-- **Masking is reduction mod the capacity.** -/
theorem mask_eq_mod (C : Capacity) (x : ℕ) : x &&& (C.val - 1) = x % C.val := by
  obtain ⟨k, hk⟩ := C.exists_eq_two_pow
  rw [hk, Nat.and_pow_two_sub_one_eq_mod]

/-- The capacity `2 ^ k`; `Queue` is `BoundedQueue<4096>`, `ofPow 12`. -/
def ofPow (k : ℕ) : Capacity :=
  ⟨2 ^ k, by rw [Nat.and_pow_two_sub_one_eq_mod, Nat.mod_self], Nat.two_pow_pos k⟩

@[simp] theorem ofPow_val (k : ℕ) : (ofPow k).val = 2 ^ k := rfl

end Capacity

/-- `std::size_t` and `std::uint64_t` arithmetic: a value modulo `2 ^ 64`. -/
def wrap64 (x : ℕ) : ℕ := x % 2 ^ 64

theorem wrap64_lt (x : ℕ) : wrap64 x < 2 ^ 64 := Nat.mod_lt _ (Nat.two_pow_pos 64)

theorem wrap64_of_lt {x : ℕ} (h : x < 2 ^ 64) : wrap64 x = x := Nat.mod_eq_of_lt h

theorem wrap64_add_wrap64 (a b : ℕ) : wrap64 (wrap64 a + b) = wrap64 (a + b) :=
  Nat.mod_add_mod _ _ _

/-- `QueueStats` as `stats_` holds it. The four counters are `std::uint64_t` and wrap; its
`capacity` field is filled in only on the copy that `stats()` returns, which no modelled call
reads. -/
structure QueueStats where
  pushCount : ℕ := 0
  popCount : ℕ := 0
  pushBlockedCount : ℕ := 0
  popBlockedCount : ℕ := 0
  currentSize : ℕ := 0
  highWatermark : ℕ := 0
  deriving DecidableEq, Repr

namespace QueueStats

/-- `stats_.push_count++`. -/
def countPush (s : QueueStats) : QueueStats := { s with pushCount := wrap64 (s.pushCount + 1) }

/-- `stats_.pop_count++`. -/
def countPop (s : QueueStats) : QueueStats := { s with popCount := wrap64 (s.popCount + 1) }

/-- `stats_.push_blocked_count++`. -/
def countPushBlocked (s : QueueStats) : QueueStats :=
  { s with pushBlockedCount := wrap64 (s.pushBlockedCount + 1) }

/-- `stats_.pop_blocked_count++`. -/
def countPopBlocked (s : QueueStats) : QueueStats :=
  { s with popBlockedCount := wrap64 (s.popBlockedCount + 1) }

end QueueStats

/-- **`BoundedQueue<Capacity>`'s state**: `buffer_` as a function of the cell index (only cells
below the capacity are ever read or written, `Queue/Invariant`), `head_`, `tail_`, `size_`,
`closed_` and `stats_`. -/
structure BoundedQueue (C : Capacity) (α : Type) where
  buffer : ℕ → α
  head : ℕ
  tail : ℕ
  size : ℕ
  closed : Bool
  stats : QueueStats

/-- A call on a queue, with the event a push moves in. -/
inductive QueueOp (α : Type) where
  | push (e : α)
  | tryPush (e : α)
  | pushFor (e : α)
  | pop
  | tryPop
  | popFor
  | close
  deriving DecidableEq, Repr

/-- What a call returns: a push its `bool`, a pop its `std::optional<Event>`, `close` nothing. -/
inductive Reply (α : Type) where
  | pushed (ok : Bool)
  | popped (r : Option α)
  | void
  deriving DecidableEq, Repr

variable {C : Capacity} {α : Type}

/-- A sequence of calls on any model of a queue given by its one-call `step`: the replies and the
final state, or `none` at the first call that would wait. -/
def runCalls {σ : Type} (step : σ → QueueOp α → Option (Reply α × σ)) (s : σ) :
    List (QueueOp α) → Option (List (Reply α) × σ)
  | [] => some ([], s)
  | op :: ops => (step s op).bind fun p => (runCalls step p.2 ops).map fun t => (p.1 :: t.1, t.2)

section RunCalls

variable {σ τ : Type}

@[simp] theorem runCalls_nil (step : σ → QueueOp α → Option (Reply α × σ)) (s : σ) :
    runCalls step s [] = some ([], s) := rfl

/-- A run splits at its first call. -/
theorem runCalls_cons_eq_some {step : σ → QueueOp α → Option (Reply α × σ)} {s s' : σ} {op : QueueOp α} {ops : List (QueueOp α)}
    {rs : List (Reply α)} (h : runCalls step s (op :: ops) = some (rs, s')) :
    ∃ r s₁ rs', step s op = some (r, s₁) ∧ runCalls step s₁ ops = some (rs', s') ∧
      rs = r :: rs' := by
  simp only [runCalls, Option.bind_eq_some, Option.map_eq_some'] at h
  obtain ⟨⟨r, s₁⟩, h1, ⟨rs', s₂⟩, h2, h3⟩ := h
  cases h3
  exact ⟨r, s₁, rs', h1, h2, rfl⟩

theorem runCalls_cons_of_eq_some {step : σ → QueueOp α → Option (Reply α × σ)} {s s₁ : σ} {op : QueueOp α} {ops : List (QueueOp α)} {r : Reply α}
    (h : step s op = some (r, s₁)) :
    runCalls step s (op :: ops) = (runCalls step s₁ ops).map fun t => (r :: t.1, t.2) := by
  simp [runCalls, h]

/-- **Forward simulation**: a relation that every call of `step` carries to a call of `step'` with the
same reply is carried along whole runs. -/
theorem runCalls_sim (step : σ → QueueOp α → Option (Reply α × σ))
    (step' : τ → QueueOp α → Option (Reply α × τ)) (R : σ → τ → Prop)
    (hstep : ∀ s t op r s', R s t → step s op = some (r, s') →
      ∃ t', step' t op = some (r, t') ∧ R s' t')
    {s s' : σ} {t : τ} {ops : List (QueueOp α)} {rs : List (Reply α)} (hR : R s t)
    (h : runCalls step s ops = some (rs, s')) :
    ∃ t', runCalls step' t ops = some (rs, t') ∧ R s' t' := by
  induction ops generalizing s t rs with
  | nil => cases h; exact ⟨t, rfl, hR⟩
  | cons op ops ih =>
    obtain ⟨r, s₁, rs', h1, h2, rfl⟩ := runCalls_cons_eq_some h
    obtain ⟨t₁, ht₁, hR₁⟩ := hstep _ _ _ _ _ hR h1
    obtain ⟨t', ht', hR'⟩ := ih hR₁ h2
    exact ⟨t', by simp [runCalls_cons_of_eq_some ht₁, ht'], hR'⟩

end RunCalls

namespace BoundedQueue

/-- `BoundedQueue()`: empty and open, every cell default-constructed, all counters zero. -/
def init [Inhabited α] : BoundedQueue C α where
  buffer _ := default
  head := 0
  tail := 0
  size := 0
  closed := false
  stats := {}

/-- The next ring index, `(i + 1) & (Capacity - 1)`. -/
def advance (C : Capacity) (i : ℕ) : ℕ := (i + 1) &&& (C.val - 1)

theorem advance_eq (i : ℕ) : advance C i = (i + 1) % C.val := C.mask_eq_mod _

/-- A counter update on `stats_`. -/
def mapStats (f : QueueStats → QueueStats) (q : BoundedQueue C α) : BoundedQueue C α :=
  { q with stats := f q.stats }

/-- **The store every successful push makes**: `buffer_[tail_] = event`, advance `tail_`, grow
`size_`, raise the high watermark, record the current size. -/
def enqueue (q : BoundedQueue C α) (e : α) : BoundedQueue C α where
  buffer := Function.update q.buffer q.tail e
  head := q.head
  tail := advance C q.tail
  size := q.size + 1
  closed := q.closed
  stats := { q.stats with
    highWatermark := if q.size + 1 > q.stats.highWatermark then q.size + 1
      else q.stats.highWatermark
    currentSize := q.size + 1 }

/-- The event a pop moves out, `buffer_[head_]`. -/
def front (q : BoundedQueue C α) : α := q.buffer q.head

/-- **The removal every successful pop makes**: advance `head_`, shrink `size_`, record the current
size. The moved-from cell is left as it is; it is not read again before a push overwrites it. -/
def dequeue (q : BoundedQueue C α) : BoundedQueue C α :=
  { q with
    head := advance C q.head
    size := q.size - 1
    stats := { q.stats with currentSize := q.size - 1 } }

/-! ## The seven calls -/

/-- The end of `push` and `push_for` once their wait is over: refuse on a closed queue, else store. -/
def pushCommit (q : BoundedQueue C α) (e : α) : Bool × BoundedQueue C α :=
  if q.closed then (false, q) else (true, q.enqueue e)

/-- The end of `pop` and `pop_for` once their wait is over: `nullopt` on an empty queue, else take
the front. -/
def popCommit (q : BoundedQueue C α) : Option α × BoundedQueue C α :=
  if q.size = 0 then (none, q) else (some q.front, q.dequeue)

/-- `push(event)`: count the call; while full and open it waits on `not_full_` (`none`); then
`pushCommit`. -/
def push (q : BoundedQueue C α) (e : α) : Option (Bool × BoundedQueue C α) :=
  let q := q.mapStats QueueStats.countPush
  if q.size = C.val ∧ q.closed = false then none else some (q.pushCommit e)

/-- `try_push(event)`: refuse when full or closed, otherwise count and store. -/
def tryPush (q : BoundedQueue C α) (e : α) : Bool × BoundedQueue C α :=
  if q.size = C.val ∨ q.closed then (false, q)
  else (true, (q.mapStats QueueStats.countPush).enqueue e)

/-- `push_for(event, timeout)`: count the call; `wait_for` returns the predicate
`size_ < Capacity || closed_` as it stands when the wait ends. False: the call timed out (counted as
blocked); true: `pushCommit`. -/
def pushFor (q : BoundedQueue C α) (e : α) : Bool × BoundedQueue C α :=
  let q := q.mapStats QueueStats.countPush
  if q.size < C.val ∨ q.closed then q.pushCommit e
  else (false, q.mapStats QueueStats.countPushBlocked)

/-- `pop()`: count the call; while empty and open it waits on `not_empty_` (`none`); then
`popCommit`. -/
def pop (q : BoundedQueue C α) : Option (Option α × BoundedQueue C α) :=
  let q := q.mapStats QueueStats.countPop
  if q.size = 0 ∧ q.closed = false then none else some q.popCommit

/-- `try_pop()`: `nullopt` when empty, otherwise count and take the front. -/
def tryPop (q : BoundedQueue C α) : Option α × BoundedQueue C α :=
  if q.size = 0 then (none, q)
  else (some q.front, (q.mapStats QueueStats.countPop).dequeue)

/-- `pop_for(timeout)`: count the call; `wait_for` returns `size_ > 0 || closed_` as it stands when
the wait ends. False: timed out (counted as blocked); true: `popCommit`. -/
def popFor (q : BoundedQueue C α) : Option α × BoundedQueue C α :=
  let q := q.mapStats QueueStats.countPop
  if 0 < q.size ∨ q.closed then q.popCommit
  else (none, q.mapStats QueueStats.countPopBlocked)

/-- `close()`: set `closed_`; the broadcasts on both condition variables are `Queue/Wakeup`'s. -/
def close (q : BoundedQueue C α) : BoundedQueue C α := { q with closed := true }

/-- **One call, atomic under `mutex_`**; `none` when the call would wait. -/
def step (q : BoundedQueue C α) : QueueOp α → Option (Reply α × BoundedQueue C α)
  | .push e => (q.push e).map fun r => (.pushed r.1, r.2)
  | .tryPush e => some (.pushed (q.tryPush e).1, (q.tryPush e).2)
  | .pushFor e => some (.pushed (q.pushFor e).1, (q.pushFor e).2)
  | .pop => q.pop.map fun r => (.popped r.1, r.2)
  | .tryPop => some (.popped q.tryPop.1, q.tryPop.2)
  | .popFor => some (.popped q.popFor.1, q.popFor.2)
  | .close => some (.void, q.close)

/-- **A sequence of calls**, each the linearization point of one thread's call: the replies and the
final state, or `none` if some call would wait where it stands. -/
def exec (q : BoundedQueue C α) (ops : List (QueueOp α)) : Option (List (Reply α) × BoundedQueue C α) :=
  runCalls step q ops

/-- The states reachable from a default-constructed queue by completed calls. -/
inductive Reachable [Inhabited α] : BoundedQueue C α → Prop
  | init : Reachable init
  | step {q q' : BoundedQueue C α} {op : QueueOp α} {r : Reply α} :
      Reachable q → q.step op = some (r, q') → Reachable q'

/-! ## Field lemmas -/

section Fields

variable (q : BoundedQueue C α) (e : α) (f : QueueStats → QueueStats)

@[simp] theorem mapStats_buffer : (q.mapStats f).buffer = q.buffer := rfl
@[simp] theorem mapStats_head : (q.mapStats f).head = q.head := rfl
@[simp] theorem mapStats_tail : (q.mapStats f).tail = q.tail := rfl
@[simp] theorem mapStats_size : (q.mapStats f).size = q.size := rfl
@[simp] theorem mapStats_closed : (q.mapStats f).closed = q.closed := rfl
@[simp] theorem mapStats_stats : (q.mapStats f).stats = f q.stats := rfl
@[simp] theorem mapStats_mapStats (g : QueueStats → QueueStats) :
    (q.mapStats f).mapStats g = q.mapStats (g ∘ f) := rfl

@[simp] theorem enqueue_buffer : (q.enqueue e).buffer = Function.update q.buffer q.tail e := rfl
@[simp] theorem enqueue_head : (q.enqueue e).head = q.head := rfl
@[simp] theorem enqueue_tail : (q.enqueue e).tail = advance C q.tail := rfl
@[simp] theorem enqueue_size : (q.enqueue e).size = q.size + 1 := rfl
@[simp] theorem enqueue_closed : (q.enqueue e).closed = q.closed := rfl
@[simp] theorem enqueue_currentSize : (q.enqueue e).stats.currentSize = q.size + 1 := rfl
@[simp] theorem enqueue_pushCount : (q.enqueue e).stats.pushCount = q.stats.pushCount := rfl
@[simp] theorem enqueue_popCount : (q.enqueue e).stats.popCount = q.stats.popCount := rfl
@[simp] theorem enqueue_highWatermark :
    (q.enqueue e).stats.highWatermark = max q.stats.highWatermark (q.size + 1) := by
  simp only [enqueue]; split <;> omega

@[simp] theorem dequeue_buffer : q.dequeue.buffer = q.buffer := rfl
@[simp] theorem dequeue_head : q.dequeue.head = advance C q.head := rfl
@[simp] theorem dequeue_tail : q.dequeue.tail = q.tail := rfl
@[simp] theorem dequeue_size : q.dequeue.size = q.size - 1 := rfl
@[simp] theorem dequeue_closed : q.dequeue.closed = q.closed := rfl
@[simp] theorem dequeue_currentSize : q.dequeue.stats.currentSize = q.size - 1 := rfl
@[simp] theorem dequeue_pushCount : q.dequeue.stats.pushCount = q.stats.pushCount := rfl
@[simp] theorem dequeue_popCount : q.dequeue.stats.popCount = q.stats.popCount := rfl
@[simp] theorem dequeue_highWatermark :
    q.dequeue.stats.highWatermark = q.stats.highWatermark := rfl

@[simp] theorem close_buffer : q.close.buffer = q.buffer := rfl
@[simp] theorem close_head : q.close.head = q.head := rfl
@[simp] theorem close_tail : q.close.tail = q.tail := rfl
@[simp] theorem close_size : q.close.size = q.size := rfl
@[simp] theorem close_closed : q.close.closed = true := rfl
@[simp] theorem close_stats : q.close.stats = q.stats := rfl

end Fields

@[simp] theorem exec_nil (q : BoundedQueue C α) : q.exec [] = some ([], q) := rfl

/-- A run splits at its first call. -/
theorem exec_cons_eq_some {q q' : BoundedQueue C α} {op : QueueOp α} {ops : List (QueueOp α)}
    {rs : List (Reply α)} (h : q.exec (op :: ops) = some (rs, q')) :
    ∃ r q₁ rs', q.step op = some (r, q₁) ∧ q₁.exec ops = some (rs', q') ∧ rs = r :: rs' :=
  runCalls_cons_eq_some h

/-- Completed calls from a reachable state reach reachable states. -/
theorem Reachable.exec [Inhabited α] {q q' : BoundedQueue C α} {ops : List (QueueOp α)}
    {rs : List (Reply α)} (hq : q.Reachable) (h : q.exec ops = some (rs, q')) : q'.Reachable := by
  induction ops generalizing q rs with
  | nil => cases h; exact hq
  | cons op ops ih =>
    obtain ⟨r, q₁, rs', h1, h2, -⟩ := exec_cons_eq_some h
    exact ih (hq.step h1) h2

end BoundedQueue

end KLStream
