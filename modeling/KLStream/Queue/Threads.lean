import KLStream.Queue.Invariant

/-!
# Queue/Threads — the threads of a queue, with `mutex_` and the two condition variables

Each thread calling the queue is in one `Phase`: idle, in the wait set of `not_full_` or
`not_empty_`, woken and not yet holding `mutex_` again, past `unlock()` with its `notify_one` to do,
or past `close()`'s critical section with its `notify_all`s to do. `QueueSystem.Step` is one
critical section under `mutex_` or one notify:

* `BoundedQueue.enter` — the first critical section of each call, and `BoundedQueue.retest` — a
  woken thread's test of its wait condition;
* `retest_cases`, `enter_cases` — what these do to the ring and to the caller, said once, so that
  the invariants over whole interleavings (`Queue/Wakeup`) never unfold them.
-/

namespace KLStream

/-- The two condition variables of a queue. -/
inductive Cv where
  | notFull
  | notEmpty
  deriving DecidableEq, Repr

variable {C : Capacity} {α : Type}

/-- A call that can wait: `push` and `push_for` on `not_full_`, `pop` and `pop_for` on
`not_empty_`. -/
inductive BlockingCall (α : Type) where
  | push (e : α)
  | pushFor (e : α)
  | pop
  | popFor

/-- The condition variable a blocking call waits on. -/
def BlockingCall.cv : BlockingCall α → Cv
  | .push _ | .pushFor _ => .notFull
  | .pop | .popFor => .notEmpty

/-- `push_for` and `pop_for` wait with a deadline. -/
def BlockingCall.timed : BlockingCall α → Bool
  | .pushFor _ | .popFor => true
  | .push _ | .pop => false

/-- Where a thread stands with respect to one queue. -/
inductive Phase (α : Type) where
  /-- Outside any call of the queue; it may start one. -/
  | idle
  /-- In the wait set of `call.cv`, `mutex_` released by the wait. -/
  | waiting (call : BlockingCall α)
  /-- Out of the wait set — notified, woken spuriously, or (`timedOut`) at its deadline — and not
  yet holding `mutex_` again. -/
  | woken (call : BlockingCall α) (timedOut : Bool)
  /-- Past `lock.unlock()` of a `push`/`push_for` that stored (`notifying .notEmpty`) or of a
  `pop`/`pop_for` that took (`notifying .notFull`), before its `notify_one`. -/
  | notifying (cv : Cv)
  /-- Past `close()`'s critical section, before its `notify_all` on `cv` (`not_full_` first, then
  `not_empty_`). -/
  | closing (cv : Cv)

/-- A queue and the threads that use it. -/
structure QueueSystem (C : Capacity) (α : Type) where
  queue : BoundedQueue C α
  threads : List (Phase α)

/-- The wait condition of `cv`'s loop: a push waits while full and open, a pop while empty and
open. -/
def BoundedQueue.Blocks (q : BoundedQueue C α) : Cv → Prop
  | .notFull => q.size = C.val ∧ q.closed = false
  | .notEmpty => q.size = 0 ∧ q.closed = false

namespace BoundedQueue

/-- The phase of a push once `pushCommit` has run: `notify_one` on `not_empty_` still to do after a
store, returned after a refusal. -/
def pushDone (r : Bool × BoundedQueue C α) : Phase α × BoundedQueue C α :=
  (if r.1 then .notifying .notEmpty else .idle, r.2)

/-- The phase of a pop once `popCommit` has run. -/
def popDone (r : Option α × BoundedQueue C α) : Phase α × BoundedQueue C α :=
  (if r.1.isSome then .notifying .notFull else .idle, r.2)

/-- **One test of a blocking call's wait**, under `mutex_`: back into the wait set, or finish the
call. `push`/`pop` loop on their condition, counting each wait; `push_for`/`pop_for` go through
`wait_for`, which after the deadline (`timedOut`) returns its predicate as it now stands. -/
def retest (q : BoundedQueue C α) : BlockingCall α → Bool → Phase α × BoundedQueue C α
  | .push e, _ =>
    if q.size = C.val ∧ q.closed = false then
      (.waiting (.push e), q.mapStats QueueStats.countPushBlocked)
    else pushDone (q.pushCommit e)
  | .pushFor e, timedOut =>
    if q.size < C.val ∨ q.closed then pushDone (q.pushCommit e)
    else if timedOut then (.idle, q.mapStats QueueStats.countPushBlocked)
    else (.waiting (.pushFor e), q)
  | .pop, _ =>
    if q.size = 0 ∧ q.closed = false then (.waiting .pop, q.mapStats QueueStats.countPopBlocked)
    else popDone q.popCommit
  | .popFor, timedOut =>
    if 0 < q.size ∨ q.closed then popDone q.popCommit
    else if timedOut then (.idle, q.mapStats QueueStats.countPopBlocked)
    else (.waiting .popFor, q)

/-- **A call's first critical section**: the caller's phase after it, the queue, and the condition
variable it notifies before releasing `mutex_` (`try_push` and `try_pop` do). -/
def enter (q : BoundedQueue C α) : QueueOp α → (Phase α × BoundedQueue C α) × Option Cv
  | .push e => ((q.mapStats QueueStats.countPush).retest (.push e) false, none)
  | .pushFor e => ((q.mapStats QueueStats.countPush).retest (.pushFor e) false, none)
  | .pop => ((q.mapStats QueueStats.countPop).retest .pop false, none)
  | .popFor => ((q.mapStats QueueStats.countPop).retest .popFor false, none)
  | .tryPush e => ((.idle, (q.tryPush e).2), if (q.tryPush e).1 then some .notEmpty else none)
  | .tryPop => ((.idle, q.tryPop.2), if q.tryPop.1.isSome then some .notFull else none)
  | .close => ((.closing .notFull, q.close), none)

end BoundedQueue

namespace Phase

/-- Waiting on `cv`. -/
def isWaiting (cv : Cv) : Phase α → Bool
  | .waiting c => c.cv = cv
  | _ => false

/-- `notify_all` on `cv`, as one thread sees it. -/
def wakeOn (cv : Cv) : Phase α → Phase α
  | .waiting c => if c.cv = cv then .woken c false else .waiting c
  | p => p

end Phase

/-- **`notify_one` on `cv`**: one thread of its wait set, if there is one, leaves it. -/
inductive NotifyOne (cv : Cv) : List (Phase α) → List (Phase α) → Prop
  | wake {ts : List (Phase α)} {j : ℕ} {c : BlockingCall α} :
      ts[j]? = some (.waiting c) → c.cv = cv → NotifyOne cv ts (ts.set j (.woken c false))
  | empty {ts : List (Phase α)} : (∀ p ∈ ts, p.isWaiting cv = false) → NotifyOne cv ts ts

/-- A `notify_one` that a call may or may not make. -/
def NotifyIf (n : Option Cv) (ts ts' : List (Phase α)) : Prop :=
  match n with
  | none => ts' = ts
  | some cv => NotifyOne cv ts ts'

/-- **The steps of the threads.** Each critical section is one step (`mutex_` makes it atomic);
`wait` releases `mutex_` and joins the wait set in the same step. -/
inductive QueueSystem.Step : QueueSystem C α → QueueSystem C α → Prop
  /-- An idle thread starts a call and runs its first critical section. -/
  | enter {q : BoundedQueue C α} {ts ts' : List (Phase α)} {i : ℕ} {op : QueueOp α}
      {p : Phase α} {q' : BoundedQueue C α} {n : Option Cv} :
      ts[i]? = some .idle → q.enter op = ((p, q'), n) → NotifyIf n (ts.set i p) ts' →
      Step ⟨q, ts⟩ ⟨q', ts'⟩
  /-- A waiting thread leaves its wait set on its own: a spurious wakeup, or the deadline of a
  timed call. -/
  | wake {q : BoundedQueue C α} {ts : List (Phase α)} {i : ℕ} {c : BlockingCall α} {t : Bool} :
      ts[i]? = some (.waiting c) → (t = true → c.timed = true) →
      Step ⟨q, ts⟩ ⟨q, ts.set i (.woken c t)⟩
  /-- A woken thread reacquires `mutex_` and tests again. -/
  | reacquire {q : BoundedQueue C α} {ts : List (Phase α)} {i : ℕ} {c : BlockingCall α}
      {t : Bool} {p : Phase α} {q' : BoundedQueue C α} :
      ts[i]? = some (.woken c t) → q.retest c t = (p, q') → Step ⟨q, ts⟩ ⟨q', ts.set i p⟩
  /-- A thread past `unlock()` makes its `notify_one` and returns. -/
  | notify {q : BoundedQueue C α} {ts ts' : List (Phase α)} {i : ℕ} {cv : Cv} :
      ts[i]? = some (.notifying cv) → NotifyOne cv (ts.set i .idle) ts' →
      Step ⟨q, ts⟩ ⟨q, ts'⟩
  /-- `close()` makes one of its `notify_all`s. -/
  | notifyAll {q : BoundedQueue C α} {ts : List (Phase α)} {i : ℕ} {cv : Cv} :
      ts[i]? = some (.closing cv) →
      Step ⟨q, ts⟩ ⟨q, (ts.map (Phase.wakeOn cv)).set i
        (if cv = .notFull then .closing .notEmpty else .idle)⟩

/-- The states reachable from a default-constructed queue and `n` idle threads. -/
inductive QueueSystem.Reachable [Inhabited α] : QueueSystem C α → Prop
  | init (n : ℕ) : Reachable ⟨.init, List.replicate n .idle⟩
  | step {s s' : QueueSystem C α} : Reachable s → Step s s' → Reachable s'

/-! ## What one step does -/

namespace BoundedQueue

variable {q q' : BoundedQueue C α}

theorem pushDone_pushCommit (e : α) :
    pushDone (q.pushCommit e) =
      if q.closed then (.idle, q) else (.notifying .notEmpty, q.enqueue e) := by
  by_cases h : q.closed <;> simp [pushDone, pushCommit, h]

theorem popDone_popCommit :
    popDone q.popCommit =
      if q.size = 0 then (.idle, q) else (.notifying .notFull, q.dequeue) := by
  by_cases h : q.size = 0 <;> simp [popDone, popCommit, h]

/-- **What one test of a wait does**: go back into the wait set (the wait condition holds), return
(the queue is closed, or at the limit after a timeout), store (a push), or take (a pop). -/
theorem retest_cases (hq : q.RingInv) {c : BlockingCall α} {t : Bool} {p : Phase α}
    (h : q.retest c t = (p, q')) :
    RingMove q q' ∧
    ((p = .waiting c ∧ q.Blocks c.cv ∧ q'.size = q.size ∧ q'.closed = q.closed) ∨
     (p = .idle ∧ (q.closed = false → q.Blocks c.cv) ∧ q'.size = q.size ∧ q'.closed = q.closed) ∨
     (c.cv = .notFull ∧ p = .notifying .notEmpty ∧ q.closed = false ∧ q.size ≠ C.val ∧
       q'.size = q.size + 1 ∧ q'.closed = false) ∨
     (c.cv = .notEmpty ∧ p = .notifying .notFull ∧ q.size ≠ 0 ∧ q'.size + 1 = q.size ∧
       q'.closed = q.closed)) := by
  have hid : RingMove q q := .count id countersOnly_id
  have hle := hq.size_le
  cases c with
  | push e =>
    simp only [retest, pushDone_pushCommit] at h
    split_ifs at h with h1 h2 <;> cases h
    · exact ⟨.count _ countersOnly_countPushBlocked, .inl ⟨rfl, h1, rfl, rfl⟩⟩
    · exact ⟨hid, .inr (.inl ⟨rfl, by simp [h2], rfl, rfl⟩)⟩
    · have h2 : q.closed = false := by simpa using h2
      have hs : q.size ≠ C.val := fun hs => h1 ⟨hs, h2⟩
      exact ⟨.store id e countersOnly_id hs h2,
        .inr (.inr (.inl ⟨rfl, rfl, h2, hs, rfl, h2⟩))⟩
  | pushFor e =>
    simp only [retest, pushDone_pushCommit] at h
    split_ifs at h with h1 h2 h2 <;> cases h
    · exact ⟨hid, .inr (.inl ⟨rfl, by simp [h2], rfl, rfl⟩)⟩
    · have h2 : q.closed = false := by simpa using h2
      have hs : q.size ≠ C.val := by
        simp only [h2, Bool.false_eq_true, or_false] at h1; omega
      exact ⟨.store id e countersOnly_id hs h2,
        .inr (.inr (.inl ⟨rfl, rfl, h2, hs, rfl, h2⟩))⟩
    all_goals
      have hb : q.Blocks .notFull := by
        simp only [not_or, Bool.not_eq_true] at h1; exact ⟨by omega, h1.2⟩
    · exact ⟨.count _ countersOnly_countPushBlocked, .inr (.inl ⟨rfl, fun _ => hb, rfl, rfl⟩)⟩
    · exact ⟨hid, .inl ⟨rfl, hb, rfl, rfl⟩⟩
  | pop =>
    simp only [retest, popDone_popCommit] at h
    split_ifs at h with h1 h2 <;> cases h
    · exact ⟨.count _ countersOnly_countPopBlocked, .inl ⟨rfl, h1, rfl, rfl⟩⟩
    · exact ⟨hid, .inr (.inl ⟨rfl, fun hc => ⟨h2, hc⟩, rfl, rfl⟩)⟩
    · exact ⟨.take id countersOnly_id h2, .inr (.inr (.inr ⟨rfl, rfl, h2, by
        show q.size - 1 + 1 = q.size; omega, rfl⟩))⟩
  | popFor =>
    simp only [retest, popDone_popCommit] at h
    split_ifs at h with h1 h2 h2 <;> cases h
    · exact ⟨hid, .inr (.inl ⟨rfl, fun hc => ⟨h2, hc⟩, rfl, rfl⟩)⟩
    · exact ⟨.take id countersOnly_id h2, .inr (.inr (.inr ⟨rfl, rfl, h2, by
        show q.size - 1 + 1 = q.size; omega, rfl⟩))⟩
    all_goals
      have hb : q.Blocks .notEmpty := by
        simp only [not_or, Bool.not_eq_true] at h1; exact ⟨by omega, h1.2⟩
    · exact ⟨.count _ countersOnly_countPopBlocked, .inr (.inl ⟨rfl, fun _ => hb, rfl, rfl⟩)⟩
    · exact ⟨hid, .inl ⟨rfl, hb, rfl, rfl⟩⟩

theorem enter_tryPush (e : α) :
    q.enter (.tryPush e) = if q.size = C.val ∨ q.closed then ((.idle, q), none)
      else ((.idle, (q.mapStats QueueStats.countPush).enqueue e), some .notEmpty) := by
  by_cases h : q.size = C.val ∨ q.closed <;> simp [enter, tryPush, h]

theorem enter_tryPop :
    q.enter .tryPop = if q.size = 0 then ((.idle, q), none)
      else ((.idle, (q.mapStats QueueStats.countPop).dequeue), some .notFull) := by
  by_cases h : q.size = 0 <;> simp [enter, tryPop, h]

/-- **What a call's first critical section does**: a blocking call counts itself and tests its
wait; `try_push`/`try_pop` return at once, after a store or take that they notify under the lock;
`close` sets the flag and goes on to its `notify_all`s. -/
theorem enter_cases {op : QueueOp α} {p : Phase α} {n : Option Cv}
    (h : q.enter op = ((p, q'), n)) :
    (∃ c f, CountersOnly f ∧ (q.mapStats f).retest c false = (p, q') ∧ n = none) ∨
    (p = .idle ∧ q' = q ∧ n = none) ∨
    (p = .idle ∧ RingMove q q' ∧ q.closed = false ∧ q.size ≠ C.val ∧ q'.size = q.size + 1 ∧
      q'.closed = false ∧ n = some .notEmpty) ∨
    (p = .idle ∧ RingMove q q' ∧ q.size ≠ 0 ∧ q'.size + 1 = q.size ∧ q'.closed = q.closed ∧
      n = some .notFull) ∨
    (p = .closing .notFull ∧ q' = q.close ∧ n = none) := by
  cases op with
  | push _ | pushFor _ =>
    exact .inl ⟨_, _, countersOnly_countPush, (Prod.mk.inj h).1, (Prod.mk.inj h).2.symm⟩
  | pop | popFor =>
    exact .inl ⟨_, _, countersOnly_countPop, (Prod.mk.inj h).1, (Prod.mk.inj h).2.symm⟩
  | tryPush e =>
    rw [enter_tryPush] at h
    split_ifs at h with h1 <;> cases h
    · exact .inr (.inl ⟨rfl, rfl, rfl⟩)
    · have h2 : q.closed = false := by simpa using (not_or.mp h1).2
      exact .inr (.inr (.inl ⟨rfl, .store _ e countersOnly_countPush (not_or.mp h1).1 h2, h2,
        (not_or.mp h1).1, rfl, h2, rfl⟩))
  | tryPop =>
    rw [enter_tryPop] at h
    split_ifs at h with h1 <;> cases h
    · exact .inr (.inl ⟨rfl, rfl, rfl⟩)
    · exact .inr (.inr (.inr (.inl ⟨rfl, .take _ countersOnly_countPop h1, h1,
        by show q.size - 1 + 1 = q.size; omega, rfl, rfl⟩)))
  | close => cases h; exact .inr (.inr (.inr (.inr ⟨rfl, rfl, rfl⟩)))

end BoundedQueue

end KLStream
