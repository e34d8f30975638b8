import KLStream.Queue.Ring

/-!
# Queue/Fifo — the bounded FIFO channel a `BoundedQueue` is for

The abstract model: a list of events, front first, never longer than the capacity (`Fifo` carries
the bound), and a closed flag. A push appends when the channel is open and has room and is refused
otherwise; a pop returns and removes the front; the blocking variants wait — on a full open channel
for a push, on an empty open one for a pop.

`exec_items` is the channel's law over whole runs: what was in it, then everything pushes got in,
equals everything pops got out, then what is left. `Queue/Refinement` carries it to the ring.
-/

namespace KLStream

/-- **A bounded FIFO channel** of capacity `n`: its events, front first, and the closed flag. -/
@[ext] structure Fifo (n : ℕ) (α : Type) where
  items : List α
  closed : Bool
  length_le : items.length ≤ n

variable {α : Type}

/-- The event a push-family call moves in. -/
def QueueOp.event? : QueueOp α → Option α
  | .push e | .tryPush e | .pushFor e => some e
  | _ => none

/-- The event a call got into the queue: its own, for a push-family call that returned `true`. -/
def QueueOp.pushedEvent (op : QueueOp α) : Reply α → List α
  | .pushed true => op.event?.toList
  | _ => []

/-- The event a call got out of the queue. -/
def Reply.poppedEvent : Reply α → List α
  | .popped (some e) => [e]
  | _ => []

/-- **The events a run's successful pushes got in**, in order. -/
def accepted : List (QueueOp α) → List (Reply α) → List α
  | op :: ops, r :: rs => op.pushedEvent r ++ accepted ops rs
  | _, _ => []

/-- **The events a run's successful pops got out**, in order. -/
def popped : List (Reply α) → List α
  | [] => []
  | r :: rs => r.poppedEvent ++ popped rs

namespace Fifo

variable {n : ℕ}

/-- A push that does not wait: append when open and not full, refuse otherwise. -/
def offer (s : Fifo n α) (e : α) : Reply α × Fifo n α :=
  if h : s.closed = false ∧ s.items.length < n then
    (.pushed true, ⟨s.items ++ [e], s.closed, by simp only [List.length_append, List.length_singleton]; omega⟩)
  else (.pushed false, s)

/-- A pop that does not wait: return and remove the front (`nullopt` when there is none). -/
def take (s : Fifo n α) : Reply α × Fifo n α :=
  (.popped s.items.head?, ⟨s.items.tail, s.closed, by
    simp only [List.length_tail]; have := s.length_le; omega⟩)

/-- **The channel's seven calls.** `push` and `pop` wait (`none`) where the ring's do; the timed
calls, taken when their wait ends, behave as the non-blocking ones. -/
def step (s : Fifo n α) : QueueOp α → Option (Reply α × Fifo n α)
  | .push e => if s.items.length = n ∧ s.closed = false then none else some (s.offer e)
  | .tryPush e | .pushFor e => some (s.offer e)
  | .pop => if s.items.length = 0 ∧ s.closed = false then none else some s.take
  | .tryPop | .popFor => some s.take
  | .close => some (.void, { s with closed := true })

/-- A sequence of calls on the channel. -/
def exec (s : Fifo n α) (ops : List (QueueOp α)) : Option (List (Reply α) × Fifo n α) :=
  runCalls step s ops

theorem offer_items (s : Fifo n α) {e : α} {op : QueueOp α} (he : op.event? = some e) :
    s.items ++ op.pushedEvent (s.offer e).1 = (s.offer e).1.poppedEvent ++ (s.offer e).2.items := by
  unfold offer; split <;> simp [QueueOp.pushedEvent, Reply.poppedEvent, he]

theorem take_items (s : Fifo n α) (op : QueueOp α) :
    s.items ++ op.pushedEvent s.take.1 = s.take.1.poppedEvent ++ s.take.2.items := by
  cases h : s.items <;> simp [take, h, QueueOp.pushedEvent, Reply.poppedEvent]

/-- One call: what was there, then what it got in, is what it got out, then what is left. -/
theorem step_items {s : Fifo n α} {op : QueueOp α} {p : Reply α × Fifo n α}
    (h : s.step op = some p) : s.items ++ op.pushedEvent p.1 = p.1.poppedEvent ++ p.2.items := by
  cases op <;> simp only [step] at h <;> (try split_ifs at h) <;> cases h
  all_goals first
    | exact offer_items s rfl
    | exact take_items s _
    | simp [QueueOp.pushedEvent, Reply.poppedEvent]

/-- **The FIFO law of a run.** -/
theorem exec_items {s s' : Fifo n α} {ops : List (QueueOp α)} {rs : List (Reply α)}
    (h : s.exec ops = some (rs, s')) : s.items ++ accepted ops rs = popped rs ++ s'.items := by
  induction ops generalizing s rs with
  | nil => cases h; simp [accepted, popped]
  | cons op ops ih =>
    obtain ⟨r, s₁, rs', h1, h2, rfl⟩ := runCalls_cons_eq_some h
    have := step_items h1
    simp only [accepted, popped, List.append_assoc, ← ih h2]
    rw [← List.append_assoc, this, List.append_assoc]

/-- On a closed channel no call waits, the channel stays closed and no push gets anything in. -/
theorem step_of_closed (s : Fifo n α) (hc : s.closed = true) (op : QueueOp α) :
    ∃ p, s.step op = some p ∧ p.2.closed = true ∧ op.pushedEvent p.1 = [] := by
  cases op <;> simp [step, offer, take, hc, QueueOp.pushedEvent]

end Fifo

end KLStream
