import KLStream.Queue.Invariant
import KLStream.Queue.Fifo
import Mathlib.Data.Nat.Defs

/-!
# Queue/Refinement — the ring refines the bounded FIFO channel

The ring in the invariant holds the channel `contents`: the cells `buffer_[(head_ + i) mod C]`
for `i < size_`, front first. Two view lemmas carry the proof — a store at `tail_` appends
(`contents_enqueue`: cells at distinct offsets below the capacity are distinct), and moving `head_`
drops the front (`contents_eq_cons`) — and give, call by call,

* `RingInv.step_refines` — every call of the ring has exactly the reply and the effect the channel's
  call has on `toFifo` (and the same calls wait);
* `init_exec_refines_fifo` — so in every run of a default-constructed queue the events the pops
  returned, then the contents, are the events the pushes got in.
-/

namespace KLStream

variable {α : Type} {C : Capacity}

namespace BoundedQueue

variable {q : BoundedQueue C α}

/-- **The channel a ring holds**: `buffer_[(head_ + i) mod C]` for `i < size_`, front first. -/
def contents (q : BoundedQueue C α) : List α :=
  (List.range q.size).map fun i => q.buffer ((q.head + i) % C.val)

@[simp] theorem length_contents (q : BoundedQueue C α) : q.contents.length = q.size := by
  simp [contents]

@[simp] theorem contents_mapStats (f : QueueStats → QueueStats) :
    (q.mapStats f).contents = q.contents := rfl

@[simp] theorem contents_close : q.close.contents = q.contents := rfl

/-- **A store at `tail_` appends** — the occupied cells sit at offsets below `size_ < C` from
`head_`, all distinct from `tail_`. -/
theorem RingInv.contents_enqueue (h : q.RingInv) (hs : q.size ≠ C.val) (e : α) :
    (q.enqueue e).contents = q.contents ++ [e] := by
  have hlt : q.size < C.val := Nat.lt_of_le_of_ne h.size_le hs
  simp only [contents, enqueue_size, enqueue_head, enqueue_buffer, List.range_succ,
    List.map_append, List.map_cons, List.map_nil]
  rw [← h.tail_eq, Function.update_same]
  congr 1
  refine List.map_congr_left fun i hi => Function.update_noteq (fun heq => ?_) _ _
  have hi : i < q.size := List.mem_range.mp hi
  rw [h.tail_eq] at heq
  have := Nat.sub_mod_eq_zero_of_mod_eq heq.symm
  rw [show q.head + q.size - (q.head + i) = q.size - i by omega,
    Nat.mod_eq_of_lt (by omega)] at this
  omega

/-- **Moving `head_` drops the front.** -/
theorem RingInv.contents_eq_cons (h : q.RingInv) (hs : q.size ≠ 0) :
    q.contents = q.front :: q.dequeue.contents := by
  obtain ⟨k, hk⟩ : ∃ k, q.size = k + 1 := ⟨q.size - 1, by omega⟩
  simp only [contents, hk, List.range_succ_eq_map, List.map_cons, List.map_map, dequeue_size,
    dequeue_head, dequeue_buffer, advance_eq, Nat.add_sub_cancel, Nat.add_zero,
    Nat.mod_eq_of_lt h.head_lt, front, List.cons.injEq, true_and]
  refine List.map_congr_left fun i _ => ?_
  simp only [Function.comp, Nat.mod_add_mod, Nat.succ_eq_add_one]
  congr 2; omega

/-- The channel a ring in the invariant holds. -/
def toFifo (q : BoundedQueue C α) (h : q.RingInv) : Fifo C.val α :=
  ⟨q.contents, q.closed, by simpa using h.size_le⟩

/-- What a call on the ring leaves observable: its reply, the contents and the closed flag. -/
def view (p : Reply α × BoundedQueue C α) : Reply α × List α × Bool :=
  (p.1, p.2.contents, p.2.closed)

end BoundedQueue

/-- What a call on the channel leaves observable. -/
def Fifo.view {n : ℕ} (p : Reply α × Fifo n α) : Reply α × List α × Bool :=
  (p.1, p.2.items, p.2.closed)

namespace BoundedQueue

variable {q : BoundedQueue C α}

@[simp] theorem contents_enqueue_mapStats (f : QueueStats → QueueStats) (e : α) :
    ((q.mapStats f).enqueue e).contents = (q.enqueue e).contents := rfl

@[simp] theorem contents_dequeue_mapStats (f : QueueStats → QueueStats) :
    (q.mapStats f).dequeue.contents = q.dequeue.contents := rfl

@[simp] theorem front_mapStats (f : QueueStats → QueueStats) : (q.mapStats f).front = q.front := rfl

@[simp] theorem toFifo_items (h : q.RingInv) : (q.toFifo h).items = q.contents := rfl

@[simp] theorem toFifo_closed (h : q.RingInv) : (q.toFifo h).closed = q.closed := rfl

theorem RingInv.size_lt_iff (h : q.RingInv) : q.size < C.val ↔ q.size ≠ C.val :=
  ⟨Nat.ne_of_lt, Nat.lt_of_le_of_ne h.size_le⟩

/-- The channel's `offer`, read on the ring. -/
theorem RingInv.toFifo_offer (h : q.RingInv) (e : α) :
    Fifo.view ((q.toFifo h).offer e) =
      if q.size = C.val ∨ q.closed then (.pushed false, q.contents, q.closed)
      else (.pushed true, q.contents ++ [e], q.closed) := by
  simp only [Fifo.offer, toFifo_items, toFifo_closed, length_contents, h.size_lt_iff]
  by_cases hc : q.closed <;> by_cases hs : q.size = C.val <;> simp [hc, hs, Fifo.view]

/-- The channel's `take`, read on the ring. -/
theorem RingInv.toFifo_take (h : q.RingInv) :
    Fifo.view (q.toFifo h).take =
      if q.size = 0 then (.popped none, q.contents, q.closed)
      else (.popped (some q.front), q.dequeue.contents, q.closed) := by
  split_ifs with hs
  · have : q.contents = [] := List.eq_nil_of_length_eq_zero (by simpa using hs)
    simp [Fifo.take, Fifo.view, toFifo, this]
  · simp [Fifo.take, Fifo.view, toFifo, h.contents_eq_cons hs]

/-- **Every call of the ring is the channel's call** — same reply, same contents and closed flag
after, and `none` (the call waits) exactly when the channel's call waits. -/
theorem RingInv.step_refines (h : q.RingInv) (op : QueueOp α) :
    (q.step op).map view = ((q.toFifo h).step op).map Fifo.view := by
  have hle := h.size_le
  cases op with
  | push e =>
    simp only [step, Fifo.step, push, pushCommit, toFifo_items, toFifo_closed, length_contents,
      mapStats_size, mapStats_closed]
    split_ifs <;> simp_all [h.toFifo_offer, view, h.contents_enqueue]
  | tryPush e =>
    simp only [step, Fifo.step, tryPush, Option.map_some']
    split_ifs <;> simp_all [h.toFifo_offer, view, h.contents_enqueue]
  | pushFor e =>
    simp only [step, Fifo.step, pushFor, pushCommit, mapStats_size, mapStats_closed,
      Option.map_some', h.size_lt_iff]
    split_ifs <;> simp_all [h.toFifo_offer, view, h.contents_enqueue]
  | pop =>
    simp only [step, Fifo.step, pop, popCommit, toFifo_items, toFifo_closed, length_contents,
      mapStats_size, mapStats_closed]
    split_ifs <;> simp_all [h.toFifo_take, view]
  | tryPop =>
    simp only [step, Fifo.step, tryPop, Option.map_some']
    split_ifs <;> simp_all [h.toFifo_take, view]
  | popFor =>
    simp only [step, Fifo.step, popFor, popCommit, mapStats_size, mapStats_closed,
      Option.map_some']
    split_ifs <;> simp_all [h.toFifo_take, view]
  | close => rfl

/-! ## Runs -/

/-- A ring in the invariant and the channel it holds. -/
def Abstracts (q : BoundedQueue C α) (s : Fifo C.val α) : Prop := ∃ h : q.RingInv, q.toFifo h = s

/-- A call keeps a ring and its channel related. -/
theorem abstracts_step {q q' : BoundedQueue C α} {s : Fifo C.val α} {op : QueueOp α} {r : Reply α}
    (hR : q.Abstracts s) (hs : q.step op = some (r, q')) :
    ∃ s', s.step op = some (r, s') ∧ q'.Abstracts s' := by
  obtain ⟨h, rfl⟩ := hR
  have hsq := h.step_refines op
  rw [hs, Option.map_some'] at hsq
  obtain ⟨⟨r', s'⟩, hs', hv⟩ := Option.map_eq_some'.mp hsq.symm
  simp only [view, Fifo.view, Prod.mk.injEq] at hv
  obtain ⟨rfl, hi, hc⟩ := hv
  exact ⟨s', hs', h.move (step_move hs), Fifo.ext hi.symm hc.symm⟩

/-- A run of the ring is a run of the channel it holds, with the same replies. -/
theorem RingInv.exec_abstracts {q q' : BoundedQueue C α} {ops : List (QueueOp α)}
    {rs : List (Reply α)} (h : q.RingInv) (he : q.exec ops = some (rs, q')) :
    ∃ s', (q.toFifo h).exec ops = some (rs, s') ∧ q'.Abstracts s' :=
  runCalls_sim step Fifo.step Abstracts (fun _ _ _ _ _ hR hs => abstracts_step hR hs) ⟨h, rfl⟩ he

/-- **The ring refines the bounded FIFO channel.** In every state a run of a default-constructed
queue reaches, each call behaves as the channel's, and the events the run's pops returned, then the
contents, are the events its pushes got in. -/
theorem init_exec_refines_fifo [Inhabited α] {ops : List (QueueOp α)} {rs : List (Reply α)}
    {q : BoundedQueue C α} (hrun : (init : BoundedQueue C α).exec ops = some (rs, q)) :
    (∃ h : q.RingInv, ∀ op, (q.step op).map view = ((q.toFifo h).step op).map Fifo.view) ∧
      popped rs ++ q.contents = accepted ops rs := by
  obtain ⟨s', hs', h', rfl⟩ := ringInv_init.exec_abstracts hrun
  refine ⟨⟨h', h'.step_refines⟩, ?_⟩
  simpa [toFifo, contents, init] using (Fifo.exec_items hs').symm

theorem init_exec_refines_fifo_wraps :
    ∃ rs q, (init : BoundedQueue (Capacity.ofPow 1) ℕ).exec
        [.push 1, .tryPush 2, .pop, .pushFor 3, .tryPush 4, .popFor] = some (rs, q) ∧
      popped rs ++ q.contents = accepted [.push 1, .tryPush 2, .pop, .pushFor 3, .tryPush 4, .popFor] rs :=
  ⟨_, _, rfl, (init_exec_refines_fifo (show (init : BoundedQueue (Capacity.ofPow 1) ℕ).exec
    [.push 1, .tryPush 2, .pop, .pushFor 3, .tryPush 4, .popFor] = some (_, _) from rfl)).2⟩

end BoundedQueue

end KLStream
