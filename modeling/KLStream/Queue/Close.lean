import KLStream.Queue.Refinement

/-!
# Queue/Close — a closed queue only drains

`close()` is one-way: once `closed_` is set no call waits, no push stores and `close()` again
changes nothing, so the pops of any continuation return the events held at closure, front first,
and then `nullopt` (`closed_queue_drains`). The drain is the channel's FIFO law
(`Fifo.exec_items`) with nothing accepted, read through the refinement.
-/

namespace KLStream

variable {α : Type} {C : Capacity}

namespace BoundedQueue

variable {q : BoundedQueue C α}

/-- On a closed ring no call waits, the ring stays closed and a call removes at most the front. -/
theorem RingInv.step_of_closed (h : q.RingInv) (hc : q.closed = true) (op : QueueOp α) :
    ∃ r q', q.step op = some (r, q') ∧ q'.closed = true ∧
      q.contents = r.poppedEvent ++ q'.contents := by
  obtain ⟨p, hp, hpc, hpe⟩ := (q.toFifo h).step_of_closed hc op
  have hsq := h.step_refines op
  rw [hp, Option.map_some'] at hsq
  obtain ⟨⟨r, q'⟩, hq', hv⟩ := Option.map_eq_some'.mp hsq
  simp only [view, Fifo.view, Prod.mk.injEq] at hv
  obtain ⟨rfl, hi, hcl⟩ := hv
  have := Fifo.step_items hp
  rw [hpe, List.append_nil, toFifo_items, ← hi] at this
  exact ⟨p.1, q', hq', hcl ▸ hpc, this⟩

/-- A push on a closed ring returns `false` and leaves `buffer_`, `head_`, `tail_`, `size_` alone. -/
theorem step_push_of_closed (hc : q.closed = true) {op : QueueOp α} {e : α}
    (he : op.event? = some e) :
    ∃ q', q.step op = some (.pushed false, q') ∧ q'.buffer = q.buffer ∧ q'.head = q.head ∧
      q'.tail = q.tail ∧ q'.size = q.size := by
  cases op <;> simp_all [QueueOp.event?, step, push, tryPush, pushFor, pushCommit]

/-- `close()` on a closed queue changes nothing, `stats_` included. -/
theorem close_of_closed (hc : q.closed = true) : q.close = q := by
  cases q; cases hc; rfl

/-- On a non-empty ring `pop`, `try_pop` and `pop_for` return the front and remove it. -/
theorem RingInv.step_pop_of_cons (h : q.RingInv) {e : α} {es : List α} (he : q.contents = e :: es)
    {op : QueueOp α} (hop : op ∈ [.pop, .tryPop, .popFor]) :
    ∃ q', q.step op = some (.popped (some e), q') ∧ q'.closed = q.closed ∧ q'.contents = es := by
  have hs : q.size ≠ 0 := by rw [← length_contents, he]; exact Nat.succ_ne_zero _
  obtain ⟨rfl, rfl⟩ := List.cons.inj (he.symm.trans (h.contents_eq_cons hs))
  refine ⟨(q.mapStats QueueStats.countPop).dequeue, ?_, rfl, rfl⟩
  simp only [List.mem_cons, List.mem_singleton, List.not_mem_nil, or_false] at hop
  rcases hop with rfl | rfl | rfl <;>
    simp [step, pop, tryPop, popFor, popCommit, hs, Nat.pos_of_ne_zero hs]

/-- On an empty closed ring every pop returns `nullopt`. -/
theorem step_pop_of_closed_empty (hc : q.closed = true) (hs : q.size = 0) :
    (∃ q', q.step .pop = some (.popped none, q')) ∧ (∃ q', q.step .tryPop = some (.popped none, q')) ∧
      ∃ q', q.step .popFor = some (.popped none, q') := by
  simp [step, pop, tryPop, popFor, popCommit, hc, hs]

/-- **A closed queue only drains.** From every reachable closed state: a push returns `false` and
leaves the ring's cells and indices alone, `close()` changes nothing, `pop`, `try_pop` and `pop_for`
return the front and remove it, every continuation runs to the end with the queue closed and its
pops returning the contents held now, front first, and once those are gone every pop returns
`nullopt`. -/
theorem closed_queue_drains [Inhabited α] (hq : q.Reachable) (hc : q.closed = true) :
    (∀ op e, op.event? = some e → ∃ q', q.step op = some (.pushed false, q') ∧
      q'.buffer = q.buffer ∧ q'.head = q.head ∧ q'.tail = q.tail ∧ q'.size = q.size) ∧
    q.step .close = some (.void, q) ∧
    (∀ e es, q.contents = e :: es → ∀ op ∈ [QueueOp.pop, .tryPop, .popFor],
      ∃ q', q.step op = some (.popped (some e), q') ∧ q'.closed = true ∧ q'.contents = es) ∧
    (q.contents = [] → (∃ q', q.step .pop = some (.popped none, q')) ∧
      (∃ q', q.step .tryPop = some (.popped none, q')) ∧
      ∃ q', q.step .popFor = some (.popped none, q')) ∧
    ∀ ops, ∃ rs q', q.exec ops = some (rs, q') ∧ q'.Reachable ∧ q'.closed = true ∧
      popped rs ++ q'.contents = q.contents := by
  refine ⟨fun _ _ he => step_push_of_closed hc he, by simp [step, close_of_closed hc],
    fun _ _ he _ hop => hc ▸ hq.ringInv.step_pop_of_cons he hop,
    fun he => step_pop_of_closed_empty hc (by simpa using congrArg List.length he), fun ops => ?_⟩
  induction ops generalizing q with
  | nil => exact ⟨[], q, rfl, hq, hc, rfl⟩
  | cons op ops ih =>
    obtain ⟨r, q₁, h1, hc₁, hcon⟩ := hq.ringInv.step_of_closed hc op
    obtain ⟨rs, q', h2, hq', hc', hpop⟩ := ih (hq.step h1) hc₁
    refine ⟨r :: rs, q', ?_, hq', hc', ?_⟩
    · show runCalls step q (op :: ops) = _
      rw [runCalls_cons_of_eq_some h1, show runCalls step q₁ ops = some (rs, q') from h2]; rfl
    rw [hcon, ← hpop, popped, List.append_assoc]

theorem closed_queue_drains_two_held :
    (∃ q', ((((init : BoundedQueue (Capacity.ofPow 2) ℕ).exec [.push 1, .push 2, .close]).map
        Prod.snd).getD init).step .tryPop = some (.popped (some 1), q') ∧ q'.closed = true ∧
      q'.contents = [2]) ∧
    ∃ rs q', ((((init : BoundedQueue (Capacity.ofPow 2) ℕ).exec [.push 1, .push 2, .close]).map
        Prod.snd).getD init).exec [.push 3, .pop, .tryPush 4, .popFor, .tryPop] = some (rs, q') ∧
      q'.closed = true ∧ popped rs ++ q'.contents = [1, 2] := by
  have hq := Reachable.init.exec (show (init : BoundedQueue (Capacity.ofPow 2) ℕ).exec
    [.push 1, .push 2, .close] = some (_, _) from rfl)
  obtain ⟨-, -, hpop, -, h⟩ := closed_queue_drains hq rfl
  obtain ⟨rs, q', h1, -, h2, h3⟩ := h [.push 3, .pop, .tryPush 4, .popFor, .tryPop]
  exact ⟨hpop 1 [2] rfl .tryPop (by decide), rs, q', h1, h2, h3⟩

end BoundedQueue

end KLStream
