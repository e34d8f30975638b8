import KLStream.Queue.Ring

/-!
# Queue/Invariant — what a call does to the ring, and the ring invariant

Every critical section of every call does one of four things to the ring (`RingMove`): update
counters only, store one event into an open ring that is not full, take the front of a non-empty
ring, or close. `step_move` says so once for the seven calls, and the invariant and the watermark
law are four-case checks over `RingMove`:

* `RingInv` — `size_ ≤ Capacity`, `head_ < Capacity`, `tail_ = (head_ + size_) mod Capacity`,
  `stats_.current_size = size_` and `size_ ≤ stats_.high_watermark ≤ Capacity`;
* `init_exec_ringInv` — every run from a default-constructed queue keeps it, and its high watermark
  is `peak`, the largest size the run has passed through.
-/

namespace KLStream

variable {C : Capacity} {α : Type}

namespace BoundedQueue

/-- A `stats_` update that leaves the two gauges, `current_size` and `high_watermark`, alone. -/
def CountersOnly (f : QueueStats → QueueStats) : Prop :=
  ∀ s, (f s).currentSize = s.currentSize ∧ (f s).highWatermark = s.highWatermark

/-- **The four things a critical section does to the ring.** -/
inductive RingMove : BoundedQueue C α → BoundedQueue C α → Prop
  | count {q} (f) : CountersOnly f → RingMove q (q.mapStats f)
  | store {q} (f) (e : α) : CountersOnly f → q.size ≠ C.val → q.closed = false →
      RingMove q ((q.mapStats f).enqueue e)
  | take {q} (f) : CountersOnly f → q.size ≠ 0 → RingMove q ((q.mapStats f).dequeue)
  | close {q} : RingMove q q.close

theorem countersOnly_id : CountersOnly id := fun _ => ⟨rfl, rfl⟩
theorem countersOnly_countPush : CountersOnly QueueStats.countPush := fun _ => ⟨rfl, rfl⟩
theorem countersOnly_countPop : CountersOnly QueueStats.countPop := fun _ => ⟨rfl, rfl⟩
theorem countersOnly_countPushBlocked : CountersOnly QueueStats.countPushBlocked :=
  fun _ => ⟨rfl, rfl⟩
theorem countersOnly_countPopBlocked : CountersOnly QueueStats.countPopBlocked :=
  fun _ => ⟨rfl, rfl⟩

theorem CountersOnly.comp {f g : QueueStats → QueueStats} (hf : CountersOnly f)
    (hg : CountersOnly g) : CountersOnly (f ∘ g) :=
  fun s => ⟨(hf _).1.trans (hg s).1, (hf _).2.trans (hg s).2⟩

/-- **Every call is a `RingMove`.** -/
theorem step_move {q q' : BoundedQueue C α} {op : QueueOp α} {r : Reply α}
    (h : q.step op = some (r, q')) : RingMove q q' := by
  have hid : RingMove q q := RingMove.count id countersOnly_id
  cases op with
  | push e =>
    simp only [step, push, pushCommit, mapStats_size, mapStats_closed, Option.map_eq_some'] at h
    obtain ⟨p, hp, -, rfl⟩ := h
    split_ifs at hp with h1 h2 <;> cases hp
    · exact .count _ countersOnly_countPush
    · exact .store _ e countersOnly_countPush (by simp_all) (by simpa using h2)
  | tryPush e =>
    simp only [step, tryPush, Option.some.injEq, Prod.mk.injEq] at h
    obtain ⟨-, rfl⟩ := h
    split_ifs with h1
    · exact hid
    · exact .store _ e countersOnly_countPush (by simp_all) (by simp_all)
  | pushFor e =>
    simp only [step, pushFor, pushCommit, mapStats_size, mapStats_closed, Option.some.injEq,
      Prod.mk.injEq] at h
    obtain ⟨-, rfl⟩ := h
    split_ifs with h1 h2
    · exact .count _ countersOnly_countPush
    · exact .store _ e countersOnly_countPush (Nat.ne_of_lt (by simpa [h2] using h1))
        (by simpa using h2)
    · exact .count _ (countersOnly_countPushBlocked.comp countersOnly_countPush)
  | pop =>
    simp only [step, pop, popCommit, mapStats_size, mapStats_closed, Option.map_eq_some'] at h
    obtain ⟨p, hp, -, rfl⟩ := h
    split_ifs at hp with h1 h2 <;> cases hp
    · exact .count _ countersOnly_countPop
    · exact .take _ countersOnly_countPop h2
  | tryPop =>
    simp only [step, tryPop, Option.some.injEq, Prod.mk.injEq] at h
    obtain ⟨-, rfl⟩ := h
    split_ifs with h1
    · exact hid
    · exact .take _ countersOnly_countPop h1
  | popFor =>
    simp only [step, popFor, popCommit, mapStats_size, mapStats_closed, Option.some.injEq,
      Prod.mk.injEq] at h
    obtain ⟨-, rfl⟩ := h
    split_ifs with h1 h2
    · exact .count _ countersOnly_countPop
    · exact .take _ countersOnly_countPop h2
    · exact .count _ (countersOnly_countPopBlocked.comp countersOnly_countPop)
  | close =>
    simp only [step, Option.some.injEq, Prod.mk.injEq] at h
    obtain ⟨-, rfl⟩ := h
    exact .close

/-! ## The ring invariant -/

/-- **The ring invariant.** `tail_ < Capacity` follows (`RingInv.tail_lt`). -/
structure RingInv (q : BoundedQueue C α) : Prop where
  size_le : q.size ≤ C.val
  head_lt : q.head < C.val
  tail_eq : q.tail = (q.head + q.size) % C.val
  currentSize_eq : q.stats.currentSize = q.size
  size_le_highWatermark : q.size ≤ q.stats.highWatermark
  highWatermark_le : q.stats.highWatermark ≤ C.val

variable {q q' : BoundedQueue C α}

theorem RingInv.tail_lt (h : q.RingInv) : q.tail < C.val := h.tail_eq ▸ Nat.mod_lt _ C.pos

theorem ringInv_init [Inhabited α] : (init : BoundedQueue C α).RingInv :=
  ⟨Nat.zero_le _, C.pos, by simp [init], rfl, Nat.le_refl _, Nat.zero_le _⟩

/-- **Every `RingMove` keeps the invariant** — a store needs room, a take an element. -/
theorem RingInv.move (h : q.RingInv) (hm : RingMove q q') : q'.RingInv := by
  obtain ⟨h1, h2, h3, h4, h5, h6⟩ := h
  cases hm with
  | count f hf =>
    obtain ⟨hc, hw⟩ := hf q.stats
    refine ⟨h1, h2, h3, ?_, ?_, ?_⟩ <;> simp only [mapStats_size, mapStats_stats, hc, hw] <;>
      assumption
  | store f e hf hs =>
    obtain ⟨hc, hw⟩ := hf q.stats
    refine ⟨?_, h2, ?_, rfl, ?_, ?_⟩ <;>
      simp only [enqueue_size, enqueue_head, enqueue_tail, enqueue_highWatermark, mapStats_size,
        mapStats_head, mapStats_tail, mapStats_stats, hw, advance_eq, h3, Nat.mod_add_mod,
        Nat.add_assoc] <;> omega
  | take f hf hs =>
    obtain ⟨hc, hw⟩ := hf q.stats
    refine ⟨?_, ?_, ?_, rfl, ?_, ?_⟩ <;>
      simp only [dequeue_size, dequeue_head, dequeue_tail, dequeue_highWatermark, mapStats_size,
        mapStats_head, mapStats_tail, mapStats_stats, hw, advance_eq, h3, Nat.mod_add_mod]
    · omega
    · exact Nat.mod_lt _ C.pos
    · congr 1; omega
    · omega
    · exact h6
  | close => exact ⟨h1, h2, h3, h4, h5, h6⟩

/-- **The watermark law**: after a move the high watermark is the larger of the old one and the new
size. -/
theorem RingMove.highWatermark_eq (h : q.RingInv) (hm : RingMove q q') :
    q'.stats.highWatermark = max q.stats.highWatermark q'.size := by
  have := h.size_le_highWatermark
  cases hm with
  | count f hf => simp only [mapStats_stats, (hf _).2, mapStats_size]; omega
  | store f e hf => simp only [enqueue_highWatermark, mapStats_stats, (hf _).2, enqueue_size,
      mapStats_size]
  | take f hf => simp only [dequeue_highWatermark, mapStats_stats, (hf _).2, dequeue_size,
      mapStats_size]; omega
  | close => simp only [close_stats, close_size]; omega

/-! ## Runs -/

/-- The largest `size_` among the states a sequence of calls passes through, the first one
included. -/
def peak (q : BoundedQueue C α) : List (QueueOp α) → ℕ
  | [] => q.size
  | op :: ops => max q.size (((q.step op).map fun p => p.2.peak ops).getD 0)

theorem size_le_peak (q : BoundedQueue C α) (ops : List (QueueOp α)) : q.size ≤ q.peak ops := by
  cases ops with
  | nil => exact Nat.le_refl _
  | cons => exact Nat.le_max_left _ _

/-- A run keeps the invariant and raises the high watermark to the run's `peak`. -/
theorem RingInv.exec {ops : List (QueueOp α)} {rs : List (Reply α)} (h : q.RingInv)
    (he : q.exec ops = some (rs, q')) :
    q'.RingInv ∧ q'.stats.highWatermark = max q.stats.highWatermark (q.peak ops) := by
  induction ops generalizing q rs with
  | nil => cases he; exact ⟨h, by simp only [peak]; have := h.5; omega⟩
  | cons op ops ih =>
    obtain ⟨r, q₁, rs', h1, h2, -⟩ := exec_cons_eq_some he
    have hm := step_move h1
    obtain ⟨hi, hw⟩ := ih (h.move hm) h2
    refine ⟨hi, ?_⟩
    rw [hw, hm.highWatermark_eq h]
    simp only [peak, h1, Option.map_some', Option.getD_some]
    have := size_le_peak q₁ ops
    have := h.size_le_highWatermark
    omega

/-- Every reachable state is in the invariant. -/
theorem Reachable.ringInv [Inhabited α] (h : q.Reachable) : q.RingInv := by
  induction h with
  | init => exact ringInv_init
  | step _ hs ih => exact ih.move (step_move hs)

/-- **The ring invariant of every run from a default-constructed queue**, with the high watermark
equal to the largest size reached and the mask equal to reduction mod the capacity. -/
theorem init_exec_ringInv [Inhabited α] {ops : List (QueueOp α)} {rs : List (Reply α)}
    (h : (init : BoundedQueue C α).exec ops = some (rs, q)) :
    q.RingInv ∧ q.tail < C.val ∧ q.stats.highWatermark = (init : BoundedQueue C α).peak ops ∧
      ∀ x, advance C x = (x + 1) % C.val := by
  obtain ⟨hi, hw⟩ := ringInv_init.exec h
  exact ⟨hi, hi.tail_lt, by simpa [init] using hw, fun _ => advance_eq _⟩

theorem init_exec_ringInv_three_calls :
    ∃ rs q, (init : BoundedQueue (Capacity.ofPow 2) ℕ).exec [.push 1, .tryPush 2, .pop] =
      some (rs, q) ∧ q.RingInv ∧ q.tail < 4 ∧ q.stats.highWatermark = 2 := by
  obtain ⟨hi, ht, hw, -⟩ := init_exec_ringInv (show (init : BoundedQueue (Capacity.ofPow 2) ℕ).exec
    [.push 1, .tryPush 2, .pop] = some (_, _) from rfl)
  exact ⟨_, _, rfl, hi, ht, hw.trans rfl⟩

end BoundedQueue

end KLStream
