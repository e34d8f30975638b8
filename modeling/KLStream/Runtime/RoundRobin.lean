import KLStream.Runtime.Scheduler

/-!
# Runtime/RoundRobin — what a worker's cursor gives it, and where the `size_t` wrap breaks it

`RoundRobinScheduler::next(w)` probes `instances_[pos % N]` and runs `pos++`, up to `N` times, on
the worker's cursor `pos`, a `std::size_t`. The spec reads this as a cyclic scan from the cursor;
that is what the code does while `pos` does not pass `2 ^ 64`, or when `N` divides `2 ^ 64`. Past
the wrap, `pos % N` jumps from `(2 ^ 64 - 1) % N` to `0`, which skips instances when `N` does not
divide `2 ^ 64`, and every cursor value is reachable.

* `cyclicNext` — the spec's `next(w)`: the first instance with work in cyclic order from the
  cursor's instance, and how many were inspected;
* `rrScan_eq_find` — the code's scan, offset by offset: probe `d` reads `wrap64 (pos + d) % N`;
* `RoundRobinScheduler.Reachable`, `Reachable.inv` — the states `next` calls reach keep their
  cursors below `2 ^ 64`; `reachable_cursorAt` — and reach every such cursor;
* `next_cyclic` — without a wrap in the call, `next(w)` is `cyclicNext`;
  `next_misses_ready_instance` — with one, over three instances, `next` returns null while an
  instance has work;
* `next_serves_or_nears`, `mem_run_of_offset` — each call by `w` that misses a ready instance `i`
  leaves it fewer probes on, so `run_serves_ready`: `w` is served `i` within `N` calls;
  `ready_instance_starved` — past the wrap, three calls over three instances never return one of
  them.
-/

namespace KLStream

/-! ## The spec's round robin -/

/-- **The spec's `next(w)`**: from the cursor's instance `start`, inspect the `N` instances in
cyclic order; the first one with work, and how many were inspected. -/
def cyclicNext (N : ℕ) (hasWork : ℕ → Bool) (start : ℕ) : Option ℕ × ℕ :=
  match (List.range N).find? fun d => hasWork ((start + d) % N) with
  | some d => (some ((start + d) % N), d + 1)
  | none => (none, N)

/-- Every instance `i < N` is some offset `d < N` on from any start. -/
theorem exists_offset {N : ℕ} (start : ℕ) {i : ℕ} (hi : i < N) : ∃ d < N, (start + d) % N = i := by
  have hs := Nat.mod_lt start (by omega : 0 < N)
  refine ⟨(i + (N - start % N)) % N, Nat.mod_lt _ (by omega), ?_⟩
  rw [Nat.add_mod_mod, ← Nat.mod_add_mod, show start % N + (i + (N - start % N)) = i + N by omega,
    Nat.add_mod_right, Nat.mod_eq_of_lt hi]

theorem cyclicNext_isSome_iff {N : ℕ} (hasWork : ℕ → Bool) (start : ℕ) :
    (cyclicNext N hasWork start).1.isSome ↔ ∃ i < N, hasWork i := by
  unfold cyclicNext
  split
  · rename_i d hd
    obtain ⟨hw, hd, -⟩ := List.find?_range_eq_some.1 hd
    exact ⟨fun _ => ⟨_, Nat.mod_lt _ (by simp at hd; omega), hw⟩, fun _ => rfl⟩
  · rename_i hnone
    simp only [Option.isSome_none, Bool.false_eq_true, false_iff, not_exists, not_and]
    intro i hi hw
    obtain ⟨d, hd, rfl⟩ := exists_offset start hi
    simpa [hw] using List.find?_range_eq_none.1 hnone d hd


/-! ## The code's scan, offset by offset -/

/-- Below `2 ^ 64`, or for `n` dividing `2 ^ 64`, the wrap does not move an index modulo `n`. -/
theorem wrap64_mod {n x : ℕ} (h : x < 2 ^ 64 ∨ n ∣ 2 ^ 64) : wrap64 x % n = x % n := by
  rcases h with h | h
  · rw [wrap64_of_lt h]
  · exact Nat.mod_mod_of_dvd x h

/-- **The scan, offset by offset.** From a cursor `pos < 2 ^ 64` with `k` probes left, the
`d`-th probe reads instance `wrap64 (pos + d) % n`; the scan stops at the first ready one, leaving
the cursor one past it, or after `k` probes. -/
theorem rrScan_eq_find (n : ℕ) (hasWork : ℕ → Bool) (k : ℕ) {pos : ℕ} (hpos : pos < 2 ^ 64) :
    rrScan n hasWork k pos =
      match (List.range k).find? fun d => hasWork (wrap64 (pos + d) % n) with
      | some d => (some (wrap64 (pos + d) % n), wrap64 (pos + d + 1))
      | none => (none, wrap64 (pos + k)) := by
  induction k generalizing pos with
  | zero => simp [rrScan, wrap64_of_lt hpos]
  | succ k ih =>
    have hshift : (fun d => hasWork (wrap64 (wrap64 (pos + 1) + d) % n)) =
        (fun d => hasWork (wrap64 (pos + d) % n)) ∘ Nat.succ := by
      funext d; simp [wrap64_add_wrap64, Nat.add_right_comm, Nat.add_assoc]
    rw [rrScan, ih (wrap64_lt _), hshift, List.range_succ_eq_map, List.find?_cons, List.find?_map]
    by_cases h0 : hasWork (pos % n)
    · simp [h0, wrap64_of_lt hpos]
    · simp only [Nat.add_zero, wrap64_of_lt hpos, h0]
      cases (List.range k).find? ((fun d => hasWork (wrap64 (pos + d) % n)) ∘ Nat.succ) <;>
        simp [wrap64_add_wrap64, Nat.add_assoc, Nat.add_comm 1]

/-- Below `2 ^ 64` the scan leaves the cursor below `2 ^ 64`. -/
theorem rrScan_snd_lt (n : ℕ) (hasWork : ℕ → Bool) (k : ℕ) {pos : ℕ} (hpos : pos < 2 ^ 64) :
    (rrScan n hasWork k pos).2 < 2 ^ 64 := by
  rw [rrScan_eq_find n hasWork k hpos]
  split <;> exact wrap64_lt _

/-! ## Reachable states -/

namespace RoundRobinScheduler

/-- The states of a `RoundRobinScheduler` over `n` instances after `next` calls by any workers, on
any readiness. -/
inductive Reachable (n : ℕ) : RoundRobinScheduler → Prop
  | new : Reachable n (.new n)
  | next {s : RoundRobinScheduler} (hasWork : ℕ → Bool) (w : ℕ) :
      Reachable n s → Reachable n (s.next hasWork w).2

/-- A reachable state is over its `n` instances, with every cursor a `std::size_t`. -/
theorem Reachable.inv {n : ℕ} {s : RoundRobinScheduler} (hs : s.Reachable n) :
    s.numInstances = n ∧ ∀ w, s.positions w < 2 ^ 64 := by
  induction hs with
  | new => exact ⟨rfl, fun _ => Nat.two_pow_pos 64⟩
  | @next s hasWork w _ ih =>
    refine ⟨by simp [ih.1], fun v => ?_⟩
    rw [next_positions]
    by_cases hv : v = w
    · subst hv
      rw [Function.update_same, rrNext]
      split_ifs
      · exact ih.2 v
      · exact rrScan_snd_lt _ _ _ (ih.2 v)
    · rw [Function.update_noteq hv]
      exact ih.2 v

/-- The state after `k` calls by worker `0` that each found instance work at the first probe. -/
def cursorAt (n k : ℕ) : RoundRobinScheduler :=
  ⟨n, Function.update (fun _ => 0) 0 k, { totalScheduled := k }⟩

/-- Every cursor value a `std::size_t` holds is reachable, over any `n ≥ 1` instances. -/
theorem reachable_cursorAt {n : ℕ} (hn : 0 < n) {k : ℕ} (hk : k < 2 ^ 64) :
    (cursorAt n k).Reachable n := by
  induction k with
  | zero =>
    have h : cursorAt n 0 = .new n := by
      simp only [cursorAt, new, Function.update_eq_self]
    exact h ▸ .new
  | succ k ih =>
    have h : ((cursorAt n k).next (fun _ => true) 0).2 = cursorAt n (k + 1) := by
      obtain ⟨m, rfl⟩ : ∃ m, n = m + 1 := ⟨n - 1, by omega⟩
      simp [next, cursorAt, rrScan, SchedulerStats.countScheduled, wrap64_of_lt hk]
    exact h ▸ .next _ 0 (ih (by omega))

/-- Searches of `0, …, k - 1` by two tests that agree there find the same. -/
theorem find?_range_congr {k : ℕ} {p q : ℕ → Bool} (h : ∀ d < k, p d = q d) :
    (List.range k).find? p = (List.range k).find? q := by
  induction k with
  | zero => rfl
  | succ k ih =>
    simp only [List.range_succ, List.find?_append, ih fun d hd => h d (by omega), List.find?_cons,
      h k (by omega), List.find?_nil]

/-- **`next(w)` is the spec's cyclic scan while the cursor does not wrap.** Over `n ≥ 1`
instances, in a reachable state, when the cursor stays below `2 ^ 64` through the `n` probes or
`n` divides `2 ^ 64`: `next(w)` returns an instance iff some instance has work, the first one with
work in cyclic order from `positions_[w] % n`, and the cursor moves on by the number of instances
inspected, in `std::size_t` arithmetic. -/
theorem next_cyclic {n : ℕ} (hn : 0 < n) {s : RoundRobinScheduler} (hs : s.Reachable n) (w : ℕ)
    (hasWork : ℕ → Bool) (hwrap : s.positions w + n ≤ 2 ^ 64 ∨ n ∣ 2 ^ 64) :
    ((s.next hasWork w).1.isSome ↔ ∃ i < n, hasWork i) ∧
    (s.next hasWork w).1 = (cyclicNext n hasWork (s.positions w % n)).1 ∧
    (s.next hasWork w).2.positions w =
      wrap64 (s.positions w + (cyclicNext n hasWork (s.positions w % n)).2) := by
  obtain ⟨hnum, hpos⟩ := hs.inv
  have hscan : rrNext s.numInstances hasWork (s.positions w) =
      ((cyclicNext n hasWork (s.positions w % n)).1,
        wrap64 (s.positions w + (cyclicNext n hasWork (s.positions w % n)).2)) := by
    have hmod : ∀ d < n, wrap64 (s.positions w + d) % n = (s.positions w % n + d) % n :=
      fun d hd => by rw [wrap64_mod (hwrap.imp_left (by omega)), Nat.mod_add_mod]
    rw [rrNext, if_neg (by omega), hnum, rrScan_eq_find n hasWork n (hpos w), cyclicNext,
      find?_range_congr fun d hd => congrArg hasWork (hmod d hd)]
    split
    · rename_i d hd
      rw [hmod d (by simpa using (List.find?_range_eq_some.1 hd).2.1), Nat.add_assoc]
    · rfl
  rw [next_fst, next_positions, Function.update_same, hscan]
  exact ⟨cyclicNext_isSome_iff hasWork _, rfl, rfl⟩

theorem next_cyclic_new_three :
    0 < 3 ∧ (new 3).Reachable 3 ∧ ((new 3).positions 0 + 3 ≤ 2 ^ 64 ∨ 3 ∣ 2 ^ 64) ∧
    ((((new 3).next (fun i => decide (i = 2)) 0).1.isSome ↔ ∃ i < 3, decide (i = 2) = true) ∧
      ((new 3).next (fun i => decide (i = 2)) 0).1 =
        (cyclicNext 3 (fun i => decide (i = 2)) ((new 3).positions 0 % 3)).1 ∧
      ((new 3).next (fun i => decide (i = 2)) 0).2.positions 0 =
        wrap64 ((new 3).positions 0 +
          (cyclicNext 3 (fun i => decide (i = 2)) ((new 3).positions 0 % 3)).2)) :=
  ⟨by decide, .new, .inl (by decide), next_cyclic (by decide) .new 0 _ (.inl (by decide))⟩

theorem next_misses_ready_instance :
    (cursorAt 3 (2 ^ 64 - 1)).Reachable 3 ∧ (∃ i < 3, decide (i = 2) = true) ∧
      ((cursorAt 3 (2 ^ 64 - 1)).next (fun i => decide (i = 2)) 0).1 = none :=
  ⟨reachable_cursorAt (by decide) (by decide), ⟨2, by decide, rfl⟩, by decide⟩

/-! ## No starvation -/

/-- `next(v)` calls one after another, each on the readiness it sees: the worker and result of
each call, and the scheduler after them. -/
def run : RoundRobinScheduler → List (ℕ × (ℕ → Bool)) → List (ℕ × Option ℕ) × RoundRobinScheduler
  | s, [] => ([], s)
  | s, (v, hasWork) :: calls =>
    let r := s.next hasWork v
    ((v, r.1) :: (run r.2 calls).1, (run r.2 calls).2)

/-- **One call by `w` serves `i` or comes closer.** Instance `i` is `e` probes on from `w`'s cursor,
with no wrap before it. If `i` has work, `next(w)` returns `i`, or leaves `i` fewer probes on, still
with no wrap before it. -/
theorem next_serves_or_nears {n : ℕ} {s : RoundRobinScheduler} (hs : s.Reachable n) {w i e : ℕ}
    {hasWork : ℕ → Bool} (hready : hasWork i = true) (he : e < n)
    (hei : (s.positions w + e) % n = i) (hwrap : s.positions w + e + 1 ≤ 2 ^ 64 ∨ n ∣ 2 ^ 64) :
    (s.next hasWork w).1 = some i ∨ ∃ e' < e, ((s.next hasWork w).2.positions w + e') % n = i ∧
      ((s.next hasWork w).2.positions w + e' + 1 ≤ 2 ^ 64 ∨ n ∣ 2 ^ 64) := by
  obtain ⟨hnum, hpos⟩ := hs.inv
  have hmod : ∀ d ≤ e, wrap64 (s.positions w + d) % n = (s.positions w + d) % n :=
    fun d hd => wrap64_mod (hwrap.imp_left (by omega))
  have hscan := rrScan_eq_find n hasWork n (hpos w)
  obtain ⟨d, hd⟩ : ∃ d, (List.range n).find? (fun d => hasWork (wrap64 (s.positions w + d) % n)) =
      some d := Option.isSome_iff_exists.1 (List.find?_isSome.2 ⟨e, List.mem_range.2 he,
        by rw [hmod e le_rfl, hei, hready]⟩)
  obtain ⟨-, -, hfirst⟩ := List.find?_range_eq_some.1 hd
  have hde : d ≤ e := Nat.not_lt.1 fun h => by simpa [hmod e le_rfl, hei, hready] using hfirst e h
  rw [hd] at hscan
  rw [next_fst, next_positions, Function.update_same, rrNext, if_neg (by omega), hnum, hscan]
  dsimp only
  rcases Nat.lt_or_eq_of_le hde with hlt | rfl
  · refine .inr ⟨e - d - 1, by omega, ?_, ?_⟩
    · rw [Nat.add_mod, wrap64_mod (hwrap.imp_left (by omega)), ← Nat.add_mod,
        show s.positions w + d + 1 + (e - d - 1) = s.positions w + e by omega, hei]
    · rcases hwrap with h | h
      · exact .inl (by rw [wrap64_of_lt (by omega)]; omega)
      · exact .inr h
  · exact .inl (by rw [hmod d le_rfl, hei])

/-- A call by another worker leaves `w`'s cursor where it was. -/
theorem next_positions_of_ne (s : RoundRobinScheduler) (hasWork : ℕ → Bool) {v w : ℕ} (h : w ≠ v) :
    (s.next hasWork v).2.positions w = s.positions w := by
  rw [next_positions, Function.update_noteq h]

/-- Over calls whose calls by `w` all find `i` ready, `i` at `e` probes on from `w`'s cursor, with
no wrap before it, is returned to `w` once `w` has called more than `e` times. -/
theorem mem_run_of_offset {n w i : ℕ} (calls : List (ℕ × (ℕ → Bool)))
    (hready : ∀ c ∈ calls, c.1 = w → c.2 i = true) {s : RoundRobinScheduler} (hs : s.Reachable n)
    {e : ℕ} (he : e < n) (hei : (s.positions w + e) % n = i)
    (hwrap : s.positions w + e + 1 ≤ 2 ^ 64 ∨ n ∣ 2 ^ 64)
    (hcount : e < (calls.filter fun c => c.1 = w).length) : (w, some i) ∈ (s.run calls).1 := by
  induction calls generalizing s e with
  | nil => simp at hcount
  | cons c calls ih =>
    obtain ⟨v, hasWork⟩ := c
    have hready' : ∀ c ∈ calls, c.1 = w → c.2 i = true := fun c hc => hready c (.tail _ hc)
    simp only [run, List.mem_cons]
    by_cases hv : v = w
    · subst hv
      simp only [List.filter_cons, decide_True, if_true, List.length_cons] at hcount
      rcases next_serves_or_nears hs (hready _ (.head _) rfl) he hei hwrap with h | ⟨e', he', h⟩
      · exact .inl (by rw [h])
      · exact .inr (ih hready' (.next _ _ hs) (by omega) h.1 h.2 (by omega))
    · simp only [List.filter_cons, hv, decide_False, if_false] at hcount
      rw [← next_positions_of_ne s hasWork (Ne.symm hv)] at hei hwrap
      exact .inr (ih hready' (.next _ _ hs) he hei hwrap hcount)

/-- **A ready instance is not starved while the cursor does not wrap.** Over `n ≥ 1` instances,
from a reachable state in which `w`'s cursor stays below `2 ^ 64` for `n` more probes, or with `n`
dividing `2 ^ 64`: in any calls, other workers' included, in which `w` calls `next` at least `n`
times and finds `i` ready each time, some call by `w` returns `i`. -/
theorem run_serves_ready {n : ℕ} {s : RoundRobinScheduler} (hs : s.Reachable n)
    (w : ℕ) {i : ℕ} (hi : i < n) (calls : List (ℕ × (ℕ → Bool)))
    (hwrap : s.positions w + n ≤ 2 ^ 64 ∨ n ∣ 2 ^ 64)
    (hcount : n ≤ (calls.filter fun c => c.1 = w).length)
    (hready : ∀ c ∈ calls, c.1 = w → c.2 i = true) :
    (w, some i) ∈ (s.run calls).1 := by
  obtain ⟨e, he, hei⟩ := exists_offset (s.positions w) hi
  exact mem_run_of_offset calls hready hs he hei (hwrap.imp_left (by omega)) (by omega)

theorem run_serves_ready_new_three :
    (new 3).Reachable 3 ∧ 2 < 3 ∧ ((new 3).positions 0 + 3 ≤ 2 ^ 64 ∨ 3 ∣ 2 ^ 64) ∧
    3 ≤ ([(0, fun _ => true), (1, fun _ => false), (0, fun _ => true), (0, fun _ => true)].filter
      fun c : ℕ × (ℕ → Bool) => c.1 = 0).length ∧
    (∀ c ∈ [(0, fun _ => true), (1, fun _ => false), (0, fun _ => true), (0, fun _ => true)],
      c.1 = 0 → c.2 2 = true) ∧
    (0, some 2) ∈ ((new 3).run
      [(0, fun _ => true), (1, fun _ => false), (0, fun _ => true), (0, fun _ => true)]).1 :=
  ⟨.new, by decide, .inl (by decide), by decide, by decide,
    run_serves_ready .new 0 (by decide) _ (.inl (by decide)) (by decide) (by decide)⟩

theorem ready_instance_starved :
    (cursorAt 3 (2 ^ 64 - 1)).Reachable 3 ∧
      ((cursorAt 3 (2 ^ 64 - 1)).run (List.replicate 3 (0, fun _ => true))).1 =
        [(0, some 0), (0, some 0), (0, some 1)] :=
  ⟨reachable_cursorAt (by decide) (by decide), by decide⟩

end RoundRobinScheduler

end KLStream
