import KLStream.Runtime.Exec

/-!
# Runtime/Backpressure — every worker blocked in `emit`

`OperatorContext::emit` uses the blocking `push`, and only workers pop. A worker that emits into a
full queue waits for another worker to run the queue's reader; once every worker waits so, no thread
is left to make room. Nothing in `execute_batch` bounds what one `process` call emits, so a single
worker whose operator emits more events than an output queue holds already gets there.

* `Stuck.step`, `Stuck.run` — once every worker is blocked on a full queue, and `stop` has not yet
  tested one of those queues in its current pass of `drain_queues`, no step moves a worker or lets
  `stop` past its drain;
* `stuck_forever` — so along every interleaving from such a state, every worker stays blocked in
  the same `push` and `stop` never returns;
* `pipeline_all_workers_blocked` — one worker under round robin on `src → map → sink`, with a `map`
  that emits `4097` events for one input, reaches such a state.
-/

namespace KLStream

variable {C : Capacity}

/-- `stop` has not passed queue `k`: not called yet, joining the sources, or in a pass of
`drain_queues` that has not yet tested `queues_[k]`. -/
def StopPhase.Before (k : ℕ) : StopPhase → Prop
  | .running | .joining => True
  | .draining i => i ≤ k
  | _ => False

namespace RunState

variable {cfg : RunConfig}

/-- Worker `w` is in a `push` of `emit` onto queue `k`, which is full and open: the call waits. -/
def BlockedOn (s : RunState C) (w k : ℕ) : Prop :=
  ∃ j done e ps, s.workers w = .emitting j done ((k, e) :: ps) ∧ (s.queues k).size = C.val ∧
    (s.queues k).closed = false

variable (cfg) in
/-- **Every worker is blocked** in a `push` of `emit` on a full queue. -/
def AllBlocked (s : RunState C) : Prop := ∀ w < cfg.numWorkers, ∃ k, s.BlockedOn w k

variable (cfg) in
/-- Every worker is blocked, and `stop` has not passed one of the queues a worker is blocked on. -/
def Stuck (s : RunState C) : Prop :=
  s.AllBlocked cfg ∧ ∃ w < cfg.numWorkers, ∃ k < cfg.numQueues, s.BlockedOn w k ∧ s.stop.Before k

variable {s s' : RunState C}

/-! ## One step from a stuck state -/

/-- A `push` that returns found its queue not both full and open. -/
theorem push_room {q q' : BoundedQueue C ℕ} {e : ℕ} {ok : Bool} (h : q.push e = some (ok, q')) :
    ¬(q.size = C.val ∧ q.closed = false) := by
  dsimp only [BoundedQueue.push] at h
  split_ifs at h with hb
  simpa using hb

theorem BlockedOn.frame {w k : ℕ} (h : s.BlockedOn w k) (hw : s'.workers = s.workers)
    (hq : (s.queues k).size = C.val → (s.queues k).closed = false → s'.queues k = s.queues k) :
    s'.BlockedOn w k := by
  obtain ⟨j, done, e, ps, hp, hs, hc⟩ := h
  exact ⟨j, done, e, ps, hw ▸ hp, (hq hs hc).symm ▸ hs, (hq hs hc).symm ▸ hc⟩

/-- A step that leaves the workers and every full open queue alone, and does not move `stop` past
a full queue, keeps the runtime stuck. -/
theorem Stuck.frame (h : s.Stuck cfg) (hw : s'.workers = s.workers)
    (hq : ∀ k, (s.queues k).size = C.val → (s.queues k).closed = false → s'.queues k = s.queues k)
    (hst : ∀ k, (s.queues k).size = C.val → s.stop.Before k → s'.stop.Before k) :
    s'.Stuck cfg := by
  obtain ⟨hall, w, hw', k, hk, hb, hbefore⟩ := h
  exact ⟨fun w' hw'' => (hall w' hw'').imp fun k' hb' => hb'.frame hw (hq k'),
    w, hw', k, hk, hb.frame hw (hq k),
    hst k (by obtain ⟨_, _, _, _, _, hs, _⟩ := hb; exact hs) hbefore⟩

/-- **One step keeps a stuck runtime stuck, with every worker where it was.** Workers cannot move,
each being blocked; sources only push where there is room; `stop` cannot finish a pass of
`drain_queues` over a full queue. -/
theorem Stuck.step (h : s.Stuck cfg) (hs : Step cfg s s') :
    s'.Stuck cfg ∧ s'.workers = s.workers := by
  cases hs with
  | next hw hp | exit hw hp | endBatch hw hp | pop hw hp | process _ hw hp | processed hw hp =>
    obtain ⟨_, _, _, _, _, hp', -⟩ := h.1 _ hw
    cases hp.symm.trans hp'
  | workerPush hw hp hq =>
    obtain ⟨_, _, _, _, _, hp', hs, hc⟩ := h.1 _ hw
    cases hp.symm.trans hp'
    exact absurd ⟨hs, hc⟩ (push_room hq)
  | sourceExit | generate | generated => exact ⟨h.frame rfl (fun _ _ _ => rfl) fun _ _ => id, rfl⟩
  | @sourcePush _ k' _ _ _ _ _ _ _ hq =>
    refine ⟨h.frame rfl (fun k hs hc => ?_) fun _ _ => id, rfl⟩
    have hk : k ≠ k' := by rintro rfl; exact push_room hq ⟨hs, hc⟩
    simp [Function.update_noteq hk]
  | requestStop | joined =>
    exact ⟨h.frame rfl (fun _ _ _ => rfl) fun k _ _ => by simp [StopPhase.Before], rfl⟩
  | @probe i hst hi =>
    refine ⟨h.frame rfl (fun _ _ _ => rfl) fun k hfull hb => ?_, rfl⟩
    rw [hst] at hb
    dsimp only
    split_ifs with h0
    · have hik : i ≠ k := fun hik => by subst hik; exact C.pos.ne (h0 ▸ hfull)
      exact Nat.lt_of_le_of_ne hb hik
    · exact Nat.zero_le k
  | drained hst hk =>
    obtain ⟨-, -, -, b, hb, -, hbef⟩ := h
    rw [hst] at hbef
    exact absurd (Nat.lt_of_le_of_lt hbef hb) (Nat.not_lt.2 hk)
  | close hst _ | stopPool hst _ | joinedWorkers hst _ =>
    obtain ⟨-, -, -, b, -, -, hbef⟩ := h
    rw [hst] at hbef
    exact hbef.elim

/-- Every run from a stuck state stays stuck, with the workers where they were. -/
theorem Stuck.run {as : List Act} (h : s.Stuck cfg) (hr : s.run cfg as = some s') :
    s'.Stuck cfg ∧ s'.workers = s.workers :=
  Step.run (fun t => t.Stuck cfg ∧ t.workers = s.workers)
    (fun hs ⟨ht, hw⟩ => (ht.step hs).imp_right (·.trans hw)) ⟨h, rfl⟩ hr

/-- **A stuck runtime stays stuck.** From a state where every worker is blocked in `emit` on a full
queue, and `stop` has not passed one of those queues, every interleaving of every thread leaves
every worker in the same blocked `push`, and `stop` never returns. -/
theorem stuck_forever {as : List Act} (h : s.Stuck cfg) (hr : s.run cfg as = some s') :
    s'.workers = s.workers ∧ s'.AllBlocked cfg ∧ s'.stop ≠ .stopped := by
  obtain ⟨⟨hall, -, -, b, -, -, hbef⟩, hw⟩ := h.run hr
  exact ⟨hw, hall, fun hst => by rw [hst] at hbef; exact hbef⟩

/-- The stuck state at capacity one: `map` emits `7` twice, and the first fills the sink's queue. -/
def blockedOneSlot : RunState (Capacity.ofPow 0) :=
  ((start fun _ => 0).run soloPipeline
    [.generate 0 false [7], .source 0, .source 0, .worker 0, .worker 0, .process 0 [7, 7],
      .worker 0]).getD (start fun _ => 0)

theorem stuck_forever_one_slot :
    ∃ s' : RunState (Capacity.ofPow 0), blockedOneSlot.run soloPipeline [.stop, .stop, .stop, .stop] =
      some s' ∧ s'.workers = blockedOneSlot.workers ∧ s'.AllBlocked soloPipeline ∧
      s'.stop ≠ .stopped :=
  ⟨_, rfl, stuck_forever
    ⟨fun w hw => ⟨1, 1, 0, 7, [], by obtain rfl := Nat.lt_one_iff.1 hw; rfl, rfl, rfl⟩,
      0, Nat.one_pos, 1, by decide, ⟨1, 0, 7, [], rfl, rfl, rfl⟩, trivial⟩
    (show blockedOneSlot.run soloPipeline [.stop, .stop, .stop, .stop] = _ from rfl)⟩

/-! ## Getting stuck -/

theorem pushesOf_single (k : ℕ) (out : List ℕ) : pushesOf [k] out = out.map fun e => (k, e) := by
  induction out with
  | nil => rfl
  | cons e out ih => simpa [pushesOf] using ih

/-- `n` pushes of a worker's `emit` onto an open queue with room for them all go through. -/
theorem run_worker_pushes {w j done k e : ℕ} {ps : List (ℕ × ℕ)} (n : ℕ) (hw : w < cfg.numWorkers)
    (hp : s.workers w = .emitting j done (List.replicate n (k, e) ++ ps))
    (hc : (s.queues k).closed = false) (hn : (s.queues k).size + n ≤ C.val) :
    ∃ s', s.run cfg (List.replicate n (.worker w)) = some s' ∧ s'.workers w = .emitting j done ps ∧
      (s'.queues k).size = (s.queues k).size + n ∧ (s'.queues k).closed = false := by
  induction n generalizing s with
  | zero => exact ⟨s, rfl, by simpa using hp, rfl, hc⟩
  | succ n ih =>
    have hroom : (s.queues k).size ≠ C.val := by omega
    obtain ⟨s', h', hw', hs', hc'⟩ := ih (s := ((s.setQueue k (((s.queues k).mapStats
        QueueStats.countPush).enqueue e)).record (.push k e true)).setWorker w
        (.emitting j done (List.replicate n (k, e) ++ ps))) (by simp) (by simp [hc])
        (by simp; omega)
    refine ⟨s', ?_, hw', by simp at hs'; omega, by simpa using hc'⟩
    rw [List.replicate_succ, run_cons]
    simp [act, hw, workerStep, hp, List.replicate_succ, pushOn, BoundedQueue.push,
      BoundedQueue.pushCommit, hc, hroom, h']

/-- `map` emits `4097` copies of the event it processes: one more than `Queue` holds. -/
def overfill : List Act :=
  [.generate 0 false [7], .source 0, .source 0, .worker 0, .worker 0,
    .process 0 (List.replicate 4097 7)]

/-- **Every worker blocked**: one worker on `src → map → sink`, with `Queue`'s capacity `4096`,
fills the sink's queue from inside one `process` call of `map` and blocks on the next `push`. -/
theorem pipeline_all_workers_blocked :
    ∃ s : RunState (Capacity.ofPow 12), s.Reachable soloPipeline ∧ s.AllBlocked soloPipeline := by
  obtain ⟨s₀, h₀, hf⟩ := Option.map_eq_some'.1 (show ((start fun _ => 0 : RunState
      (Capacity.ofPow 12)).run soloPipeline overfill).map (fun s => (s.workers 0, s.queues 1)) =
      some (.emitting 1 0 (pushesOf [1] (List.replicate 4097 7)), BoundedQueue.init) from rfl)
  obtain ⟨hw, hq⟩ := Prod.mk.inj hf
  rw [pushesOf_single, List.map_replicate, List.replicate_succ'] at hw
  obtain ⟨s₁, h₁, hw₁, hs₁, hc₁⟩ :=
    run_worker_pushes 4096 (show 0 < soloPipeline.numWorkers from Nat.one_pos) hw (by rw [hq]; rfl)
      (by rw [hq]; decide)
  refine ⟨s₁, ((Reachable.start _).run h₀).run h₁, fun w hw' => ⟨1, 1, 0, 7, [], ?_, ?_, hc₁⟩⟩
  · obtain rfl := Nat.lt_one_iff.1 hw'
    exact hw₁
  · rw [hs₁, hq]; rfl

end RunState

end KLStream
