import KLStream.Runtime.Exec
import KLStream.Queue.Refinement

/-!
# Runtime/Exclusion — two workers in one instance

Neither scheduler keeps an instance to one worker. `RoundRobinScheduler::next` hands any instance
with work to any worker that asks, and `WorkStealingScheduler::next` lets a worker steal an instance
its owner is running. Each event is still popped once, since every queue stays a FIFO channel inside
the runtime; but two workers that pop consecutive events of one queue run `process` on them at the
same time, and the later event can overtake the earlier one.

* `Step.contents`, `Reachable.fifo` — along every interleaving, the events the workers took from a
  queue, in the order taken, followed by what the queue still holds, are the events it accepted, in
  the order accepted;
* `two_workers_in_one_instance` — under either policy, two workers of `src → map → sink` are in
  `execute_batch` of `map` at once, and the sink's queue receives `map`'s outputs in the reverse of
  the order `src` emitted them.
-/

namespace KLStream

variable {C : Capacity}

/-- One call of a ring in the invariant, read on its contents: what was there, then what the call
put in, is what it took out, then what is left. -/
theorem BoundedQueue.RingInv.step_contents {α : Type} {q q' : BoundedQueue C α} {op : QueueOp α}
    {r : Reply α} (h : q.RingInv) (hs : q.step op = some (r, q')) :
    q.contents ++ op.pushedEvent r = r.poppedEvent ++ q'.contents := by
  obtain ⟨s', hs', h', rfl⟩ := BoundedQueue.abstracts_step ⟨h, rfl⟩ hs
  simpa using Fifo.step_items hs'

/-- The event a log entry put into queue `k`. -/
def Obs.into (k : ℕ) : Obs → List ℕ
  | .push k' e true => if k' = k then [e] else []
  | _ => []

/-- The event a log entry took out of queue `k`. -/
def Obs.outOf (k : ℕ) : Obs → List ℕ
  | .pop _ k' e => if k' = k then [e] else []
  | _ => []

namespace RunState

variable {cfg : RunConfig} {s s' : RunState C}

/-! ## The queues stay FIFO -/

/-- **One step, read on the queues' contents**: the step logs some entries `os`, and for every
queue, what it held then what `os` put in is what `os` took out then what it holds after. -/
theorem Step.contents (hi : ∀ k, (s.queues k).RingInv) (hs : Step cfg s s') :
    ∃ os, s'.log = s.log ++ os ∧ ∀ k, (s.queues k).contents ++ os.flatMap (Obs.into k) =
      os.flatMap (Obs.outOf k) ++ (s'.queues k).contents := by
  cases hs with
  | @pop w _ _ k' e q _ _ _ _ hq =>
    refine ⟨[.pop w k' e], rfl, fun k => ?_⟩
    have hc : (s.queues k').contents ++ QueueOp.tryPop.pushedEvent (.popped (some e)) =
        (Reply.popped (some e)).poppedEvent ++ q.contents :=
      (hi k').step_contents (by simp [BoundedQueue.step, hq])
    by_cases hk : k' = k
    · subst hk; simpa [Obs.into, Obs.outOf, QueueOp.pushedEvent, Reply.poppedEvent] using hc
    · simp [Obs.into, Obs.outOf, hk, Function.update_noteq (Ne.symm hk)]
  | @workerPush _ _ _ k' e _ ok q _ _ hq | @sourcePush _ k' e _ _ ok q _ _ hq =>
    refine ⟨[.push k' e ok], rfl, fun k => ?_⟩
    have hc : (s.queues k').contents ++ (QueueOp.push e).pushedEvent (.pushed ok) =
        (Reply.pushed ok : Reply ℕ).poppedEvent ++ q.contents :=
      (hi k').step_contents (by simp [BoundedQueue.step, hq])
    by_cases hk : k' = k
    · subst hk
      cases ok <;> simpa [Obs.into, Obs.outOf, QueueOp.pushedEvent, QueueOp.event?,
        Reply.poppedEvent] using hc
    · cases ok <;> simp [Obs.into, Obs.outOf, hk, Function.update_noteq (Ne.symm hk)]
  | process => exact ⟨[_], rfl, fun k => by simp [Obs.into, Obs.outOf]⟩
  | @close k' _ _ =>
    refine ⟨[], (List.append_nil _).symm, fun k => ?_⟩
    by_cases hk : k = k'
    · subst hk; simp
    · simp [Function.update_noteq hk]
  | next => exact ⟨[], by simp, fun k => by simp⟩
  | _ => exact ⟨[], by simp, fun k => by simp⟩

/-- **Every queue of the runtime is a FIFO channel.** Along every interleaving, the events workers
took from queue `k`, in the order taken, followed by what it holds, are the events it accepted, in
the order accepted: no event is taken twice, lost inside a queue, or taken out of order. -/
theorem Reachable.fifo (hs : s.Reachable cfg) (k : ℕ) :
    s.log.flatMap (Obs.into k) = s.log.flatMap (Obs.outOf k) ++ (s.queues k).contents := by
  induction hs generalizing k with
  | start => rfl
  | step a hr ha ih =>
    obtain ⟨os, hlog, hloc⟩ := (act_step ha).contents hr.ringInv
    rw [hlog, List.flatMap_append, List.flatMap_append, ih k, List.append_assoc, hloc k,
      List.append_assoc]

end RunState

/-! ## Two workers in `map` -/

/-- Two workers on `src → map → sink` under `policy`. -/
def pairPipeline (policy : SchedulingPolicy) : RunConfig := .ofGraph pipeline 2 policy

/-- `src` emits `1`, then `2`; worker `first` takes `1` in `map`'s `execute_batch`, then worker
`second` takes `2` in it. -/
def bothInMap (first second : ℕ) : List Act :=
  [.generate 0 true [1], .source 0, .source 0, .generate 0 false [2], .source 0, .source 0,
    .worker first, .worker first, .worker second, .worker second]

/-- The worker holding `2` emits it before the worker holding `1` emits `1`. -/
def overtake (first second : ℕ) : List Act :=
  [.process second [2], .worker second, .process first [1], .worker first]

open RunState in
/-- **Two workers in one instance, under both policies.** Round robin: worker `0` then worker `1`
ask `next` and both get `map`. Work stealing, with `dist(rng_)` drawing `1`: worker `1` runs its
own `map`, and worker `0`, finding nothing of its own, steals it. Either way the sink's queue then
holds `2` before `1`. -/
theorem two_workers_in_one_instance :
    ((start fun _ => 0 : RunState (Capacity.ofPow 12)).run (pairPipeline .roundRobin)
        (bothInMap 0 1)).map (fun s => ((s.workers 0).instance?, (s.workers 1).instance?)) =
      some (some 1, some 1) ∧
    ((start fun _ => 0 : RunState (Capacity.ofPow 12)).run (pairPipeline .roundRobin)
        (bothInMap 0 1 ++ overtake 0 1)).map (fun s => (s.queues 1).contents) = some [2, 1] ∧
    ((start fun _ => 1 : RunState (Capacity.ofPow 12)).run (pairPipeline .workStealing)
        (bothInMap 1 0)).map (fun s => ((s.workers 0).instance?, (s.workers 1).instance?)) =
      some (some 1, some 1) ∧
    ((start fun _ => 1 : RunState (Capacity.ofPow 12)).run (pairPipeline .workStealing)
        (bothInMap 1 0 ++ overtake 1 0)).map (fun s => (s.queues 1).contents) = some [2, 1] := by
  decide

end KLStream
