import KLStream.Queue.Refinement

/-!
# Runtime/Operator — `OperatorInstance::execute_batch` and `OperatorContext::emit`

An instance moves events from its input queue into `process`, and `process` moves events into the
output queues through `emit` or `try_emit`. Here each of these is run on its own, on queues that
hold the invariant of `Queue/Invariant`, and read through the contents of `Queue/Refinement`.
`process` is any function on `σ`, what it acts on: everything but the instance's own input queue.

* `executeBatch_spec` — with no input queue `execute_batch` does nothing; otherwise it processes the
  first `min m |q|` events of the queue, front first, each once, leaves the rest in order, and
  returns their number; `executeBatch_eq_executeOnceUpTo` — it is `execute_once` called until it
  fails or has succeeded `m` times;
* `emitLoop` — the loop of `emit` and `try_emit` over the outputs, each push on the state its queue
  is in when the push starts; `emit_tryEmit_spec` — over distinct outputs, `try_emit` appends to
  exactly the open outputs with room and leaves the others as they were, `emit` returns exactly when
  no push waits and has then appended to exactly the open outputs, and both return how many
  accepted.
-/

namespace KLStream

variable {C : Capacity} {α σ : Type}

/-! ## The queue calls an instance and its context make -/

namespace BoundedQueue

variable {q : BoundedQueue C α} {e : α}

/-- `try_pop` on an empty ring returns `nullopt` and changes nothing. -/
theorem tryPop_of_contents_nil (h : q.contents = []) : q.tryPop = (none, q) := by
  have : q.size = 0 := by simpa using congrArg List.length h
  simp [tryPop, this]

/-- `try_pop` on a ring in the invariant takes the front of its contents. -/
theorem RingInv.tryPop_of_contents_cons (h : q.RingInv) {e : α} {es : List α}
    (he : q.contents = e :: es) :
    ∃ q', q.tryPop = (some e, q') ∧ q'.RingInv ∧ q'.contents = es := by
  have hs : q.size ≠ 0 := by
    have := congrArg List.length he
    simp only [length_contents, List.length_cons] at this
    omega
  have hc := h.contents_eq_cons hs
  rw [he, List.cons.injEq] at hc
  refine ⟨_, by simp [tryPop, hs, hc.1], h.move (step_move (show q.step .tryPop = some (_, _) from rfl)), ?_⟩
  simp [tryPop, hs, hc.2]

/-- A blocking `push` that returns, on a ring in the invariant: it accepts exactly when the queue is
open, and then appends the event. -/
theorem RingInv.push_accepts (h : q.RingInv) {r : Bool × BoundedQueue C α}
    (hr : q.push e = some r) :
    r.1 = !q.closed ∧ r.2.RingInv ∧
      r.2.contents = if !q.closed then q.contents ++ [e] else q.contents := by
  have hinv : r.2.RingInv := h.move (step_move (show q.step (.push e) = some (.pushed r.1, r.2) by
    simp [step, hr]))
  have hc : (q.mapStats QueueStats.countPush).RingInv := h.move (.count _ countersOnly_countPush)
  simp only [push, pushCommit, mapStats_size, mapStats_closed] at hr
  split_ifs at hr with hw hcl <;> cases hr
  · simp [hcl, hinv]
  · refine ⟨by simp [hcl], hinv, ?_⟩
    simp only [hcl, Bool.not_false, if_true]
    rw [hc.contents_enqueue (by simpa [hcl] using hw), contents_mapStats]

theorem push_isSome : (q.push e).isSome ↔ q.closed = true ∨ q.size ≠ C.val := by
  by_cases hc : q.closed <;> simp [push, hc]

/-- `try_push` on a ring in the invariant: it accepts exactly when the queue is open and not full,
and then appends the event; otherwise it changes nothing. -/
theorem RingInv.tryPush_accepts (h : q.RingInv) :
    (q.tryPush e).1 = decide (q.closed = false ∧ q.size ≠ C.val) ∧
      ((q.tryPush e).1 = false → (q.tryPush e).2 = q) ∧ (q.tryPush e).2.RingInv ∧
      (q.tryPush e).2.contents =
        if decide (q.closed = false ∧ q.size ≠ C.val) then q.contents ++ [e] else q.contents := by
  have hinv : (q.tryPush e).2.RingInv :=
    h.move (step_move (show q.step (.tryPush e) = some (_, _) from rfl))
  refine ⟨?_, ?_, hinv, ?_⟩ <;> by_cases hcl : q.closed <;> by_cases hs : q.size = C.val <;>
    simp [tryPush, hcl, hs]
  exact h.contents_enqueue hs e

end BoundedQueue

/-! ## `execute_once` and `execute_batch` -/

/-- **`OperatorInstance::execute_once`**, on the input queue (`none`: the instance has none) and on
`σ`, what the operator's `process` acts on: everything but its own input queue. -/
def executeOnce (process : α → σ → σ) :
    Option (BoundedQueue C α) × σ → Bool × Option (BoundedQueue C α) × σ
  | (none, w) => (false, none, w)
  | (some q, w) =>
    match q.tryPop with
    | (none, q') => (false, some q', w)
    | (some e, q') => (true, some q', process e w)

/-- The loop of `execute_batch` with `left = max_batch - processed` passes to go. -/
def batchLoop (process : α → σ → σ) :
    ℕ → ℕ → BoundedQueue C α → σ → ℕ × BoundedQueue C α × σ
  | 0, processed, q, w => (processed, q, w)
  | left + 1, processed, q, w =>
    match q.tryPop with
    | (none, q') => (processed, q', w)
    | (some e, q') => batchLoop process left (processed + 1) q' (process e w)

/-- **`OperatorInstance::execute_batch(max_batch)`**: no input queue processes nothing; otherwise the
loop from `processed = 0`. -/
def executeBatch (process : α → σ → σ) (maxBatch : ℕ) :
    Option (BoundedQueue C α) × σ → ℕ × Option (BoundedQueue C α) × σ
  | (none, w) => (0, none, w)
  | (some q, w) =>
    let r := batchLoop process maxBatch 0 q w
    (r.1, some r.2.1, r.2.2)

/-- `execute_once` called until it returns false or `m` calls have returned true: how many did. -/
def executeOnceUpTo (process : α → σ → σ) :
    ℕ → Option (BoundedQueue C α) × σ → ℕ × Option (BoundedQueue C α) × σ
  | 0, s => (0, s)
  | m + 1, s =>
    let r := executeOnce process s
    if r.1 then ((executeOnceUpTo process m r.2).1 + 1, (executeOnceUpTo process m r.2).2)
    else (0, r.2)

section Batch

variable (process : α → σ → σ)

/-- Starting the count one higher only raises the returned count. -/
theorem batchLoop_succ_processed (left processed : ℕ) (q : BoundedQueue C α) (w : σ) :
    batchLoop process left (processed + 1) q w =
      ((batchLoop process left processed q w).1 + 1, (batchLoop process left processed q w).2) := by
  induction left generalizing processed q w with
  | zero => rfl
  | succ left ih =>
    simp only [batchLoop]
    split
    · rfl
    · exact ih _ _ _

/-- **`execute_batch` is `execute_once` repeated**, up to `max_batch` successes. -/
theorem executeBatch_eq_executeOnceUpTo (m : ℕ) (s : Option (BoundedQueue C α) × σ) :
    executeBatch process m s = executeOnceUpTo process m s := by
  obtain ⟨_ | q, w⟩ := s
  · cases m <;> rfl
  induction m generalizing q w with
  | zero => rfl
  | succ m ih =>
    simp only [executeBatch, batchLoop, executeOnceUpTo, executeOnce]
    split
    · rfl
    · simp only [ite_true, ← ih, executeBatch, batchLoop_succ_processed]

/-- The loop on a ring in the invariant: it processes the first `min left |contents|` events, in
order, and leaves the rest. -/
theorem batchLoop_spec (left processed : ℕ) {q : BoundedQueue C α} (hq : q.RingInv) (w : σ) :
    (batchLoop process left processed q w).1 = processed + min left q.contents.length ∧
    (batchLoop process left processed q w).2.2 =
      (q.contents.take (min left q.contents.length)).foldl (fun w e => process e w) w ∧
    (batchLoop process left processed q w).2.1.RingInv ∧
    (batchLoop process left processed q w).2.1.contents =
      q.contents.drop (min left q.contents.length) := by
  induction left generalizing processed q w with
  | zero => simpa [batchLoop] using hq
  | succ left ih =>
    rcases hc : q.contents with _ | ⟨e, es⟩
    · simpa [batchLoop, BoundedQueue.tryPop_of_contents_nil hc, hc] using hq
    · obtain ⟨q', hpop, hq', hc'⟩ := hq.tryPop_of_contents_cons hc
      obtain ⟨h1, h2, h3, h4⟩ := ih (processed + 1) hq' (process e w)
      simp only [batchLoop, hpop, List.length_cons, Nat.add_min_add_right, List.take_succ_cons,
        List.foldl_cons, List.drop_succ_cons, ← hc']
      exact ⟨by omega, h2, h3, h4⟩

/-- **`execute_batch(m)` takes the first `min m |q|` events, in order.** With no input queue it
returns `0` and processes nothing. On an input queue holding `q`, which nothing else touches during
the call, it calls `process` on the first `min m |q|` events of `q`, front first, each once, leaves
the rest in the queue in order and returns their number; and it does what `execute_once` called
until it fails or has succeeded `m` times does. -/
theorem executeBatch_spec (m : ℕ) (w : σ) (q : BoundedQueue C α) (hq : q.RingInv) :
    executeBatch process m ((none : Option (BoundedQueue C α)), w) = (0, none, w) ∧
    executeBatch process m (some q, w) = executeOnceUpTo process m (some q, w) ∧
    (executeBatch process m (some q, w)).1 = min m q.contents.length ∧
    (executeBatch process m (some q, w)).2.2 =
      (q.contents.take (min m q.contents.length)).foldl (fun w e => process e w) w ∧
    ∃ q', (executeBatch process m (some q, w)).2.1 = some q' ∧ q'.RingInv ∧
      q'.contents = q.contents.drop (min m q.contents.length) := by
  obtain ⟨h1, h2, h3, h4⟩ := batchLoop_spec process m 0 hq w
  exact ⟨rfl, executeBatch_eq_executeOnceUpTo process m _, by simpa using h1, h2, _, rfl, h3, h4⟩

end Batch

theorem executeBatch_spec_two_of_three :
    ∃ rs q, (BoundedQueue.init : BoundedQueue (Capacity.ofPow 2) ℕ).exec
        [.push 5, .push 6, .push 7] = some (rs, q) ∧ q.RingInv ∧
      (executeBatch (fun e l => l ++ [e]) 2
          ((none : Option (BoundedQueue (Capacity.ofPow 2) ℕ)), ([] : List ℕ)) = (0, none, []) ∧
        executeBatch (fun e l => l ++ [e]) 2 (some q, []) =
          executeOnceUpTo (fun e l => l ++ [e]) 2 (some q, []) ∧
        (executeBatch (fun e l => l ++ [e]) 2 (some q, [])).1 = min 2 q.contents.length ∧
        (executeBatch (fun e l => l ++ [e]) 2 (some q, [])).2.2 =
          (q.contents.take (min 2 q.contents.length)).foldl (fun w e => w ++ [e]) [] ∧
        ∃ q', (executeBatch (fun e l => l ++ [e]) 2 (some q, [])).2.1 = some q' ∧ q'.RingInv ∧
          q'.contents = q.contents.drop (min 2 q.contents.length)) := by
  have h : (BoundedQueue.init : BoundedQueue (Capacity.ofPow 2) ℕ).exec
      [.push 5, .push 6, .push 7] = some (_, _) := rfl
  exact ⟨_, _, h, (BoundedQueue.ringInv_init.exec h).1,
    executeBatch_spec _ 2 [] _ (BoundedQueue.ringInv_init.exec h).1⟩

/-! ## `emit` and `try_emit` -/

/-- The loop of `OperatorContext::emit` (`call` a blocking `push`) or `try_emit` (`call` a
`try_push`) over `outputs_`, in declaration order. The push onto output `k` runs on `qs k`, the state
that queue is in when the push starts (other threads may have changed it since the call began); the
result is the count of outputs that accepted the event and every output's state after its push, or
`none` while a push waits. -/
def emitLoop (call : BoundedQueue C α → α → Option (Bool × BoundedQueue C α))
    (qs : ℕ → BoundedQueue C α) (e : α) : List ℕ → Option (ℕ × (ℕ → BoundedQueue C α))
  | [] => some (0, qs)
  | k :: ks =>
    (call (qs k) e).bind fun r =>
      (emitLoop call (Function.update qs k r.2) e ks).map fun t =>
        (t.1 + if r.1 then 1 else 0, t.2)

/-- **`OperatorContext::emit(event)`**: a blocking `push` onto each output. -/
def emit (qs : ℕ → BoundedQueue C α) (e : α) (outputs : List ℕ) :
    Option (ℕ × (ℕ → BoundedQueue C α)) :=
  emitLoop BoundedQueue.push qs e outputs

/-- **`OperatorContext::try_emit(event)`**: a `try_push` onto each output. -/
def tryEmit (qs : ℕ → BoundedQueue C α) (e : α) (outputs : List ℕ) :
    Option (ℕ × (ℕ → BoundedQueue C α)) :=
  emitLoop (fun q e => some (q.tryPush e)) qs e outputs

section Emit

variable {call : BoundedQueue C α → α → Option (Bool × BoundedQueue C α)}
  {accepts : BoundedQueue C α → Bool} {e : α}

/-- What the loop does when each call on a ring in the invariant returns `accepts q`, keeps the
invariant and appends the event exactly when it accepts: the count of outputs that accept, and each
output's contents with the event appended exactly when it accepted. -/
theorem emitLoop_spec
    (hcall : ∀ q r, q.RingInv → call q e = some r →
      r.1 = accepts q ∧ r.2.RingInv ∧ r.2.contents = if accepts q then q.contents ++ [e] else q.contents)
    {outputs : List ℕ} (hnd : outputs.Nodup) {qs : ℕ → BoundedQueue C α}
    (hinv : ∀ k ∈ outputs, (qs k).RingInv) {n : ℕ} {qs' : ℕ → BoundedQueue C α}
    (h : emitLoop call qs e outputs = some (n, qs')) :
    n = (outputs.filter fun k => accepts (qs k)).length ∧
    ∀ k, (qs' k).contents =
      if k ∈ outputs ∧ accepts (qs k) then (qs k).contents ++ [e] else (qs k).contents := by
  induction outputs generalizing qs n qs' with
  | nil => cases h; simp
  | cons k ks ih =>
    obtain ⟨hk, hks⟩ := List.nodup_cons.1 hnd
    simp only [emitLoop, Option.bind_eq_some, Option.map_eq_some'] at h
    obtain ⟨r, hr, ⟨n', qs''⟩, hrest, heq⟩ := h
    cases heq
    obtain ⟨hacc, -, hcont⟩ := hcall _ _ (hinv k (.head _)) hr
    have hsame : ∀ k' ∈ ks, Function.update qs k r.2 k' = qs k' :=
      fun k' hk' => Function.update_noteq (ne_of_mem_of_not_mem hk' hk) _ _
    obtain ⟨hn, hc⟩ := ih hks (fun k' hk' => hsame k' hk' ▸ hinv k' (.tail _ hk')) hrest
    refine ⟨?_, fun k' => ?_⟩
    · rw [hn, List.filter_congr fun k' hk' => by rw [hsame k' hk'], hacc]
      by_cases ha : accepts (qs k) <;> simp [List.filter_cons, ha]
    · rw [hc k']
      by_cases hkk : k' = k
      · subst hkk
        simp [hk, hcont]
      · simp [Function.update_noteq hkk, hkk]

/-- A loop whose calls leave a queue as it was when they refuse leaves every output that refused,
and every queue that is no output, as it was. -/
theorem emitLoop_unchanged
    (hcall : ∀ q r, q.RingInv → call q e = some r → r.1 = accepts q ∧ (r.1 = false → r.2 = q))
    {outputs : List ℕ} (hnd : outputs.Nodup) {qs : ℕ → BoundedQueue C α}
    (hinv : ∀ k ∈ outputs, (qs k).RingInv) {n : ℕ} {qs' : ℕ → BoundedQueue C α}
    (h : emitLoop call qs e outputs = some (n, qs')) (k : ℕ)
    (hk : k ∉ outputs ∨ accepts (qs k) = false) : qs' k = qs k := by
  induction outputs generalizing qs n qs' with
  | nil => cases h; rfl
  | cons j js ih =>
    obtain ⟨hj, hjs⟩ := List.nodup_cons.1 hnd
    simp only [emitLoop, Option.bind_eq_some, Option.map_eq_some'] at h
    obtain ⟨r, hr, ⟨n', qs''⟩, hrest, heq⟩ := h
    cases heq
    have hsame : ∀ k' ∈ js, Function.update qs j r.2 k' = qs k' :=
      fun k' hk' => Function.update_noteq (ne_of_mem_of_not_mem hk' hj) _ _
    have hinv' : ∀ k' ∈ js, (Function.update qs j r.2 k').RingInv :=
      fun k' hk' => hsame k' hk' ▸ hinv k' (.tail _ hk')
    dsimp only
    by_cases hkj : k = j
    · subst hkj
      obtain ⟨hacc, href⟩ := hcall _ _ (hinv k (.head _)) hr
      rw [ih hjs hinv' hrest (.inl hj), Function.update_same]
      exact href (hacc.trans (hk.resolve_left (by simp)))
    · have hk' : k ∉ js ∨ accepts (Function.update qs j r.2 k) = false :=
        hk.imp (fun h hm => h (.tail _ hm)) (by rw [Function.update_noteq hkj]; exact id)
      rw [ih hjs hinv' hrest hk', Function.update_noteq hkj]

/-- The loop returns exactly when no call waits, each call waiting on the state its queue is in. -/
theorem emitLoop_isSome {P : BoundedQueue C α → Prop} (hcall : ∀ q, (call q e).isSome ↔ P q)
    {outputs : List ℕ} (hnd : outputs.Nodup) (qs : ℕ → BoundedQueue C α) :
    (emitLoop call qs e outputs).isSome ↔ ∀ k ∈ outputs, P (qs k) := by
  induction outputs generalizing qs with
  | nil => simp [emitLoop]
  | cons j js ih =>
    obtain ⟨hj, hjs⟩ := List.nodup_cons.1 hnd
    rcases hr : call (qs j) e with _ | r
    · simp only [emitLoop, hr, Option.none_bind, Option.isSome_none, Bool.false_eq_true, false_iff,
        List.forall_mem_cons, not_and]
      exact fun hP => absurd ((hcall _).2 hP) (by simp [hr])
    · have hsame : ∀ k' ∈ js, Function.update qs j r.2 k' = qs k' :=
        fun k' hk' => Function.update_noteq (ne_of_mem_of_not_mem hk' hj) _ _
      have hP := (hcall (qs j)).1 (by simp [hr])
      simp only [emitLoop, hr, Option.some_bind, Option.isSome_map', ih hjs, List.forall_mem_cons,
        hP, true_and]
      exact forall₂_congr fun k' hk' => by rw [hsame k' hk']

end Emit

/-- **What `try_emit` and `emit` deliver.** Over outputs that are pairwise distinct queues in the
ring invariant, each taken in the state it is in when its push starts: `try_emit(e)` appends `e` to
exactly the open, non-full outputs, leaves every other queue as it was, and returns their number.
`emit(e)` returns exactly when no push waits, that is when every output is closed or has room; and
when it returns it has appended `e` to exactly the open outputs and returns their number, so it
returns less than the output count only if some output is closed. -/
theorem emit_tryEmit_spec {outputs : List ℕ} (hnd : outputs.Nodup) {qs : ℕ → BoundedQueue C α}
    (hinv : ∀ k ∈ outputs, (qs k).RingInv) (e : α) :
    (∃ n qs', tryEmit qs e outputs = some (n, qs') ∧
      n = (outputs.filter fun k => (qs k).closed = false ∧ (qs k).size ≠ C.val).length ∧
      ∀ k, if k ∈ outputs ∧ (qs k).closed = false ∧ (qs k).size ≠ C.val
        then (qs' k).contents = (qs k).contents ++ [e] else qs' k = qs k) ∧
    ((emit qs e outputs).isSome ↔ ∀ k ∈ outputs, (qs k).closed = true ∨ (qs k).size ≠ C.val) ∧
    ∀ n qs', emit qs e outputs = some (n, qs') →
      n = (outputs.filter fun k => (qs k).closed = false).length ∧
      (∀ k, (qs' k).contents =
        if k ∈ outputs ∧ (qs k).closed = false then (qs k).contents ++ [e] else (qs k).contents) ∧
      (n < outputs.length → ∃ k ∈ outputs, (qs k).closed = true) := by
  have htry : ∀ (q : BoundedQueue C α) r, q.RingInv → some (q.tryPush e) = some r →
      r.1 = decide (q.closed = false ∧ q.size ≠ C.val) ∧ (r.1 = false → r.2 = q) ∧ r.2.RingInv ∧
        r.2.contents = if decide (q.closed = false ∧ q.size ≠ C.val) then q.contents ++ [e]
          else q.contents := by
    rintro q r hq ⟨⟩
    exact @BoundedQueue.RingInv.tryPush_accepts _ _ _ e hq
  have hts : (tryEmit qs e outputs).isSome :=
    (@emitLoop_isSome C α (fun q e => some (q.tryPush e)) e (fun _ => True)
      (fun _ => iff_of_true rfl trivial) outputs hnd qs).2 fun _ _ => trivial
  obtain ⟨⟨n, qs'⟩, hsome⟩ := Option.isSome_iff_exists.1 hts
  obtain ⟨hn, hc⟩ := emitLoop_spec (fun q r hq hr => ⟨(htry q r hq hr).1,
    (htry q r hq hr).2.2⟩) hnd hinv hsome
  refine ⟨⟨n, qs', hsome, hn, fun k => ?_⟩,
    emitLoop_isSome (fun q => BoundedQueue.push_isSome) hnd qs, fun n qs' h => ?_⟩
  · split_ifs with hk
    · simpa [hk] using hc k
    · exact emitLoop_unchanged (fun q r hq hr => ⟨(htry q r hq hr).1, (htry q r hq hr).2.1⟩) hnd
        hinv hsome k ((not_and_or.1 hk).imp id decide_eq_false)
  · obtain ⟨hn, hc⟩ := emitLoop_spec (fun q r hq hr => hq.push_accepts hr) hnd hinv h
    refine ⟨by simpa using hn, fun k => by simpa using hc k, fun hlt => ?_⟩
    obtain ⟨k, hk, hcl⟩ := List.length_filter_lt_length_iff_exists.1 (by simpa [hn] using hlt)
    exact ⟨k, hk, by simpa using hcl⟩

theorem emit_tryEmit_spec_open_closed :
    ∃ qs : ℕ → BoundedQueue (Capacity.ofPow 1) ℕ, qs 0 = .init ∧ qs 1 = BoundedQueue.init.close ∧
      [0, 1].Nodup ∧ (∀ k ∈ [0, 1], (qs k).RingInv) ∧
      ((∃ n qs', tryEmit qs 7 [0, 1] = some (n, qs') ∧
        n = ([0, 1].filter fun k => (qs k).closed = false ∧ (qs k).size ≠ 2).length ∧
        ∀ k, if k ∈ [0, 1] ∧ (qs k).closed = false ∧ (qs k).size ≠ 2
          then (qs' k).contents = (qs k).contents ++ [7] else qs' k = qs k) ∧
      ((emit qs 7 [0, 1]).isSome ↔ ∀ k ∈ [0, 1], (qs k).closed = true ∨ (qs k).size ≠ 2) ∧
      ∀ n qs', emit qs 7 [0, 1] = some (n, qs') →
        n = ([0, 1].filter fun k => (qs k).closed = false).length ∧
        (∀ k, (qs' k).contents =
          if k ∈ [0, 1] ∧ (qs k).closed = false then (qs k).contents ++ [7] else (qs k).contents) ∧
        (n < [0, 1].length → ∃ k ∈ [0, 1], (qs k).closed = true)) := by
  have hinv : ∀ k ∈ [0, 1], (fun k => if k = 0 then .init else BoundedQueue.init.close :
      ℕ → BoundedQueue (Capacity.ofPow 1) ℕ) k |>.RingInv := by
    intro k hk
    simp only [List.mem_cons, List.mem_singleton, List.not_mem_nil, or_false] at hk
    rcases hk with rfl | rfl
    · exact BoundedQueue.ringInv_init
    · exact BoundedQueue.ringInv_init.move .close
  exact ⟨_, rfl, rfl, by decide, hinv, emit_tryEmit_spec (by decide) hinv 7⟩

end KLStream
