import KLStream.Runtime.Scheduler
import Mathlib.Algebra.Group.Int

/-!
# Operators/Source — `RandomSource`, `SequenceSource` and `FunctionSource`

A source's `generate` (`source.hpp`) returns `false` when asked to stop or once `count` events were
accepted; otherwise it hands `ctx.emit` the event `{payload, generated_}` and counts it only if some
output took it. The three sources share that body (`SourceTally.generate`); they differ in the
payload: a draw of `dist_(rng_)`, a call of `generator_()`, or `current_`, which `SequenceSource`
moves on by `step` after each accepted event. Draws, generator values, `should_stop()` and the count
`emit` returns are the inputs of each call.

* `genRun_accepted` — for any `generate` that hands on at most the event keyed by its count and
  counts it exactly when accepted, a run hands on the accepted events in key order;
* `tallyRun` — the same for a source built on the shared body, with the return law of the next
  call and the event it hands `emit`;
* `sources_accept_consecutive_keys` — a `SequenceSource` gets accepted the events
  `{start + i * step, i}` for `i < k ≤ count`, in two's complement, and its next call returns,
  hands on, advances and leaves alone what `generate` says; the other two get accepted the keys
  `0, …, k - 1`, with the same laws for their next call;
* `sequence_current_overflows` — `current_ += step` overflows `std::int64_t` on a config the
  constructor takes.
-/

namespace KLStream

/-! ## `std::int64_t` -/

/-- The values of `std::int64_t`. -/
def Int64Range (x : ℤ) : Prop := -2 ^ 63 ≤ x ∧ x < 2 ^ 63

instance (x : ℤ) : Decidable (Int64Range x) := inferInstanceAs (Decidable (_ ∧ _))

/-- The two's-complement reading of `x` as a `std::int64_t`. -/
def wrapInt64 (x : ℤ) : ℤ := if x % 2 ^ 64 < 2 ^ 63 then x % 2 ^ 64 else x % 2 ^ 64 - 2 ^ 64

theorem wrapInt64_mem (x : ℤ) : Int64Range (wrapInt64 x) := by
  unfold wrapInt64 Int64Range; split <;> omega

theorem wrapInt64_of_mem {x : ℤ} (h : Int64Range x) : wrapInt64 x = x := by
  unfold wrapInt64; unfold Int64Range at h; split <;> omega

theorem wrapInt64_add_wrapInt64 (a b : ℤ) : wrapInt64 (wrapInt64 a + b) = wrapInt64 (a + b) := by
  unfold wrapInt64; split <;> split <;> split <;> omega


/-! ## What every source does -/

/-- `Event{payload, key}` as a source builds it. -/
structure SourceEvent (β : Type) where
  payload : β
  key : ℕ
  deriving DecidableEq, Repr

/-- What a `generate` call hands to `ctx.emit`, and how many outputs `emit` says took it. -/
structure Emission (β : Type) where
  event : SourceEvent β
  accepted : ℕ
  deriving DecidableEq, Repr

/-- `generated_` and the two counters of `OperatorStats` that `generate` updates. -/
structure SourceTally where
  generated : ℕ := 0
  eventsEmitted : ℕ := 0
  backpressureEvents : ℕ := 0
  deriving DecidableEq, Repr

namespace SourceTally

/-- `generated_++; record_emitted();` -/
def countEmitted (t : SourceTally) : SourceTally :=
  { t with generated := t.generated + 1, eventsEmitted := wrap64 (t.eventsEmitted + 1) }

/-- `record_backpressure();` -/
def countBackpressure (t : SourceTally) : SourceTally :=
  { t with backpressureEvents := wrap64 (t.backpressureEvents + 1) }

@[simp] theorem countEmitted_generated (t : SourceTally) :
    t.countEmitted.generated = t.generated + 1 := rfl
@[simp] theorem countBackpressure_generated (t : SourceTally) :
    t.countBackpressure.generated = t.generated := rfl

/-- **The body the three `generate`s share**, on `should_stop()`, the bound `count`, the payload
of the event and the count `ctx.emit` returns: `false` before emitting when asked to stop or once
`count` events were accepted; otherwise the event `{payload, generated_}` goes to `emit`, and is
counted if some output took it, else recorded as backpressure. -/
def generate {β : Type} (t : SourceTally) (count : ℕ) (stop : Bool) (payload : β) (accepted : ℕ) :
    Bool × Option (Emission β) × SourceTally :=
  if stop ∨ count ≤ t.generated then (false, none, t)
  else (true, some ⟨⟨payload, t.generated⟩, accepted⟩,
    if 0 < accepted then t.countEmitted else t.countBackpressure)

end SourceTally

/-- `generate` called once for each of `calls`, in order: what each call returned with what it
handed to `emit`, and the source after them. -/
def genRun {σ ι β : Type} (gen : σ → ι → Bool × Option (Emission β) × σ) :
    σ → List ι → List (Bool × Option (Emission β)) × σ
  | s, [] => ([], s)
  | s, c :: cs =>
    (((gen s c).1, (gen s c).2.1) :: (genRun gen (gen s c).2.2 cs).1, (genRun gen (gen s c).2.2 cs).2)

/-- The events some output accepted, in the order they were emitted. -/
def acceptedEvents {β : Type} (trace : List (Bool × Option (Emission β))) : List (SourceEvent β) :=
  trace.filterMap fun c => c.2.bind fun m => if 0 < m.accepted then some m.event else none


section Runs

variable {σ ι β γ : Type}

@[simp] theorem genRun_nil (gen : σ → ι → Bool × Option (Emission β) × σ) (s : σ) :
    genRun gen s [] = ([], s) := rfl

/-- **What a run of any `generate` hands on.** Suppose each call, from a state in `I`, keeps `I`,
and either hands `emit` nothing and keeps the count `key`, or hands it an event that reads `g` of
the count through `f`, and raises the count exactly when some output took the event. Then over a
run the count only rises, and the accepted events read, through `f`, `g` of the counts the run
passed, in order. -/
theorem genRun_accepted (gen : σ → ι → Bool × Option (Emission β) × σ) (key : σ → ℕ) (I : σ → Prop) (f : SourceEvent β → γ) (g : ℕ → γ)
    (hgen : ∀ s c, I s → I (gen s c).2.2 ∧
      (((gen s c).2.1 = none ∧ key (gen s c).2.2 = key s) ∨
        ∃ m, (gen s c).2.1 = some m ∧ f m.event = g (key s) ∧
          key (gen s c).2.2 = key s + if 0 < m.accepted then 1 else 0))
    (cs : List ι) (s : σ) (hs : I s) :
    key s ≤ key (genRun gen s cs).2 ∧ I (genRun gen s cs).2 ∧
      (acceptedEvents (genRun gen s cs).1).map f =
        (List.range' (key s) (key (genRun gen s cs).2 - key s)).map g := by
  induction cs generalizing s with
  | nil => simpa [acceptedEvents] using hs
  | cons c cs ih =>
    obtain ⟨hI, hstep⟩ := hgen s c hs
    obtain ⟨hle, hI', hev⟩ := ih _ hI
    simp only [genRun, acceptedEvents, List.filterMap_cons] at hev ⊢
    rcases hstep with ⟨hnone, hkey⟩ | ⟨m, hsome, hf, hkey⟩
    · rw [hnone, Option.none_bind]
      rw [hkey] at hle hev
      exact ⟨hle, hI', hev⟩
    · rw [hsome, Option.some_bind]
      split_ifs at hkey ⊢ with hacc
      · rw [hkey] at hle hev
        refine ⟨by omega, hI', ?_⟩
        rw [List.map_cons, hev, hf, show key (genRun gen (gen s c).2.2 cs).2 - key s =
          key (genRun gen (gen s c).2.2 cs).2 - (key s + 1) + 1 by omega, List.range'_succ,
          List.map_cons]
      · rw [Nat.add_zero] at hkey
        rw [hkey] at hle hev
        exact ⟨hle, hI', hev⟩

end Runs

namespace SourceTally

/-- The shared body hands `emit` the event `{payload, generated_}`, and counts it exactly when some
output took it. -/
theorem generate_step {β : Type} (t : SourceTally) (count : ℕ) (stop : Bool) (payload : β)
    (accepted : ℕ) :
    ((t.generate count stop payload accepted).2.1 = none ∧
        (t.generate count stop payload accepted).2.2.generated = t.generated) ∨
      ∃ m, (t.generate count stop payload accepted).2.1 = some m ∧ m.event = ⟨payload, t.generated⟩ ∧
        (t.generate count stop payload accepted).2.2.generated =
          t.generated + if 0 < m.accepted then 1 else 0 := by
  unfold generate
  split_ifs with h hacc
  · simp
  · simp [hacc]
  · simpa using hacc

/-- The shared body returns `false` exactly when asked to stop or once `count` events were
accepted, and does not pass `count`. -/
theorem generate_fst {β : Type} (t : SourceTally) {count : ℕ} (ht : t.generated ≤ count)
    (stop : Bool) (payload : β) (accepted : ℕ) :
    (t.generate count stop payload accepted).1 = false ↔ stop = true ∨ t.generated = count := by
  unfold generate
  cases stop <;> split_ifs with h <;> simp_all <;> omega

/-- Below `count`, with no stop asked, the shared body hands `emit` the event `{payload, generated_}`
and counts it exactly when some output took it. -/
theorem generate_of_lt {β : Type} (t : SourceTally) {count : ℕ} (h : t.generated < count)
    (payload : β) (accepted : ℕ) :
    (t.generate count false payload accepted).2.1 = some ⟨⟨payload, t.generated⟩, accepted⟩ ∧
      (t.generate count false payload accepted).2.2.generated =
        t.generated + if 0 < accepted then 1 else 0 := by
  simp only [generate, Bool.false_eq_true, false_or, Nat.not_le.2 h, if_false, true_and]
  split <;> simp

theorem generate_generated_le {β : Type} (t : SourceTally) {count : ℕ} (ht : t.generated ≤ count)
    (stop : Bool) (payload : β) (accepted : ℕ) :
    (t.generate count stop payload accepted).2.2.generated ≤ count := by
  unfold generate
  split_ifs with h hacc <;> simp only [countEmitted_generated, countBackpressure_generated] <;>
    omega

end SourceTally

/-! ## The three sources -/

/-- `RandomSource`: `config_.count`, and `generated_` with the counters. The value `dist_(rng_)`
draws is the call's input. -/
structure RandomSource where
  count : ℕ
  tally : SourceTally

/-- `RandomSource(name, config)`. -/
def RandomSource.new (count : ℕ) : RandomSource := ⟨count, {}⟩

/-- **`RandomSource::generate(ctx)`** on `should_stop()`, the value `dist_(rng_)` draws and the
count `ctx.emit` returns. -/
def RandomSource.generate (s : RandomSource) (stop : Bool) (value : ℤ) (accepted : ℕ) :
    Bool × Option (Emission ℤ) × RandomSource :=
  let r := s.tally.generate s.count stop value accepted
  (r.1, r.2.1, { s with tally := r.2.2 })

/-- `RandomSource::generate` called on each `(stop, value, accepted)` in turn. -/
def RandomSource.run (s : RandomSource) (calls : List (Bool × ℤ × ℕ)) :
    List (Bool × Option (Emission ℤ)) × RandomSource :=
  genRun (fun s c => s.generate c.1 c.2.1 c.2.2) s calls

/-- `FunctionSource<Generator>`: `max_count_`, and `generated_` with the counters. The value
`generator_()` returns is the call's input. -/
structure FunctionSource where
  maxCount : ℕ
  tally : SourceTally

/-- `FunctionSource(name, gen, count)`. -/
def FunctionSource.new (count : ℕ) : FunctionSource := ⟨count, {}⟩

/-- **`FunctionSource::generate(ctx)`** on `should_stop()`, the value `generator_()` returns and
the count `ctx.emit` returns. -/
def FunctionSource.generate {β : Type} (s : FunctionSource) (stop : Bool) (value : β)
    (accepted : ℕ) : Bool × Option (Emission β) × FunctionSource :=
  let r := s.tally.generate s.maxCount stop value accepted
  (r.1, r.2.1, { s with tally := r.2.2 })

/-- `FunctionSource::generate` called on each `(stop, value, accepted)` in turn. -/
def FunctionSource.run {β : Type} (s : FunctionSource) (calls : List (Bool × β × ℕ)) :
    List (Bool × Option (Emission β)) × FunctionSource :=
  genRun (fun s c => s.generate c.1 c.2.1 c.2.2) s calls

/-- `SequenceSource::Config`. The constructor takes every value of its fields, `std::int64_t`
`start` and `step` and `std::uint64_t` `count`; `delay` only sleeps. -/
structure SequenceSource.Config where
  start : ℤ := 0
  step : ℤ := 1
  count : ℕ := 2 ^ 64 - 1
  start_mem : Int64Range start := by decide
  step_mem : Int64Range step := by decide

/-- `SequenceSource`: its config, `current_`, and `generated_` with the counters. -/
structure SequenceSource where
  config : SequenceSource.Config
  current : ℤ
  tally : SourceTally

/-- `SequenceSource(name, config)`: `current_(config.start)`. -/
def SequenceSource.new (config : SequenceSource.Config) : SequenceSource :=
  ⟨config, config.start, {}⟩

/-- **`SequenceSource::generate(ctx)`** on `should_stop()` and the count `ctx.emit` returns. Unlike
the other two it keeps its own body: an accepted event also runs `current_ += config_.step`, a
`std::int64_t` addition, taken in two's complement (an exact sum outside `std::int64_t` is signed
overflow, `sequence_current_overflows`). -/
def SequenceSource.generate (s : SequenceSource) (stop : Bool) (accepted : ℕ) :
    Bool × Option (Emission ℤ) × SequenceSource :=
  if stop ∨ s.config.count ≤ s.tally.generated then (false, none, s)
  else
    (true, some ⟨⟨s.current, s.tally.generated⟩, accepted⟩,
      if 0 < accepted then
        { s with current := wrapInt64 (s.current + s.config.step), tally := s.tally.countEmitted }
      else { s with tally := s.tally.countBackpressure })

/-- `SequenceSource::generate` called on each `(stop, accepted)` in turn. -/
def SequenceSource.run (s : SequenceSource) (calls : List (Bool × ℕ)) :
    List (Bool × Option (Emission ℤ)) × SequenceSource :=
  genRun (fun s c => s.generate c.1 c.2) s calls

namespace SequenceSource

variable (s : SequenceSource) (stop : Bool) (accepted : ℕ)

/-- Apart from `current_`, `SequenceSource::generate` is the shared body on `current_`. -/
theorem generate_eq_tally :
    (s.generate stop accepted).1 =
        (s.tally.generate s.config.count stop s.current accepted).1 ∧
      (s.generate stop accepted).2.1 =
        (s.tally.generate s.config.count stop s.current accepted).2.1 ∧
      (s.generate stop accepted).2.2.tally =
        (s.tally.generate s.config.count stop s.current accepted).2.2 := by
  unfold generate SourceTally.generate
  split_ifs <;> simp

@[simp] theorem generate_config : (s.generate stop accepted).2.2.config = s.config := by
  unfold generate; split_ifs <;> rfl

/-- A call whose event no output takes leaves `current_` and `generated_` as they were. -/
theorem generate_unaccepted :
    (s.generate stop 0).2.2.current = s.current ∧
      (s.generate stop 0).2.2.tally.generated = s.tally.generated := by
  unfold generate; split_ifs <;> simp_all

/-- Once `count` events were counted, `generate` returns `false` and leaves the source as it is. -/
theorem generate_of_le (h : s.config.count ≤ s.tally.generated) :
    s.generate stop accepted = (false, none, s) := by
  simp [generate, h]

/-- **One call below `count`, with no stop asked**: `generate` returns `true` and hands `emit` the
event `{current_, generated_}`; an event some output took moves `current_` on by `step` and is
counted, one no output took is recorded as backpressure. -/
theorem generate_of_lt (h : s.tally.generated < s.config.count) :
    s.generate false accepted = (true, some ⟨⟨s.current, s.tally.generated⟩, accepted⟩,
      if 0 < accepted then
        { s with current := wrapInt64 (s.current + s.config.step), tally := s.tally.countEmitted }
      else { s with tally := s.tally.countBackpressure }) := by
  simp [generate, Nat.not_le.2 h]

/-- One call keeps `current_` at the `generated_`-th value of the sequence, in two's complement,
and hands `emit` the event made of it. -/
theorem generate_step (cfg : Config) (hs : s.config = cfg ∧
      s.current = wrapInt64 (cfg.start + s.tally.generated * cfg.step) ∧
      s.tally.generated ≤ cfg.count) :
    ((s.generate stop accepted).2.2.config = cfg ∧
      (s.generate stop accepted).2.2.current =
        wrapInt64 (cfg.start + (s.generate stop accepted).2.2.tally.generated * cfg.step) ∧
      (s.generate stop accepted).2.2.tally.generated ≤ cfg.count) ∧
    (((s.generate stop accepted).2.1 = none ∧
        (s.generate stop accepted).2.2.tally.generated = s.tally.generated) ∨
      ∃ m, (s.generate stop accepted).2.1 = some m ∧
        m.event = ⟨wrapInt64 (cfg.start + s.tally.generated * cfg.step), s.tally.generated⟩ ∧
        (s.generate stop accepted).2.2.tally.generated =
          s.tally.generated + if 0 < m.accepted then 1 else 0) := by
  obtain ⟨rfl, hcur, hle⟩ := hs
  unfold generate
  split_ifs with h hacc
  · simp [hcur, hle]
  · dsimp only
    rw [SourceTally.countEmitted_generated]
    refine ⟨⟨rfl, ?_, by omega⟩, .inr ⟨_, rfl, by rw [hcur], by simp [hacc]⟩⟩
    rw [hcur, wrapInt64_add_wrapInt64]
    push_cast
    rw [Int.add_mul, Int.one_mul, Int.add_assoc]
  · exact ⟨⟨rfl, hcur, hle⟩, .inr ⟨_, rfl, by rw [hcur], by simp [hacc]⟩⟩

end SequenceSource

/-- The shared body, as `genRun_accepted` reads a call: keys in order, `generated_` within `count`. -/
theorem SourceTally.generate_keys {β : Type} (t : SourceTally) {count : ℕ}
    (ht : t.generated ≤ count) (stop : Bool) (payload : β) (accepted : ℕ) :
    (t.generate count stop payload accepted).2.2.generated ≤ count ∧
    (((t.generate count stop payload accepted).2.1 = none ∧
        (t.generate count stop payload accepted).2.2.generated = t.generated) ∨
      ∃ m, (t.generate count stop payload accepted).2.1 = some m ∧ m.event.key = t.generated ∧
        (t.generate count stop payload accepted).2.2.generated =
          t.generated + if 0 < m.accepted then 1 else 0) := by
  refine ⟨t.generate_generated_le ht stop payload accepted, ?_⟩
  rcases t.generate_step count stop payload accepted with h | ⟨m, hm, hev, hk⟩
  · exact .inl h
  · exact .inr ⟨m, hm, by rw [hev], hk⟩

/-- **A run of a source built on the shared body**, `RandomSource` or `FunctionSource`: each call is
`SourceTally.generate` on the source's tally and bound, which no call changes. From a source that
has counted nothing, the accepted events are keyed `0, …, k - 1` with `k ≤ count`; the next call
returns `false` exactly when asked to stop or `k = count`, and below `count`, with no stop asked,
hands `emit` `{payload, k}` and counts it exactly when some output took it. -/
theorem tallyRun {σ β : Type} (gen : σ → Bool → β → ℕ → Bool × Option (Emission β) × σ)
    (tally : σ → SourceTally) (bound : σ → ℕ)
    (hgen : ∀ s stop v a, (gen s stop v a).1 = ((tally s).generate (bound s) stop v a).1 ∧
      (gen s stop v a).2.1 = ((tally s).generate (bound s) stop v a).2.1 ∧
      tally (gen s stop v a).2.2 = ((tally s).generate (bound s) stop v a).2.2 ∧
      bound (gen s stop v a).2.2 = bound s)
    (s₀ : σ) (h₀ : (tally s₀).generated = 0) (calls : List (Bool × β × ℕ)) (stop : Bool)
    (payload : β) (accepted : ℕ) :
    let s := (genRun (fun s c => gen s c.1 c.2.1 c.2.2) s₀ calls).2
    (acceptedEvents (genRun (fun s c => gen s c.1 c.2.1 c.2.2) s₀ calls).1).map SourceEvent.key =
        List.range (tally s).generated ∧ (tally s).generated ≤ bound s₀ ∧
      ((gen s stop payload accepted).1 = false ↔ stop = true ∨ (tally s).generated = bound s₀) ∧
      ((tally s).generated < bound s₀ →
        (gen s false payload accepted).2.1 = some ⟨⟨payload, (tally s).generated⟩, accepted⟩ ∧
        (tally (gen s false payload accepted).2.2).generated =
          (tally s).generated + if 0 < accepted then 1 else 0) := by
  intro s
  obtain ⟨-, ⟨hb, hle⟩, hkeys⟩ := genRun_accepted (fun s (c : Bool × β × ℕ) => gen s c.1 c.2.1 c.2.2)
    (fun s => (tally s).generated) (fun s => bound s = bound s₀ ∧ (tally s).generated ≤ bound s)
    SourceEvent.key id (fun s c hs => by
      obtain ⟨-, h2, h3, h4⟩ := hgen s c.1 c.2.1 c.2.2
      obtain ⟨hle, hk⟩ := (tally s).generate_keys hs.2 c.1 c.2.1 c.2.2
      rw [← h2, ← h3] at hk
      exact ⟨⟨h4.trans hs.1, (h3 ▸ hle).trans_eq h4.symm⟩, hk⟩)
    calls s₀ ⟨rfl, h₀ ▸ Nat.zero_le _⟩
  simp only [h₀, List.map_id, Nat.sub_zero, ← List.range_eq_range'] at hkeys
  refine ⟨hkeys, hle.trans_eq hb, ?_, fun h => ?_⟩
  · rw [(hgen s stop payload accepted).1, ← hb]
    exact (tally s).generate_fst hle stop payload accepted
  · obtain ⟨-, h2, h3, -⟩ := hgen s false payload accepted
    rw [h2, h3]
    exact (tally s).generate_of_lt (h.trans_eq hb.symm) payload accepted

/-- **What the sources hand on.** For every `SequenceSource` config and every run of `generate`
calls, each with its own `should_stop()` and its own count from `emit`: the events some output
accepted are `k ≤ count` events, the `i`-th with key `i` and payload `start + i * step` in two's
complement. After the run the next call returns `false` exactly when a stop was requested or
`k = count`; below `count`, with no stop requested, it hands `emit` the event `{start + k * step, k}`
and, if some output took it, moves on to `k + 1` and `start + (k + 1) * step`; and a call whose
`emit` is taken by no output leaves `current_` and `generated_` as they were. `RandomSource` and
`FunctionSource` give the events they get accepted the keys `0, …, k - 1`, with `k ≤ count`, and
their next call returns `false` exactly when asked to stop or `k = count`; below `count`, with no
stop requested, it hands `emit` `{value, k}` and counts it exactly when some output took it. -/
theorem sources_accept_consecutive_keys (cfg : SequenceSource.Config) (calls : List (Bool × ℕ))
    (stop : Bool) (accepted count : ℕ) (rcalls : List (Bool × ℤ × ℕ)) (value : ℤ) {β : Type}
    (fcalls : List (Bool × β × ℕ)) (fvalue : β) :
    let s := ((SequenceSource.new cfg).run calls).2
    let r := ((RandomSource.new count).run rcalls).2
    let f := ((FunctionSource.new count).run fcalls).2
    -- `SequenceSource`
    (acceptedEvents ((SequenceSource.new cfg).run calls).1 =
        (List.range s.tally.generated).map fun i => ⟨wrapInt64 (cfg.start + i * cfg.step), i⟩) ∧
      s.tally.generated ≤ cfg.count ∧
      ((s.generate stop accepted).1 = false ↔ stop = true ∨ s.tally.generated = cfg.count) ∧
      (s.tally.generated < cfg.count →
        (s.generate false accepted).2.1 =
          some ⟨⟨wrapInt64 (cfg.start + s.tally.generated * cfg.step), s.tally.generated⟩, accepted⟩ ∧
        (0 < accepted → (s.generate false accepted).2.2.tally.generated = s.tally.generated + 1 ∧
          (s.generate false accepted).2.2.current =
            wrapInt64 (cfg.start + (s.tally.generated + 1) * cfg.step))) ∧
      (s.generate stop 0).2.2.current = s.current ∧
      (s.generate stop 0).2.2.tally.generated = s.tally.generated ∧
    -- `RandomSource`
      (acceptedEvents ((RandomSource.new count).run rcalls).1).map SourceEvent.key =
        List.range r.tally.generated ∧ r.tally.generated ≤ count ∧
      ((r.generate stop value accepted).1 = false ↔ stop = true ∨ r.tally.generated = count) ∧
      (r.tally.generated < count →
        (r.generate false value accepted).2.1 = some ⟨⟨value, r.tally.generated⟩, accepted⟩ ∧
        (r.generate false value accepted).2.2.tally.generated =
          r.tally.generated + if 0 < accepted then 1 else 0) ∧
    -- `FunctionSource`
      (acceptedEvents ((FunctionSource.new count).run fcalls).1).map SourceEvent.key =
        List.range f.tally.generated ∧ f.tally.generated ≤ count ∧
      ((f.generate stop fvalue accepted).1 = false ↔ stop = true ∨ f.tally.generated = count) ∧
      (f.tally.generated < count →
        (f.generate false fvalue accepted).2.1 = some ⟨⟨fvalue, f.tally.generated⟩, accepted⟩ ∧
        (f.generate false fvalue accepted).2.2.tally.generated =
          f.tally.generated + if 0 < accepted then 1 else 0) := by
  intro s r f
  obtain ⟨-, hI, hseq⟩ := genRun_accepted (fun s c => SequenceSource.generate s c.1 c.2)
    (fun s : SequenceSource => s.tally.generated)
    (fun s => s.config = cfg ∧ s.current = wrapInt64 (cfg.start + s.tally.generated * cfg.step) ∧
      s.tally.generated ≤ cfg.count) id (fun i => ⟨wrapInt64 (cfg.start + i * cfg.step), i⟩)
    (fun s c hs => s.generate_step c.1 c.2 cfg hs) calls (.new cfg)
    ⟨rfl, by simp [SequenceSource.new, wrapInt64_of_mem cfg.start_mem], Nat.zero_le _⟩
  simp only [SequenceSource.new, List.map_id, Nat.sub_zero, ← List.range_eq_range'] at hseq
  obtain ⟨hcfg, hcur, hle⟩ : s.config = cfg ∧
      s.current = wrapInt64 (cfg.start + s.tally.generated * cfg.step) ∧
      s.tally.generated ≤ cfg.count := hI
  have hfst : (s.generate stop accepted).1 = false ↔ stop = true ∨ s.tally.generated = cfg.count := by
    rw [(s.generate_eq_tally stop accepted).1, ← hcfg]
    exact SourceTally.generate_fst _ (by rwa [hcfg]) stop s.current accepted
  have hnext (h : s.tally.generated < cfg.count) : (s.generate false accepted).2.1 =
        some ⟨⟨wrapInt64 (cfg.start + s.tally.generated * cfg.step), s.tally.generated⟩, accepted⟩ ∧
      (0 < accepted → (s.generate false accepted).2.2.tally.generated = s.tally.generated + 1 ∧
        (s.generate false accepted).2.2.current =
          wrapInt64 (cfg.start + (s.tally.generated + 1) * cfg.step)) := by
    have hg := s.generate_of_lt accepted (hcfg ▸ h)
    refine ⟨by rw [hg, hcur], fun ha => ?_⟩
    have hk : (s.generate false accepted).2.2.tally.generated = s.tally.generated + 1 := by
      rw [hg, if_pos ha]; rfl
    obtain ⟨⟨-, hc', -⟩, -⟩ := s.generate_step false accepted cfg ⟨hcfg, hcur, hle⟩
    exact ⟨hk, by rw [hc', hk]; push_cast; rfl⟩
  obtain ⟨hr1, hr2, hr3, hr4⟩ := tallyRun (fun s stop v a => RandomSource.generate s stop v a)
    RandomSource.tally RandomSource.count (fun _ _ _ _ => ⟨rfl, rfl, rfl, rfl⟩) (.new count) rfl
    rcalls stop value accepted
  obtain ⟨hf1, hf2, hf3, hf4⟩ := tallyRun (fun s stop v a => FunctionSource.generate s stop v a)
    FunctionSource.tally FunctionSource.maxCount (fun _ _ _ _ => ⟨rfl, rfl, rfl, rfl⟩)
    (.new count) rfl fcalls stop fvalue accepted
  exact ⟨hseq, hle, hfst, hnext, (s.generate_unaccepted stop).1, (s.generate_unaccepted stop).2,
    hr1, hr2, hr3, hr4, hf1, hf2, hf3, hf4⟩

/-- **`current_ += config_.step` overflows on a config the constructor takes.** With
`start = 2 ^ 63 - 1` and `step = 1`, one call whose event is accepted brings `k` to `1`, and the
`std::int64_t` sum `current_ + step` it computes, `start + k * step = 2 ^ 63`, is outside
`std::int64_t`: signed overflow, undefined behaviour. In two's complement `current_` becomes
`-2 ^ 63`. -/
theorem sequence_current_overflows :
    ∃ cfg : SequenceSource.Config, cfg.start = 2 ^ 63 - 1 ∧ cfg.step = 1 ∧
      ((SequenceSource.new cfg).run [(false, 1)]).2.tally.generated = 1 ∧
      ¬ Int64Range (cfg.start + ((SequenceSource.new cfg).run [(false, 1)]).2.tally.generated *
        cfg.step) ∧
      ((SequenceSource.new cfg).run [(false, 1)]).2.current = -2 ^ 63 :=
  ⟨{ start := 2 ^ 63 - 1 }, rfl, rfl, rfl, by decide, by decide⟩

end KLStream
