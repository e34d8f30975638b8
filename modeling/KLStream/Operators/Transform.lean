import KLStream.Operators.Event

/-!
# Operators/Transform — `FunctionOperator`, `MapOperator`, `FilterOperator` and the `filters`

A `process(event, ctx)` call, apart from the queues: it counts the event received, hands events to
`ctx.emit` (whose pushes are `Runtime/Operator`'s), counts an event emitted or dropped, and adds the
nanoseconds it measured. Each operator is built from a user callable, whose shape `if constexpr`
selects; the callable is a parameter of the shape.

* `functionOperator_drops_metadata` — the third shape, `(const Event&) → payload`, emits
  `Event{result}`, whose metadata is default-constructed: whatever the callable, an event's key and
  sequence number do not reach the output; `functionOperator_eq_mapOperator_iff` — it agrees with
  `MapOperator`'s payload shape, which builds `Event{result, event.metadata()}`, exactly on events
  whose metadata is the default;
* `inRange_int64` — `filters::in_range(lo, hi)` compares an `std::int64_t` payload with
  `static_cast<std::int64_t>` of the bounds; `filter_inRange_exact` — so a `FilterOperator` over
  bounds of `std::int64_t` emits exactly the payloads within them; `inRange_casts_bounds` — a
  fractional `double` bound is truncated and an unsigned bound above `INT64_MAX` wraps;
* `positive_negative_split` — `filters::positive()` and `filters::negative()` never both pass an
  event, and one of them passes it exactly when its payload is a non-zero number: zero, a NaN, a
  string, a blob and an empty payload pass neither.
-/

namespace KLStream

/-! ## What a `process` call does -/

/-- `OperatorStats`, without `backpressure_events`, which these operators do not write. -/
structure OperatorStats where
  eventsReceived : ℕ := 0
  eventsEmitted : ℕ := 0
  eventsDropped : ℕ := 0
  processingTimeNs : ℕ := 0
  deriving DecidableEq

namespace OperatorStats

/-- `record_received()`. -/
def recordReceived (s : OperatorStats) : OperatorStats :=
  { s with eventsReceived := wrap64 (s.eventsReceived + 1) }

/-- `record_emitted()`. -/
def recordEmitted (s : OperatorStats) : OperatorStats :=
  { s with eventsEmitted := wrap64 (s.eventsEmitted + 1) }

/-- `record_dropped()`. -/
def recordDropped (s : OperatorStats) : OperatorStats :=
  { s with eventsDropped := wrap64 (s.eventsDropped + 1) }

/-- `record_processing_time(ns)`. -/
def recordProcessingTime (s : OperatorStats) (ns : ℕ) : OperatorStats :=
  { s with processingTimeNs := wrap64 (s.processingTimeNs + ns) }

end OperatorStats

/-- What a `process(event, ctx)` call does apart from the queues: the events it hands to
`ctx.emit`, in order, and the operator's counters after it. -/
structure Processed where
  emitted : List Event
  stats : OperatorStats

/-- The end of every `process`: `record_processing_time` of the `ns` measured since its start. -/
def Processed.timed (r : Processed) (ns : ℕ) : Processed :=
  { r with stats := r.stats.recordProcessingTime ns }

/-! ## `FunctionOperator` and `MapOperator` -/

/-- The callables `FunctionOperator` accepts, in the order `if constexpr` tests them:
`(Event&, OperatorContext&) → void`, here the events it hands to `ctx.emit`;
`(const Event&) → std::optional<Event>`; and any other `(const Event&) → R`, `R` a payload. -/
inductive FunctionShape
  | withContext (f : Event → List Event)
  | optional (f : Event → Option Event)
  | payload (f : Event → Payload)

/-- **`FunctionOperator<Func>::process(event, ctx)`**; `now` is the clock reading at which the third
shape builds `Event{result}`, `ns` the time measured. -/
def FunctionOperator.process (func : FunctionShape) (stats : OperatorStats) (e : Event)
    (now ns : ℕ) : Processed :=
  let stats := stats.recordReceived
  let r : Processed :=
    match func with
    | .withContext f => ⟨f e, stats⟩
    | .optional f =>
      match f e with
      | some result => ⟨[result], stats.recordEmitted⟩
      | none => ⟨[], stats⟩
    | .payload f => ⟨[Event.ofPayload (f e) now], stats.recordEmitted⟩
  r.timed ns

/-- The callables `MapOperator` accepts, in the order `if constexpr` tests them:
`(const Payload&) → Payload`, `(const Event&) → Event`, and `(Event&, OperatorContext&) → void`. -/
inductive MapShape
  | payload (f : Payload → Payload)
  | event (f : Event → Event)
  | withContext (f : Event → List Event)

/-- **`MapOperator<MapFunc>::process(event, ctx)`**: the payload shape emits
`Event{result, event.metadata()}`. -/
def MapOperator.process (func : MapShape) (stats : OperatorStats) (e : Event) (ns : ℕ) :
    Processed :=
  let stats := stats.recordReceived
  let r : Processed :=
    match func with
    | .payload f => ⟨[⟨f e.payload, e.metadata⟩], stats.recordEmitted⟩
    | .event f => ⟨[f e], stats.recordEmitted⟩
    | .withContext f => ⟨f e, stats⟩
  r.timed ns

/-- **The two payload shapes agree exactly on events with default metadata.** `FunctionOperator`
over `f` of the payload emits and counts what `MapOperator` over `f` does precisely when the event's
metadata is what `Event{result}` builds at the clock reading `now`. -/
theorem functionOperator_eq_mapOperator_iff (f : Payload → Payload) (stats : OperatorStats)
    (e : Event) (now ns : ℕ) :
    FunctionOperator.process (.payload fun e => f e.payload) stats e now ns =
        MapOperator.process (.payload f) stats e ns ↔ e.metadata = { timestamp := now } := by
  simp [FunctionOperator.process, MapOperator.process, Processed.timed, Event.ofPayload, eq_comm]

/-- **The third shape drops the event's metadata.** Whatever the callable, on an event with key `7`
and sequence number `3`, `process` emits exactly one event, with payload `f(e)` but with no key and
no sequence number: `Event{result}` default-constructs its metadata. -/
theorem functionOperator_drops_metadata (f : Event → Payload) (stats : OperatorStats) (now ns : ℕ) :
    ∃ out, (FunctionOperator.process (.payload f) stats
        ⟨.int64 1 (by decide), { key := some 7, sequence := some 3, timestamp := 0 }⟩ now ns).emitted =
          [out] ∧
      out.payload = f ⟨.int64 1 (by decide), { key := some 7, sequence := some 3, timestamp := 0 }⟩ ∧
      out.metadata.key = none ∧ out.metadata.sequence = none :=
  ⟨_, rfl, rfl, rfl, rfl⟩

/-! ## `make_int_map`, `make_double_map` and `make_string_map` -/

/-- An `std::int64_t` value. -/
abbrev Int64 := {v : ℤ // Int64Range v}

/-- The payload function of a typed map: `f` on a payload of the map's type, which `view` reads and
`wrap` builds, and any other payload passed on unchanged. -/
def typedMap {α : Type} (view : Payload → Option α) (wrap : α → Payload) (f : α → α)
    (p : Payload) : Payload :=
  match view p with
  | some v => wrap (f v)
  | none => p

/-- **`make_int_map(name, f)`**'s payload function. -/
def makeIntMap (f : Int64 → Int64) : Payload → Payload :=
  typedMap (fun | .int64 v hv => some ⟨v, hv⟩ | _ => none) (fun v => .int64 v.1 v.2) f

/-- **`make_double_map(name, f)`**'s payload function. -/
def makeDoubleMap (f : Double → Double) : Payload → Payload :=
  typedMap (fun | .double d => some d | _ => none) .double f

/-- **`make_string_map(name, f)`**'s payload function. -/
def makeStringMap (f : String → String) : Payload → Payload :=
  typedMap (fun | .string t => some t | _ => none) .string f

/-! ## `FilterOperator` and `filters::in_range` -/

/-- **`FilterOperator<Predicate>::process(event, ctx)`** for a predicate on the event or on its
payload, `none` where evaluating it is undefined: an event that passes goes to `ctx.emit` and is
counted emitted, any other is counted dropped. -/
def FilterOperator.process (pred : Event → Option Bool) (stats : OperatorStats) (e : Event)
    (ns : ℕ) : Option Processed :=
  (pred e).map fun pass =>
    let stats := stats.recordReceived
    let r : Processed := if pass then ⟨[e], stats.recordEmitted⟩ else ⟨[], stats.recordDropped⟩
    r.timed ns

/-! ## `make_int_filter` and the sign filters of `filters` -/

/-- The payload test of **`make_int_filter(name, pred)`**: `pred` on an `std::int64_t` payload,
`false` on any other. -/
def makeIntFilter (pred : ℤ → Bool) : Payload → Bool
  | .int64 v _ => pred v
  | _ => false

/-- **`filters::even()`**: `*val % 2 == 0` on an `std::int64_t`, the remainder truncated. -/
def Filters.even : Payload → Bool := makeIntFilter fun v => v.tmod 2 == 0

/-- **`filters::odd()`**: `*val % 2 != 0` on an `std::int64_t`. -/
def Filters.odd : Payload → Bool := makeIntFilter fun v => v.tmod 2 != 0

/-- A sign test of `filters`: `onInt` on an `std::int64_t` payload, `onDouble` on a `double`,
`false` on any other. -/
def signFilter (onInt : ℤ → Bool) (onDouble : Double → Bool) : Payload → Bool
  | .int64 v _ => onInt v
  | .double d => onDouble d
  | _ => false

/-- **`filters::positive()`**: `*val > 0` on an `std::int64_t`, `*val > 0.0` on a `double`. -/
def Filters.positive : Payload → Bool := signFilter (fun v => decide (0 < v)) Double.zero.lt

/-- **`filters::negative()`**: `*val < 0` on an `std::int64_t`, `*val < 0.0` on a `double`. -/
def Filters.negative : Payload → Bool := signFilter (fun v => decide (v < 0)) (·.lt Double.zero)

/-- A payload that is a number other than zero: an `std::int64_t` other than `0`, an infinity, or a
finite `double` other than `±0.0`. -/
def Payload.nonzero : Payload → Bool
  | .int64 v _ => decide (v ≠ 0)
  | .double d => if d.IsFinite then decide (d.toRat ≠ 0) else !decide d.IsNaN
  | _ => false

/-- **`filters::positive()` and `filters::negative()` split the nonzero numbers.** No payload passes
both, and a payload passes one of them exactly when it is a number other than zero: `±0.0` and `0`
pass neither, an infinity passes the one of its sign, a NaN neither. -/
theorem positive_negative_split (p : Payload) :
    (Filters.positive p && Filters.negative p) = false ∧
      (Filters.positive p || Filters.negative p) = p.nonzero := by
  cases p with
  | int64 v hv =>
    simp only [Filters.positive, Filters.negative, signFilter, Payload.nonzero]
    constructor <;> by_cases h : v < 0 <;> by_cases h' : 0 < v <;> simp [h, h'] <;> omega
  | double d =>
    simp only [Filters.positive, Filters.negative, signFilter, Payload.nonzero]
    by_cases hn : d.IsNaN
    · simp [Double.lt, hn, hn.1, Double.IsFinite]
    by_cases hf : d.IsFinite
    · have hp := Double.lt_iff Double.zero_isFinite hf
      have hm := Double.lt_iff hf Double.zero_isFinite
      rw [Double.toRat_zero] at hp hm
      rcases lt_trichotomy d.toRat 0 with h | h | h
      · simp [hf, h.ne, hm.2 h, hp.not.2 (not_lt.2 h.le)]
      · simp [hf, h, hm.not.2 h.not_lt, hp.not.2 h.symm.not_lt]
      · simp [hf, h.ne', hp.2 h, hm.not.2 (not_lt.2 h.le)]
    · cases hneg : d.negative <;> simp [Double.lt, Double.le, hn, hf, hneg]
  | _ => simp [Filters.positive, Filters.negative, signFilter, Payload.nonzero]

/-- A bound of `filters::in_range<T>`, by its arithmetic type `T`: an integer type (`bool`, the
character types, the signed and unsigned integer types, all within 64 bits), whose values lie in
`[-2 ^ 63, 2 ^ 64)`; or a floating type whose values are `double`s (`float`, `double`). -/
inductive Bound
  | integer (x : ℤ) (mem : -2 ^ 63 ≤ x ∧ x < 2 ^ 64)
  | floating (d : Double)

namespace Bound

/-- `static_cast<std::int64_t>(b)`: modulo `2 ^ 64` from an integer type (C++20), truncation from
a floating one, `none` where that is undefined. -/
def toInt64 : Bound → Option ℤ
  | .integer x _ => some (wrapInt64 x)
  | .floating d => d.truncInt64

/-- `static_cast<double>(b)`. -/
def toDouble : Bound → Double
  | .integer x _ => Double.ofInt x
  | .floating d => d

end Bound

/-- **`filters::in_range(min_val, max_val)`** on a payload: an `std::int64_t` against the bounds
cast to `std::int64_t` (the upper one only once the lower test passed, `&&` being short-circuit), a
`double` against the bounds cast to `double`, and `false` for any other payload; `none` where a cast
is undefined. -/
def inRange (lo hi : Bound) : Payload → Option Bool
  | .int64 v _ =>
    lo.toInt64.bind fun l => if v ≥ l then hi.toInt64.map fun h => decide (v ≤ h) else some false
  | .double d => some (lo.toDouble.le d && d.le hi.toDouble)
  | _ => some false

/-- **`in_range` compares an `std::int64_t` payload with the bounds cast to `std::int64_t`.** -/
theorem inRange_int64 {lo hi : Bound} {l h v : ℤ} (hl : lo.toInt64 = some l)
    (hh : hi.toInt64 = some h) (hv : Int64Range v) :
    inRange lo hi (.int64 v hv) = some (decide (l ≤ v ∧ v ≤ h)) := by
  by_cases hlv : l ≤ v <;> simp [inRange, hl, hh, hlv]

/-- **Over bounds of `std::int64_t`, the filter is exact.** For bounds of an integer type whose
values are below `2 ^ 63` (those of `std::int64_t` and of every narrower type) and an event with an
`std::int64_t` payload `v`, `process` emits the event and counts it emitted when `lo ≤ v ≤ hi`, and
otherwise emits nothing and counts it dropped. -/
theorem filter_inRange_exact {lo hi : ℤ} (mlo : -2 ^ 63 ≤ lo ∧ lo < 2 ^ 64)
    (mhi : -2 ^ 63 ≤ hi ∧ hi < 2 ^ 64) (hlo : lo < 2 ^ 63) (hhi : hi < 2 ^ 63)
    (stats : OperatorStats) {e : Event} {v : ℤ} {hv : Int64Range v} (he : e.payload = .int64 v hv)
    (ns : ℕ) :
    FilterOperator.process (fun e => inRange (.integer lo mlo) (.integer hi mhi) e.payload) stats e
        ns =
      some (if lo ≤ v ∧ v ≤ hi then ⟨[e], stats.recordReceived.recordEmitted.recordProcessingTime ns⟩
        else ⟨[], stats.recordReceived.recordDropped.recordProcessingTime ns⟩) := by
  have hl : (Bound.integer lo mlo).toInt64 = some lo := congrArg some (wrapInt64_of_mem ⟨mlo.1, hlo⟩)
  have hh : (Bound.integer hi mhi).toInt64 = some hi := congrArg some (wrapInt64_of_mem ⟨mhi.1, hhi⟩)
  rw [FilterOperator.process, he, inRange_int64 hl hh hv, Option.map_some']
  by_cases hin : lo ≤ v ∧ v ≤ hi <;> simp [hin, Processed.timed]

theorem filter_inRange_exact_ten_twenty :
    ((-2 ^ 63 ≤ (10 : ℤ) ∧ (10 : ℤ) < 2 ^ 64) ∧ (-2 ^ 63 ≤ (20 : ℤ) ∧ (20 : ℤ) < 2 ^ 64) ∧
      (10 : ℤ) < 2 ^ 63 ∧ (20 : ℤ) < 2 ^ 63 ∧ Int64Range 15) ∧
    FilterOperator.process (fun e => inRange (.integer 10 (by decide)) (.integer 20 (by decide))
        e.payload) {} ⟨.int64 15 (by decide), { timestamp := 0 }⟩ 0 =
      some (if (10 : ℤ) ≤ 15 ∧ (15 : ℤ) ≤ 20 then
          ⟨[⟨.int64 15 (by decide), { timestamp := 0 }⟩],
            ({} : OperatorStats).recordReceived.recordEmitted.recordProcessingTime 0⟩
        else ⟨[], ({} : OperatorStats).recordReceived.recordDropped.recordProcessingTime 0⟩) :=
  ⟨by decide, filter_inRange_exact (by decide) (by decide) (by decide) (by decide) {} rfl 0⟩

/-- **`in_range` compares with the bounds cast to `std::int64_t`, not with the bounds.** The
`double` bounds `0.5` and `1.5` become `0` and `1`, so the payload `0`, below `0.5`, is emitted;
the `std::uint64_t` bounds `0` and `2 ^ 64 - 1` become `0` and `-1`, so the payload `5`, between
them, is dropped. -/
theorem inRange_casts_bounds :
    (FilterOperator.process
        (fun e => inRange (.floating ⟨0x3FE0000000000000⟩) (.floating ⟨0x3FF8000000000000⟩) e.payload)
        {} ⟨.int64 0 (by decide), { timestamp := 0 }⟩ 0).map (·.emitted.length) = some 1 ∧
      (⟨0x3FE0000000000000⟩ : Double).toRat = 1 / 2 ∧
    (FilterOperator.process
        (fun e => inRange (.integer 0 (by decide)) (.integer (2 ^ 64 - 1) (by decide)) e.payload)
        {} ⟨.int64 5 (by decide), { timestamp := 0 }⟩ 0).map (·.stats.eventsDropped) = some 1 := by
  refine ⟨by decide, ?_, by decide⟩
  rw [Double.toRat, show Double.signedSignificand ⟨0x3FE0000000000000⟩ = 2 ^ 52 by decide,
    show Double.power ⟨0x3FE0000000000000⟩ = -53 by decide]
  norm_num

end KLStream
