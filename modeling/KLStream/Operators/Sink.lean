import KLStream.Operators.Event
import Mathlib.Algebra.Ring.Int.Defs

/-!
# Operators/Sink — `AggregatingSink`

`consume` adds an `std::int64_t` payload, or a `double` payload cast to `std::int64_t`, to `sum_`
and counts it in `count_`; only an `std::int64_t` payload moves `min_` and `max_`, and every other
payload is skipped. `sum_ +=` is taken in two's complement, `count_++` modulo `2 ^ 64`; a cast out
of `std::int64_t` is undefined behaviour (`none`), and depends on the event alone.

* `consume_comm` — two `consume` calls commute, so `aggregatingSink_perm`: over any permutation of
  the events a fresh sink ends in the same state;
* `aggregatingSink_report` — over any events a sink is defined exactly when every
  `double` payload casts into `std::int64_t`, and then holds the number and the two's-complement
  sum of the counted values added to its own, the least of its `min_` and the `std::int64_t`
  payloads, and the greatest of its `max_` and them;
  `double_payload_skips_min_max` — so a sink that counted only `double` payloads reports
  `min() > max()`.
-/

namespace KLStream

/-- `AggregatingSink`: `sum_`, `count_`, `min_` and `max_`, each within its type. -/
@[ext]
structure AggregatingSink where
  sum : ℤ := 0
  count : ℕ := 0
  min : ℤ := 2 ^ 63 - 1
  max : ℤ := -2 ^ 63
  sum_mem : Int64Range sum := by decide
  count_lt : count < 2 ^ 64 := by decide
  min_mem : Int64Range min := by decide
  max_mem : Int64Range max := by decide

namespace AggregatingSink

/-- `sum_ += value; count_++;` -/
def add (s : AggregatingSink) (v : ℤ) : AggregatingSink :=
  { s with sum := wrapInt64 (s.sum + v), count := wrap64 (s.count + 1),
           sum_mem := wrapInt64_mem _, count_lt := wrap64_lt _ }

/-- `if (*value < min_) min_ = *value; if (*value > max_) max_ = *value;` -/
def track (s : AggregatingSink) (v : ℤ) (hv : Int64Range v) : AggregatingSink :=
  { s with min := if v < s.min then v else s.min, max := if v > s.max then v else s.max,
           min_mem := by split <;> first | exact hv | exact s.min_mem,
           max_mem := by split <;> first | exact hv | exact s.max_mem }

/-- **`AggregatingSink::consume(event)`**: an `std::int64_t` payload is added and tracked, a
`double` payload is cast to `std::int64_t` and added (`none`: the cast is undefined), any other
payload is skipped. -/
def consume (s : AggregatingSink) (e : Event) : Option AggregatingSink :=
  match e.payload with
  | .int64 v hv => some ((s.add v).track v hv)
  | .double d => d.truncInt64.map s.add
  | _ => some s

/-- `consume` called on each event in turn. -/
def consumeAll (s : AggregatingSink) : List Event → Option AggregatingSink
  | [] => some s
  | e :: es => (s.consume e).bind (·.consumeAll es)

section Fields

variable (s : AggregatingSink) (v : ℤ) (hv : Int64Range v)

@[simp] theorem add_sum : (s.add v).sum = wrapInt64 (s.sum + v) := rfl
@[simp] theorem add_count : (s.add v).count = wrap64 (s.count + 1) := rfl
@[simp] theorem add_min : (s.add v).min = s.min := rfl
@[simp] theorem add_max : (s.add v).max = s.max := rfl
@[simp] theorem track_sum : (s.track v hv).sum = s.sum := rfl
@[simp] theorem track_count : (s.track v hv).count = s.count := rfl

@[simp] theorem track_min : (s.track v hv).min = Min.min v s.min := by
  simp only [track, min_def]; split_ifs <;> omega

@[simp] theorem track_max : (s.track v hv).max = Max.max v s.max := by
  simp only [track, max_def]; split_ifs <;> omega

end Fields

/-! ## Order does not matter -/

variable {s : AggregatingSink}

theorem add_add (a b : ℤ) : (s.add a).add b = (s.add b).add a := by
  ext <;> simp [wrapInt64_add_wrapInt64, add_right_comm]

theorem track_track {a b : ℤ} (ha : Int64Range a) (hb : Int64Range b) :
    (s.track a ha).track b hb = (s.track b hb).track a ha := by
  ext <;> simp [min_left_comm, max_left_comm]

theorem add_track (a : ℤ) {b : ℤ} (hb : Int64Range b) :
    (s.add a).track b hb = (s.track b hb).add a := rfl

/-- **How `consume` treats an event, whatever the sink**: it adds and tracks an `std::int64_t`; it
is undefined on a `double` whose cast is, and otherwise adds the cast value; it skips any other
payload. -/
theorem consume_cases (e : Event) :
    (∃ v hv, ∀ s : AggregatingSink, s.consume e = some ((s.add v).track v hv)) ∨
      (∀ s : AggregatingSink, s.consume e = none) ∨
      (∃ v, ∀ s : AggregatingSink, s.consume e = some (s.add v)) ∨
      ∀ s : AggregatingSink, s.consume e = some s := by
  unfold consume
  split
  · rename_i v hv _
    exact .inl ⟨v, hv, fun _ => rfl⟩
  · rename_i d _
    cases d.truncInt64
    · exact .inr (.inl fun _ => rfl)
    · exact .inr (.inr (.inl ⟨_, fun _ => rfl⟩))
  all_goals exact .inr (.inr (.inr fun _ => rfl))

/-- **Two `consume` calls commute**, undefined behaviour included: whether a cast is defined depends
on the event alone, and adding and tracking values commute. -/
theorem consume_comm (a b : Event) :
    (s.consume a).bind (·.consume b) = (s.consume b).bind (·.consume a) := by
  rcases consume_cases a with ⟨v, hv, ha⟩ | ha | ⟨v, ha⟩ | ha <;>
    rcases consume_cases b with ⟨w, hw, hb⟩ | hb | ⟨w, hb⟩ | hb <;>
    simp [ha, hb, add_track, add_add, track_track]

/-- **Over any permutation of the events a sink ends in the same state**, the same `sum()`,
`count()`, `min()` and `max()`, or is undefined over both. -/
theorem aggregatingSink_perm (s : AggregatingSink) {es es' : List Event} (h : es.Perm es') :
    s.consumeAll es = s.consumeAll es' := by
  induction h generalizing s with
  | nil => rfl
  | cons e _ ih => exact congrArg (Option.bind _) (funext ih)
  | swap a b l =>
    simp only [consumeAll]
    rw [← Option.bind_assoc, ← Option.bind_assoc, consume_comm]
  | trans _ _ ih₁ ih₂ => exact (ih₁ s).trans (ih₂ s)

theorem aggregatingSink_perm_int_double :
    ([⟨.int64 3 (by decide), { timestamp := 0 }⟩, ⟨.double ⟨0x4004000000000000⟩, { timestamp := 1 }⟩] :
        List Event).Perm
      [⟨.double ⟨0x4004000000000000⟩, { timestamp := 1 }⟩, ⟨.int64 3 (by decide), { timestamp := 0 }⟩] ∧
    ({} : AggregatingSink).consumeAll
        [⟨.int64 3 (by decide), { timestamp := 0 }⟩, ⟨.double ⟨0x4004000000000000⟩, { timestamp := 1 }⟩] =
      ({} : AggregatingSink).consumeAll
        [⟨.double ⟨0x4004000000000000⟩, { timestamp := 1 }⟩, ⟨.int64 3 (by decide), { timestamp := 0 }⟩] :=
  ⟨.swap _ _ _, aggregatingSink_perm {} (.swap _ _ _)⟩

/-! ## What the sink reports -/

/-- The values `consume` counts, in order: the `std::int64_t` payloads, and the `double` payloads
cast to `std::int64_t`; `none` if a cast is undefined. -/
def countedValues : List Event → Option (List ℤ)
  | [] => some []
  | e :: es =>
    match e.payload with
    | .int64 v _ => (countedValues es).map (v :: ·)
    | .double d => d.truncInt64.bind fun v => (countedValues es).map (v :: ·)
    | _ => countedValues es

/-- The `std::int64_t` payloads, in order. -/
def int64Values : List Event → List ℤ
  | [] => []
  | e :: es =>
    match e.payload with
    | .int64 v _ => v :: int64Values es
    | _ => int64Values es

/-- **What a sink reports after any events**: it is defined exactly when every `double` payload
casts into `std::int64_t`; then `sum()` has added the counted values in two's complement, `count()`
has counted them modulo `2 ^ 64`, and `min()` and `max()` have met the `std::int64_t` payloads
alone. -/
theorem aggregatingSink_report (s : AggregatingSink) (es : List Event) :
    (s.consumeAll es).map (fun t => (t.sum, t.count, t.min, t.max)) =
      (countedValues es).map fun V => (wrapInt64 (s.sum + V.sum), wrap64 (s.count + V.length),
        (int64Values es).foldl Min.min s.min, (int64Values es).foldl Max.max s.max) := by
  induction es generalizing s with
  | nil =>
    simp [consumeAll, countedValues, int64Values, wrapInt64_of_mem s.sum_mem, wrap64_of_lt s.count_lt]
  | cons e es ih =>
    cases he : e.payload
    case double d =>
      rcases ht : d.truncInt64 with _ | v <;>
        simp [consumeAll, countedValues, int64Values, consume, he, ht, ih, Function.comp_def,
          wrapInt64_add_wrapInt64, wrap64_add_wrap64, add_assoc, Nat.add_comm 1]
    all_goals simp [consumeAll, countedValues, int64Values, consume, he, ih, Function.comp_def,
      wrapInt64_add_wrapInt64, wrap64_add_wrap64, add_assoc, Nat.add_comm 1, min_comm, max_comm]

/-- **A sink that counted only `double`s reports `min() > max()`.** One event carrying the `double`
`2.0` is counted, `count() = 1` and `sum() = 2`, but `min_` and `max_` keep their initial values. -/
theorem double_payload_skips_min_max :
    ∃ t, ({} : AggregatingSink).consumeAll [⟨.double ⟨0x4000000000000000⟩, { timestamp := 0 }⟩] = some t ∧
      t.count = 1 ∧ t.sum = 2 ∧ t.min = 2 ^ 63 - 1 ∧ t.max = -2 ^ 63 ∧ t.max < t.min :=
  ⟨_, rfl, rfl, by decide, rfl, rfl, by decide⟩

end AggregatingSink

end KLStream
