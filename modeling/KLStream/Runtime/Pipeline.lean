import KLStream.Runtime.Dataflow
import KLStream.Operators.Transform
import KLStream.Operators.Sink

/-!
# Runtime/Pipeline — a line of operators computes the composition of their functions

A graph built as a line `o₀ → o₁ → … → oₙ` — one `connect` from each operator to the next, in
order — is wired by `Runtime::init` into one queue per edge, queue `i` from `oᵢ` to `oᵢ₊₁`. The
instances come in the iteration order of `operators_`, an `std::unordered_map`, so nothing here
depends on it (`IsLine` takes the operators in any order).

* `line_wiring` — instance `oᵢ` writes queue `i` only, and reads queue `i - 1` only;
* `ReachableBy.line` — along every run in which each operator `o` emits `f o e` on the event `e`,
  with any number of workers and either policy: once every queue is empty, every worker idle, and
  `stop` has closed no queue, the events operator `oᵢ₊₁` has processed are, as a multiset, the
  events queue `0` accepted, put through `f o₁`, …, `f oᵢ` in turn.

`IntegrationTest.MapFilterPipeline` and `examples/simple_pipeline.cpp` run such a line,
`source → square → even → sink`:

* `mapFilterOps_refines` — on an event carrying `v` whose square fits in `std::int64_t`,
  `MapOperator` over `make_int_map(square)` and `FilterOperator` over `filters::even()` emit what the
  value-level operators `mapFilterOps` say;
* `ReachableBy.mapFilterReport` — if the source's queue accepted `1, …, n`, the sink has been handed
  the even squares among `1², …, n²`, for every `n`, schedule and worker count, and an
  `AggregatingSink` there reports their number and their sum.
-/

namespace KLStream

/-! ## Lines -/

/-- The edges `connect(o₀, o₁)`, …, `connect(oₙ₋₁, oₙ)` of the line `names`, in order. -/
def chainEdges : List String → List Edge
  | a :: b :: rest => ⟨a, b⟩ :: chainEdges (b :: rest)
  | _ => []

theorem getElem?_chainEdges (names : List String) (j : ℕ) :
    (chainEdges names)[j]? = names[j]?.bind fun a => names[j + 1]?.map fun b => ⟨a, b⟩ := by
  induction names generalizing j with
  | nil => rfl
  | cons a rest ih =>
    cases rest with
    | nil => cases j <;> rfl
    | cons b rest =>
      cases j with
      | zero => simp [chainEdges]
      | succ j => simpa [chainEdges] using ih j

theorem length_chainEdges (names : List String) : (chainEdges names).length = names.length - 1 := by
  induction names with
  | nil => rfl
  | cons a rest ih =>
    cases rest with
    | nil => rfl
    | cons b rest => simp [chainEdges, ih]

/-- The edge `j` of a line leaves the operator `names[j]` and enters `names[j + 1]`. -/
theorem chainEdges_getElem_mem_iff {names : List String} {j : ℕ} (P : Edge → Prop) :
    (∃ h : j < (chainEdges names).length, P (chainEdges names)[j]) ↔
      ∃ a b, names[j]? = some a ∧ names[j + 1]? = some b ∧ P ⟨a, b⟩ := by
  constructor
  · rintro ⟨h, hp⟩
    have := List.getElem?_eq_getElem h
    rw [getElem?_chainEdges] at this
    obtain ⟨a, ha, hb⟩ := Option.bind_eq_some.1 this
    obtain ⟨b, hb, he⟩ := Option.map_eq_some'.1 hb
    exact ⟨a, b, ha, hb, he ▸ hp⟩
  · rintro ⟨a, b, ha, hb, hp⟩
    have he : (chainEdges names)[j]? = some ⟨a, b⟩ := by simp [getElem?_chainEdges, ha, hb]
    obtain ⟨h, he'⟩ := List.getElem?_eq_some_iff.1 he
    exact ⟨h, he' ▸ hp⟩

/-- **`b` is the line `names`**: its operators are those named in `names`, in any iteration order,
its edges join each name to the next, in order, and no operator but the first is a source. -/
structure IsLine (b : StreamGraphBuilder) (names : List String) : Prop where
  perm : (b.operators.map Prod.fst).Perm names
  edges : b.edges = chainEdges names
  sources : ∀ o ∈ b.operators, o.2 = true → names.head? = some o.1

variable {b : StreamGraphBuilder} {names : List String}

theorem IsLine.nodup (hl : IsLine b names) : names.Nodup := hl.perm.nodup_iff.1 b.nodup

/-- Edge `k` of a line leaves `names[m]` exactly when `k = m` and `names[m]` is not the last. -/
theorem mem_idsOf_from_chainEdges (hnd : names.Nodup) {m k : ℕ} (hm : m < names.length) :
    k ∈ idsOf (·.fromOperator = names[m]) (chainEdges names) 0 ↔ k = m ∧ m + 1 < names.length := by
  rw [mem_idsOf_zero, chainEdges_getElem_mem_iff (fun e => decide (e.fromOperator = names[m]) = true)]
  constructor
  · rintro ⟨a, c, ha, hc, he⟩
    obtain ⟨hk, rfl⟩ := List.getElem?_eq_some_iff.1 ha
    have hkm : k = m := (hnd.getElem_inj_iff).1 (of_decide_eq_true he)
    subst hkm
    exact ⟨rfl, (List.getElem?_eq_some_iff.1 hc).1⟩
  · rintro ⟨rfl, hk⟩
    exact ⟨_, _, List.getElem?_eq_getElem hm, List.getElem?_eq_getElem hk, by simp⟩

/-- Edge `k` of a line enters `names[m]` exactly when `k + 1 = m`. -/
theorem mem_idsOf_to_chainEdges (hnd : names.Nodup) {m k : ℕ} (hm : m < names.length) :
    k ∈ idsOf (·.toOperator = names[m]) (chainEdges names) 0 ↔ k + 1 = m := by
  rw [mem_idsOf_zero, chainEdges_getElem_mem_iff (fun e => decide (e.toOperator = names[m]) = true)]
  constructor
  · rintro ⟨a, c, -, hc, he⟩
    obtain ⟨hk, rfl⟩ := List.getElem?_eq_some_iff.1 hc
    exact (hnd.getElem_inj_iff).1 (of_decide_eq_true he)
  · rintro rfl
    exact ⟨_, _, List.getElem?_eq_getElem (by omega), List.getElem?_eq_getElem hm, by simp⟩

/-! ## How `Runtime::init` wires a line -/

section Wiring

variable (nw : ℕ) (policy : SchedulingPolicy) {j : ℕ} (hj : j < b.operators.length)

include hj in
theorem ofGraph_outputs :
    (RunConfig.ofGraph b nw policy).outputs j = idsOf (·.fromOperator = b.operators[j].1) b.edges 0 := by
  simp [RunConfig.outputs, RunConfig.ofGraph, wireInstances, connectQueues_fst,
    List.getElem?_eq_getElem hj]

include hj in
theorem ofGraph_input :
    (RunConfig.ofGraph b nw policy).input j =
      (idsOf (·.toOperator = b.operators[j].1) b.edges 0).getLast? := by
  simp [RunConfig.input, RunConfig.ofGraph, wireInstances, connectQueues_snd,
    List.getElem?_eq_getElem hj]

include hj in
theorem ofGraph_isSource : (RunConfig.ofGraph b nw policy).isSource j = b.operators[j].2 := by
  simp [RunConfig.isSource, RunConfig.ofGraph, wireInstances, List.getElem?_eq_getElem hj]

end Wiring

/-- Two instances of one name are one instance. -/
theorem operators_name_inj {j j' : ℕ} (hj : j < b.operators.length) (hj' : j' < b.operators.length)
    (h : b.operators[j].1 = b.operators[j'].1) : j = j' := by
  have hl : j < (b.operators.map Prod.fst).length := by simpa using hj
  have hl' : j' < (b.operators.map Prod.fst).length := by simpa using hj'
  exact b.nodup.getElem_inj_iff.1 (show (b.operators.map Prod.fst)[j] = (b.operators.map Prod.fst)[j']
    by rw [List.getElem_map, List.getElem_map]; exact h)

namespace IsLine

variable (hl : IsLine b names) (nw : ℕ) (policy : SchedulingPolicy)

include hl in
/-- Every name of the line is an operator of the graph. -/
theorem exists_index {m : ℕ} (hm : m < names.length) :
    ∃ j, ∃ hj : j < b.operators.length, b.operators[j].1 = names[m] := by
  obtain ⟨j, hj, he⟩ := List.mem_iff_getElem.1 (hl.perm.mem_iff.2 (List.getElem_mem hm))
  exact ⟨j, by simpa using hj, by simpa using he⟩

include hl in
/-- Every operator of the graph is a name of the line. -/
theorem exists_position {j : ℕ} (hj : j < b.operators.length) :
    ∃ m, ∃ hm : m < names.length, b.operators[j].1 = names[m] := by
  obtain ⟨m, hm, he⟩ :=
    List.mem_iff_getElem.1 (hl.perm.mem_iff.1 (List.mem_map_of_mem _ (List.getElem_mem hj)))
  exact ⟨m, hm, he.symm⟩

variable {j m : ℕ} (hj : j < b.operators.length) (hm : m < names.length)
  (hjm : b.operators[j].1 = names[m])

include hl hj hm hjm in
/-- **The instance of `names[m]` writes queue `m`**, and no other, unless it is the last. -/
theorem mem_outputs {k : ℕ} :
    k ∈ (RunConfig.ofGraph b nw policy).outputs j ↔ k = m ∧ m + 1 < names.length := by
  rw [ofGraph_outputs nw policy hj, hjm, hl.edges]
  exact mem_idsOf_from_chainEdges hl.nodup hm

include hl hj hm hjm in
/-- **The instance of `names[m]` reads queue `m - 1`**, and the first reads none. -/
theorem input_eq_some {k : ℕ} :
    (RunConfig.ofGraph b nw policy).input j = some k ↔ k + 1 = m := by
  rw [ofGraph_input nw policy hj, hjm, hl.edges]
  have hmem : ∀ k, k ∈ idsOf (·.toOperator = names[m]) (chainEdges names) 0 ↔ k + 1 = m :=
    fun _ => mem_idsOf_to_chainEdges hl.nodup hm
  constructor
  · exact fun h => (hmem k).1 (List.mem_of_getLast?_eq_some h)
  · intro h
    have hne := List.ne_nil_of_mem ((hmem k).2 h)
    rw [List.getLast?_eq_getLast _ hne, Option.some.injEq]
    have := (hmem _).1 (List.getLast_mem hne)
    omega

include hl hj hm hjm in
/-- Only the first operator of a line can be a source. -/
theorem eq_zero_of_isSource (hs : (RunConfig.ofGraph b nw policy).isSource j = true) : m = 0 := by
  have h := hl.sources _ (List.getElem_mem hj) (by rwa [ofGraph_isSource nw policy hj] at hs)
  rw [hjm, List.head?_eq_getElem?] at h
  exact (hl.nodup.getElem_inj_iff).1 (List.getElem?_eq_some_iff.1 h).2.symm

end IsLine

/-- **How `Runtime::init` wires a stage of a line.** The instance `j` of `names[m]`, neither first
nor last, is alone in writing queue `m`, which it has once among its outputs and no source writes,
and alone in reading queue `m - 1`, its input. -/
theorem line_wiring (hl : IsLine b names) (nw : ℕ) (policy : SchedulingPolicy) {j m : ℕ}
    (hj : j < b.operators.length) (hm : m + 1 < names.length)
    (hjm : b.operators[j].1 = names[m]) (h0 : 0 < m) :
    (∀ j' ∈ (RunConfig.ofGraph b nw policy).sourceIds, m ∉ (RunConfig.ofGraph b nw policy).outputs j') ∧
      ((RunConfig.ofGraph b nw policy).outputs j).count m = 1 ∧
      (∀ j' < (RunConfig.ofGraph b nw policy).instances.length, j' ≠ j →
        m ∉ (RunConfig.ofGraph b nw policy).outputs j') ∧
      (RunConfig.ofGraph b nw policy).input j = some (m - 1) ∧
      ∀ j' < (RunConfig.ofGraph b nw policy).instances.length,
        (RunConfig.ofGraph b nw policy).input j' = some (m - 1) → j' = j := by
  have hlen : (RunConfig.ofGraph b nw policy).instances.length = b.operators.length := by
    simp [RunConfig.ofGraph, wireInstances]
  refine ⟨fun j' hj' hmem => ?_, ?_, fun j' hj' hne hmem => ?_,
    (hl.input_eq_some nw policy hj (by omega) hjm).2 (by omega), fun j' hj' hin => ?_⟩
  · have hs := (RunConfig.mem_sourceIds _).1 hj'
    have hj'l : j' < b.operators.length := by
      by_contra hge
      simp [RunConfig.isSource, RunConfig.ofGraph, wireInstances,
        List.getElem?_eq_none (Nat.le_of_not_lt hge)] at hs
    obtain ⟨m', hm', hjm'⟩ := hl.exists_position hj'l
    have := hl.eq_zero_of_isSource nw policy hj'l hm' hjm' hs
    have := ((hl.mem_outputs nw policy hj'l hm' hjm').1 hmem).1
    omega
  · refine List.count_eq_one_of_mem ?_ ((hl.mem_outputs nw policy hj (by omega) hjm).2 ⟨rfl, hm⟩)
    rw [ofGraph_outputs nw policy hj]
    exact nodup_idsOf _ _
  · rw [hlen] at hj'
    obtain ⟨m', hm', hjm'⟩ := hl.exists_position hj'
    obtain ⟨rfl, -⟩ := (hl.mem_outputs nw policy hj' hm' hjm').1 hmem
    exact hne (operators_name_inj hj' hj (hjm'.trans hjm.symm))
  · rw [hlen] at hj'
    obtain ⟨m', hm', hjm'⟩ := hl.exists_position hj'
    have := (hl.input_eq_some nw policy hj' hm' hjm').1 hin
    obtain rfl : m' = m := by omega
    exact operators_name_inj hj' hj (hjm'.trans hjm.symm)

/-! ## What a line computes -/

/-- Each instance emits what the function of its operator, by name, gives. -/
def RunConfig.opByName (cfg : RunConfig) (f : String → ℕ → List ℕ) (j e : ℕ) : List ℕ :=
  ((cfg.instances[j]?).map fun i => f i.name e).getD []

theorem ofGraph_opByName (nw : ℕ) (policy : SchedulingPolicy) {j : ℕ} (hj : j < b.operators.length)
    (f : String → ℕ → List ℕ) : (RunConfig.ofGraph b nw policy).opByName f j = f b.operators[j].1 := by
  funext e
  simp [RunConfig.opByName, RunConfig.ofGraph, wireInstances, List.getElem?_eq_getElem hj]

/-- The events `es` put through the functions of the operators `stages`, in turn. -/
def throughLine (f : String → ℕ → List ℕ) (stages : List String) (es : List ℕ) : List ℕ :=
  stages.foldl (fun acc o => acc.flatMap (f o)) es

/-- Putting events through a line does not depend on their order. -/
theorem throughLine_perm {es es' : List ℕ} (h : es.Perm es') (f : String → ℕ → List ℕ)
    (stages : List String) : (throughLine f stages es).Perm (throughLine f stages es') := by
  induction stages generalizing es es' with
  | nil => exact h
  | cons o stages ih => exact ih (h.flatMap_right _)

theorem throughLine_take_succ (f : String → ℕ → List ℕ) (es : List ℕ) {i : ℕ}
    (h : i + 1 < names.length) :
    throughLine f ((names.drop 1).take (i + 1)) es =
      (throughLine f ((names.drop 1).take i) es).flatMap (f names[i + 1]) := by
  rw [List.take_succ, List.getElem?_drop, Nat.add_comm 1 i, List.getElem?_eq_getElem h]
  simp [throughLine, List.foldl_append]

/-- `stop` closes the queues in order, so one it has closed comes after those before it. -/
theorem StopPhase.HasClosed.of_le {p : StopPhase} {k k' : ℕ} (h : p.HasClosed k) (hk : k' ≤ k) :
    p.HasClosed k' := by
  cases p <;> simp only [StopPhase.HasClosed] at h ⊢
  omega

namespace RunState

variable {C : Capacity} {nw : ℕ} {policy : SchedulingPolicy} {s : RunState C}

/-- **A line computes the composition of its operators.** Along every run of the line `names` in
which each operator `o` emits `f o e` on the event `e`, with any number of workers, either policy,
and any iteration order of `operators_`: once every queue is empty, every worker idle, and `stop`
has closed no queue, the events passed to `process` of `names[i + 1]` are, as a multiset, the
events queue `0` accepted put through `f names[1]`, …, `f names[i]` in turn. -/
theorem ReachableBy.line (hl : IsLine b names) (f : String → ℕ → List ℕ)
    (hs : s.ReachableBy (.ofGraph b nw policy) ((RunConfig.ofGraph b nw policy).opByName f))
    (hempty : ∀ k < b.edges.length, (s.queues k).size = 0)
    (hidle : ∀ w < nw, (s.workers w).busy = false) (hcl : ¬ s.stop.HasClosed 0) {i : ℕ}
    (hi : i + 1 < names.length) :
    (s.log.flatMap (Obs.processedFrom (.ofGraph b nw policy) i) : Multiset ℕ) =
      throughLine f ((names.drop 1).take i) (s.log.flatMap (Obs.into 0)) := by
  have hq : ∀ k, k + 1 < names.length → (s.queues k).size = 0 := fun k hk =>
    hempty k (by rw [hl.edges, length_chainEdges]; omega)
  induction i with
  | zero => exact hs.reachable.processedFrom_eq_into (hq 0 hi) hidle
  | succ i ih =>
    obtain ⟨j, hj, hjm⟩ := hl.exists_index (show i + 1 < names.length by omega)
    obtain ⟨hsrc, hout, hwriter, hin, hreader⟩ := line_wiring hl nw policy hj hi hjm (Nat.succ_pos i)
    rw [hs.processedFrom_eq_bind hsrc hout hwriter hin hreader
      (fun h => hcl (h.of_le (Nat.zero_le _))) (hq _ hi) hidle, ofGraph_opByName nw policy hj, hjm,
      throughLine_take_succ f _ (show i + 1 < names.length by omega)]
    exact Multiset.coe_eq_coe.2 ((Multiset.coe_eq_coe.1 (ih (by omega))).flatMap_right _)

end RunState

/-! ## `IntegrationTest.MapFilterPipeline` -/

/-- The line of `IntegrationTest.MapFilterPipeline`: `source → square → even → sink`. -/
def mapFilterLine : List String := ["source", "square", "even", "sink"]

/-- The graph of `IntegrationTest.MapFilterPipeline`, its operators in one iteration order. -/
def mapFilterGraph : StreamGraphBuilder :=
  ⟨[("source", true), ("square", false), ("even", false), ("sink", false)], chainEdges mapFilterLine,
    by decide⟩

theorem mapFilterGraph_isLine : IsLine mapFilterGraph mapFilterLine := ⟨by decide, rfl, by decide⟩

/-- The test's `square`, `x * x` on an `std::int64_t`. Where the product leaves `std::int64_t` the
C++ multiplication is undefined behaviour; the model wraps it, and `mapFilterOps_refines` reads it
only where it fits. -/
def square (v : Int64) : Int64 := ⟨wrapInt64 (v.1 * v.1), wrapInt64_mem _⟩

/-- What the operators of the line emit on the value `e`: `square` its square, `even` the value
when it is even, `source` and `sink` nothing. -/
def mapFilterOps : String → ℕ → List ℕ
  | "square", e => [e * e]
  | "even", e => if e % 2 = 0 then [e] else []
  | _, _ => []

/-- The event with metadata `md` that carries the value `v` as its `std::int64_t` payload. -/
def intEvent (md : EventMetadata) (v : ℕ) : Event := ⟨.int64 (wrapInt64 v) (wrapInt64_mem _), md⟩

/-- **The operators of the line act on values as `mapFilterOps` says.** On an event carrying `v`,
with `v * v` below `2 ^ 63`, `MapOperator` over `make_int_map(square)` emits the events carrying
`mapFilterOps "square" v`, and `FilterOperator` over `filters::even()` those carrying
`mapFilterOps "even" v`, each with the event's metadata. -/
theorem mapFilterOps_refines {v : ℕ} (hv : v * v < 2 ^ 63) (md : EventMetadata)
    (stats : OperatorStats) (ns : ℕ) :
    (MapOperator.process (.payload (makeIntMap square)) stats (intEvent md v) ns).emitted =
        (mapFilterOps "square" v).map (intEvent md) ∧
      (FilterOperator.process (fun e => some (Filters.even e.payload)) stats (intEvent md v)
        ns).map (·.emitted) = some ((mapFilterOps "even" v).map (intEvent md)) := by
  have hv' : v < 2 ^ 63 := lt_of_le_of_lt (Nat.le_mul_self v) hv
  have hw : wrapInt64 v = v := wrapInt64_of_mem ⟨by omega, by exact_mod_cast hv'⟩
  have hsq : wrapInt64 ((v : ℤ) * v) = ((v * v : ℕ) : ℤ) := by
    rw [← Nat.cast_mul]; exact wrapInt64_of_mem ⟨by omega, by exact_mod_cast hv⟩
  constructor
  · simp [MapOperator.process, Processed.timed, intEvent, makeIntMap, typedMap, square, hw, hsq,
      mapFilterOps]
  · have htm : (v : ℤ).tmod 2 = 0 ↔ v % 2 = 0 := by
      rw [Int.tmod_eq_emod (by omega) (by omega)]; omega
    by_cases he : v % 2 = 0 <;>
      simp [FilterOperator.process, Processed.timed, intEvent, Filters.even, makeIntFilter, hw,
        mapFilterOps, he, htm]

theorem mapFilterOps_refines_four :
    4 * 4 < 2 ^ 63 ∧
      (MapOperator.process (.payload (makeIntMap square)) {} (intEvent { timestamp := 0 } 4) 0).emitted =
          (mapFilterOps "square" 4).map (intEvent { timestamp := 0 }) ∧
        (FilterOperator.process (fun e => some (Filters.even e.payload)) {}
          (intEvent { timestamp := 0 } 4) 0).map (·.emitted) =
          some ((mapFilterOps "even" 4).map (intEvent { timestamp := 0 })) :=
  ⟨by decide, mapFilterOps_refines (by decide) _ _ _⟩

/-- Through `square` and then `even`, a list of values becomes the even ones among their squares. -/
theorem throughLine_mapFilterOps (es : List ℕ) :
    throughLine mapFilterOps ["square", "even"] es = (es.map fun v => v * v).filter (· % 2 = 0) := by
  induction es with
  | nil => rfl
  | cons e es ih =>
    simp only [throughLine, List.foldl, List.flatMap_cons] at ih ⊢
    by_cases he : e * e % 2 = 0 <;> simp [mapFilterOps, he, ih]

/-- **An `AggregatingSink` fed events that carry `std::int64_t` values** reports their sum in two's
complement and their number modulo `2 ^ 64`, in any order. -/
theorem consumeAll_intEvents (md : EventMetadata) (s : AggregatingSink) (vs : List ℕ)
    (hv : ∀ v ∈ vs, v < 2 ^ 63) :
    ∃ t, s.consumeAll (vs.map (intEvent md)) = some t ∧ t.sum = wrapInt64 (s.sum + vs.sum) ∧
      t.count = wrap64 (s.count + vs.length) := by
  induction vs generalizing s with
  | nil => exact ⟨s, rfl, by simp [wrapInt64_of_mem s.sum_mem], by simp [wrap64_of_lt s.count_lt]⟩
  | cons v vs ih =>
    have hw : wrapInt64 v = v :=
      wrapInt64_of_mem ⟨by omega, by exact_mod_cast hv v (List.mem_cons_self v vs)⟩
    obtain ⟨t, ht, hsum, hcount⟩ := ih ((s.add (wrapInt64 v)).track _ (wrapInt64_mem v))
      fun v' hv' => hv v' (List.mem_cons_of_mem v hv')
    refine ⟨t, ht, ?_, ?_⟩
    · rw [hsum, AggregatingSink.track_sum, AggregatingSink.add_sum, wrapInt64_add_wrapInt64, hw,
        List.sum_cons, Nat.cast_add, Int.add_assoc]
    · rw [hcount, AggregatingSink.track_count, AggregatingSink.add_count, wrap64_add_wrap64,
        List.length_cons, Nat.add_assoc, Nat.add_comm 1]

/-- The even squares among `1², …, n²`, the values the test's sink is to be handed. -/
theorem consumeAll_evenSquares {es : List ℕ} {n : ℕ}
    (hperm : es.Perm (((List.range' 1 n).map fun v => v * v).filter (· % 2 = 0))) (hn : n * n < 2 ^ 63)
    (md : EventMetadata) :
    ∃ t, ({} : AggregatingSink).consumeAll (es.map (intEvent md)) = some t ∧
      t.count = wrap64 (((List.range' 1 n).map fun v => v * v).filter (· % 2 = 0)).length ∧
      t.sum = wrapInt64 ((((List.range' 1 n).map fun v => v * v).filter (· % 2 = 0)).sum : ℕ) := by
  have hbound : ∀ v ∈ es, v < 2 ^ 63 := by
    intro v hv
    obtain ⟨k, hk, rfl⟩ := List.mem_map.1 (List.mem_filter.1 (hperm.mem_iff.1 hv)).1
    exact lt_of_le_of_lt (Nat.mul_le_mul (by simp at hk; omega) (by simp at hk; omega)) hn
  obtain ⟨t, ht, hsum, hcount⟩ := consumeAll_intEvents md {} _ hbound
  exact ⟨t, ht, by rw [hcount, hperm.length_eq]; simp, by rw [hsum, hperm.sum_eq]; simp⟩

namespace RunState

variable {C : Capacity} {nw : ℕ} {policy : SchedulingPolicy} {s : RunState C}

/-- **`IntegrationTest.MapFilterPipeline`, for any count.** Along every run of the line
`source → square → even → sink` whose operators act as `mapFilterOps` says, with any number of
workers, either policy and any iteration order of `operators_`: if the source's accepted pushes
are `1, …, n` in some order, then once the queues are empty, the workers idle and no queue closed,
the sink has been handed exactly the even squares of `1, …, n`. -/
theorem ReachableBy.mapFilter (hl : IsLine b mapFilterLine)
    (hs : s.ReachableBy (.ofGraph b nw policy) ((RunConfig.ofGraph b nw policy).opByName mapFilterOps))
    (hempty : ∀ k < b.edges.length, (s.queues k).size = 0)
    (hidle : ∀ w < nw, (s.workers w).busy = false) (hcl : ¬ s.stop.HasClosed 0) {n : ℕ}
    (hsrc : (s.log.flatMap (Obs.into 0) : Multiset ℕ) = List.range' 1 n) :
    (s.log.flatMap (Obs.processedFrom (.ofGraph b nw policy) 2) : Multiset ℕ) =
      ((List.range' 1 n).map fun v => v * v).filter (· % 2 = 0) := by
  rw [hs.line hl mapFilterOps hempty hidle hcl (show 2 + 1 < mapFilterLine.length by decide),
    ← throughLine_mapFilterOps]
  exact Multiset.coe_eq_coe.2 (throughLine_perm (Multiset.coe_eq_coe.1 hsrc) _ _)

/-- The test's run cut down to two events: the source emits `1` and `2`, one worker takes the line
in round-robin order, and `stop` drains every queue. -/
def mapFilterRun : List Act :=
  [.generate 0 false [1, 2], .source 0, .source 0, .source 0,
    .worker 0, .worker 0, .process 0 [1], .worker 0, .worker 0, .worker 0, .process 0 [4],
    .worker 0, .worker 0, .worker 0, .worker 0, .worker 0, .process 0 [], .worker 0, .worker 0,
    .process 0 [4], .worker 0, .worker 0, .worker 0, .worker 0, .worker 0, .process 0 [],
    .worker 0, .worker 0, .stop, .stop, .stop, .stop, .stop, .stop]

/-- **What the test's sink reports, for any count.** Along every run of the line
`source → square → even → sink` whose operators act as `mapFilterOps` says, with any number of
workers, either policy and any iteration order of `operators_`: if the source's queue accepted
`1, …, n` with `n * n` below `2 ^ 63`, then once the queues are empty, the workers idle and no queue
closed, the sink has been handed the even squares among `1², …, n²`, and an `AggregatingSink`
consuming them reports their number as `count()` and their sum, in two's complement, as `sum()`. -/
theorem ReachableBy.mapFilterReport (hl : IsLine b mapFilterLine)
    (hs : s.ReachableBy (.ofGraph b nw policy) ((RunConfig.ofGraph b nw policy).opByName mapFilterOps))
    (hempty : ∀ k < b.edges.length, (s.queues k).size = 0)
    (hidle : ∀ w < nw, (s.workers w).busy = false) (hcl : ¬ s.stop.HasClosed 0) {n : ℕ}
    (hsrc : (s.log.flatMap (Obs.into 0) : Multiset ℕ) = List.range' 1 n) (hn : n * n < 2 ^ 63)
    (md : EventMetadata) :
    (s.log.flatMap (Obs.processedFrom (.ofGraph b nw policy) 2) : Multiset ℕ) =
        ((List.range' 1 n).map fun v => v * v).filter (· % 2 = 0) ∧
      ∃ t, ({} : AggregatingSink).consumeAll
          ((s.log.flatMap (Obs.processedFrom (.ofGraph b nw policy) 2)).map (intEvent md)) = some t ∧
        t.count = wrap64 (((List.range' 1 n).map fun v => v * v).filter (· % 2 = 0)).length ∧
        t.sum = wrapInt64 ((((List.range' 1 n).map fun v => v * v).filter (· % 2 = 0)).sum : ℕ) := by
  have hm := hs.mapFilter hl hempty hidle hcl hsrc
  exact ⟨hm, consumeAll_evenSquares (Multiset.coe_eq_coe.1 hm) hn md⟩

theorem mapFilterReport_one_two :
    ∃ s : RunState (Capacity.ofPow 12),
      (start fun _ => 0).run (.ofGraph mapFilterGraph 1 .roundRobin) mapFilterRun = some s ∧
      ((s.log.flatMap (Obs.processedFrom (.ofGraph mapFilterGraph 1 .roundRobin) 2) : Multiset ℕ) =
          ((List.range' 1 2).map fun v => v * v).filter (· % 2 = 0) ∧
        ∃ t, ({} : AggregatingSink).consumeAll
            ((s.log.flatMap (Obs.processedFrom (.ofGraph mapFilterGraph 1 .roundRobin) 2)).map
              (intEvent { timestamp := 0 })) = some t ∧
          t.count = wrap64 (((List.range' 1 2).map fun v => v * v).filter (· % 2 = 0)).length ∧
          t.sum = wrapInt64 ((((List.range' 1 2).map fun v => v * v).filter (· % 2 = 0)).sum : ℕ)) :=
  ⟨_, rfl, ReachableBy.mapFilterReport mapFilterGraph_isLine ((ReachableBy.start _).run
    (show (start fun _ => 0 : RunState (Capacity.ofPow 12)).run
      (.ofGraph mapFilterGraph 1 .roundRobin) mapFilterRun = _ from rfl) (by decide))
    (by decide) (by decide) (by simp [StopPhase.HasClosed])
    (show (_ : Multiset ℕ) = ↑(List.range' 1 2) from rfl) (by decide) _⟩

/-- At the test's `n = 20` the sink reports `count() == 10` and `sum() == 1540`. -/
example : wrap64 (((List.range' 1 20).map fun v => v * v).filter (· % 2 = 0)).length = 10 ∧
    wrapInt64 ((((List.range' 1 20).map fun v => v * v).filter (· % 2 = 0)).sum : ℕ) = 1540 := by
  decide

end RunState

end KLStream
