import Mathlib.Data.List.Nodup
import Mathlib.Logic.Function.Basic

/-!
# Runtime/Graph — how `Runtime::init` wires the stream graph into queues

`Runtime::init` makes one `Queue` per edge of the `StreamGraphBuilder`, in edge order. The queue of
edge `k` is appended to `output_queues[from]` and stored as `input_queues[to]`, overwriting the
queue of any earlier edge into the same operator. Each operator then becomes an `OperatorInstance`
whose input is what its name finds in `input_queues` and whose outputs are what it finds in
`output_queues`.

* `wireInstances_outputs`, `wireInstances_input` — an instance's outputs are the queues of its
  out-edges in declaration order, and its input is the queue of the *last* edge into it;
* `init_wiring` — so the queue of every edge is pushed to by exactly one instance, and read by
  exactly one instance when its edge is the last into its target, by none otherwise;
* `init_wiring_fan_in` — with two edges into one operator, the first edge's queue has no reader.
-/

namespace KLStream

/-- An edge of the stream graph, as `connect` records it. -/
structure Edge where
  fromOperator : String
  toOperator : String
  deriving DecidableEq, Repr

/-- What `Runtime::init` reads of a `StreamGraphBuilder`: the keys of `operators_` in the map's
iteration order, each with whether its operator is a `SourceOperator`, and `edges_` in `connect`
order. `operators_` is a map, so no two operators share a name. -/
structure StreamGraphBuilder where
  operators : List (String × Bool)
  edges : List Edge
  nodup : (operators.map Prod.fst).Nodup

/-- The spec's graph invariant that `connect` does not check: both ends of every edge are
operators of the graph. -/
def StreamGraphBuilder.WellFormed (b : StreamGraphBuilder) : Prop :=
  ∀ e ∈ b.edges, e.fromOperator ∈ b.operators.map Prod.fst ∧ e.toOperator ∈ b.operators.map Prod.fst

/-- What `Runtime::init` gives one operator: its name, its input queue and the outputs of its
context (indices into `queues_`), and whether it is a source. -/
structure InstanceWiring where
  name : String
  input : Option ℕ
  outputs : List ℕ
  isSource : Bool
  deriving DecidableEq, Repr

/-- The indices, counted from `k`, of the entries that `p` selects. -/
def idsOf {β : Type} (p : β → Bool) : List β → ℕ → List ℕ
  | [], _ => []
  | e :: es, k => if p e then k :: idsOf p es (k + 1) else idsOf p es (k + 1)

/-- **The queue loop of `Runtime::init`**: the queue of each edge, numbered from `k` on in
`queues_`, is appended to `output_queues[from]` and becomes `input_queues[to]`. -/
def connectQueues : List Edge → ℕ → (String → List ℕ) → (String → Option ℕ) →
    (String → List ℕ) × (String → Option ℕ)
  | [], _, out, inp => (out, inp)
  | e :: es, k, out, inp =>
    connectQueues es (k + 1) (Function.update out e.fromOperator (out e.fromOperator ++ [k]))
      (Function.update inp e.toOperator (some k))

/-- **The instance loop of `Runtime::init`**, the new queues numbered from `base` in `queues_`:
`input_queues.find(name)` and `output_queues.find(name)` for each operator, in map order. -/
def wireInstances (b : StreamGraphBuilder) (base : ℕ) : List InstanceWiring :=
  let m := connectQueues b.edges base (fun _ => []) (fun _ => none)
  b.operators.map fun o => ⟨o.1, m.2 o.1, m.1 o.1, o.2⟩

/-! ## The indices of selected entries -/

section IdsOf

variable {β : Type} {p : β → Bool}

theorem mem_idsOf {es : List β} {k j : ℕ} :
    j ∈ idsOf p es k ↔ ∃ i, ∃ h : i < es.length, p es[i] = true ∧ j = k + i := by
  induction es generalizing k with
  | nil => simp [idsOf]
  | cons e es ih =>
    have step : j ∈ idsOf p (e :: es) k ↔ (p e = true ∧ j = k) ∨ j ∈ idsOf p es (k + 1) := by
      by_cases he : p e <;> simp [idsOf, he]
    rw [step, ih]
    constructor
    · rintro (⟨he, rfl⟩ | ⟨i, hi, hp, rfl⟩)
      · exact ⟨0, by simp, he, rfl⟩
      · exact ⟨i + 1, by simpa using hi, hp, by omega⟩
    · rintro ⟨i, hi, hp, rfl⟩
      cases i with
      | zero => exact .inl ⟨hp, rfl⟩
      | succ i => exact .inr ⟨i, by simpa using hi, hp, by omega⟩

theorem le_of_mem_idsOf {es : List β} {k j : ℕ} (h : j ∈ idsOf p es k) : k ≤ j := by
  obtain ⟨i, -, -, rfl⟩ := mem_idsOf.1 h; omega

theorem nodup_idsOf (es : List β) (k : ℕ) : (idsOf p es k).Nodup := by
  induction es generalizing k with
  | nil => exact List.nodup_nil
  | cons e es ih =>
    by_cases he : p e <;> simp only [idsOf, he, if_true]
    · exact List.nodup_cons.2 ⟨fun h => by have := le_of_mem_idsOf h; omega, ih _⟩
    · exact ih _

/-- Counted from `0`, the indices that `p` selects are those of the entries it selects. -/
theorem mem_idsOf_zero {es : List β} {j : ℕ} :
    j ∈ idsOf p es 0 ↔ ∃ h : j < es.length, p es[j] = true := by
  rw [mem_idsOf]
  constructor
  · rintro ⟨i, hi, hp, rfl⟩; exact ⟨by simpa using hi, by simpa using hp⟩
  · rintro ⟨hj, hp⟩; exact ⟨j, hj, hp, by simp⟩

end IdsOf

/-! ## The two loops -/

theorem connectQueues_fst (es : List Edge) (k : ℕ) (out : String → List ℕ)
    (inp : String → Option ℕ) (n : String) :
    (connectQueues es k out inp).1 n = out n ++ idsOf (·.fromOperator = n) es k := by
  induction es generalizing k out inp with
  | nil => simp [connectQueues, idsOf]
  | cons e es ih =>
    rw [connectQueues, ih]
    by_cases he : e.fromOperator = n
    · subst he; simp [idsOf]
    · simp [idsOf, he, Function.update_noteq (Ne.symm he)]

theorem connectQueues_snd (es : List Edge) (k : ℕ) (out : String → List ℕ)
    (inp : String → Option ℕ) (n : String) :
    (connectQueues es k out inp).2 n = (idsOf (·.toOperator = n) es k).getLast?.or (inp n) := by
  induction es generalizing k out inp with
  | nil => simp [connectQueues, idsOf]
  | cons e es ih =>
    rw [connectQueues, ih]
    by_cases he : e.toOperator = n
    · subst he
      simp only [idsOf, decide_True, if_true, List.getLast?_cons, Function.update_same]
      cases (idsOf (·.toOperator = e.toOperator) es (k + 1)).getLast? <;> rfl
    · simp [idsOf, he, Function.update_noteq (Ne.symm he)]

section Wiring

variable {b : StreamGraphBuilder}

/-- **An instance's outputs** are the queues of its operator's out-edges, in declaration order. -/
theorem wireInstances_outputs {i : InstanceWiring} (hi : i ∈ wireInstances b 0) :
    i.outputs = idsOf (·.fromOperator = i.name) b.edges 0 := by
  obtain ⟨o, -, rfl⟩ := List.mem_map.1 hi
  simp [connectQueues_fst]

/-- **An instance's input** is the queue of the last edge into its operator. -/
theorem wireInstances_input {i : InstanceWiring} (hi : i ∈ wireInstances b 0) :
    i.input = (idsOf (·.toOperator = i.name) b.edges 0).getLast? := by
  obtain ⟨o, -, rfl⟩ := List.mem_map.1 hi
  simp [connectQueues_snd]

/-- Selecting instances by a test of their name selects the operators' names. -/
theorem map_name_filter_wireInstances (P : InstanceWiring → Bool) (Q : String → Bool)
    (hPQ : ∀ i ∈ wireInstances b 0, P i = Q i.name) :
    ((wireInstances b 0).filter P).map InstanceWiring.name = (b.operators.map Prod.fst).filter Q := by
  rw [List.filter_congr hPQ, wireInstances, List.filter_map, List.map_map, List.filter_map]
  rfl

/-- The edge that an instance's input comes from ends at that instance. -/
theorem getLast?_idsOf_eq_some {n : String} {k : ℕ}
    (h : (idsOf (·.toOperator = n) b.edges 0).getLast? = some k) :
    ∃ hk : k < b.edges.length, b.edges[k].toOperator = n := by
  obtain ⟨hk, hp⟩ := mem_idsOf_zero.1 (List.mem_of_getLast?_eq_some h)
  exact ⟨hk, of_decide_eq_true hp⟩

/-- The one operator of a given name. -/
theorem filter_eq_singleton {x : String} (hx : x ∈ b.operators.map Prod.fst) :
    (b.operators.map Prod.fst).filter (· = x) = [x] := by
  rw [List.filter_eq, List.count_eq_one_of_mem b.nodup hx, List.replicate_one]

end Wiring

/-- **`Runtime::init` wires every edge to its own queue.** The queue of edge `k` is pushed to by
exactly one instance, the one of the edge's source operator; it is read by exactly one instance, the
one of its target, when edge `k` is the last edge into that target, and by no instance otherwise.
Each instance's outputs are its out-edges' queues in declaration order, and its input is the queue
of the last edge into it. -/
theorem init_wiring (b : StreamGraphBuilder) (hb : b.WellFormed) :
    (∀ i ∈ wireInstances b 0, i.outputs = idsOf (·.fromOperator = i.name) b.edges 0 ∧
      i.input = (idsOf (·.toOperator = i.name) b.edges 0).getLast?) ∧
    ∀ k (hk : k < b.edges.length),
      ((wireInstances b 0).filter (k ∈ ·.outputs)).map InstanceWiring.name =
        [b.edges[k].fromOperator] ∧
      ((wireInstances b 0).filter (·.input = some k)).map InstanceWiring.name =
        if (idsOf (·.toOperator = b.edges[k].toOperator) b.edges 0).getLast? = some k then
          [b.edges[k].toOperator] else [] := by
  refine ⟨fun i hi => ⟨wireInstances_outputs hi, wireInstances_input hi⟩, fun k hk => ⟨?_, ?_⟩⟩
  · rw [map_name_filter_wireInstances _ (· = b.edges[k].fromOperator),
      filter_eq_singleton (hb _ (List.getElem_mem hk)).1]
    intro i hi
    simp [wireInstances_outputs hi, mem_idsOf_zero, hk, eq_comm]
  · split_ifs with hlast
    · rw [map_name_filter_wireInstances _ (· = b.edges[k].toOperator),
        filter_eq_singleton (hb _ (List.getElem_mem hk)).2]
      intro i hi
      rw [wireInstances_input hi, decide_eq_decide]
      exact ⟨fun h => (getLast?_idsOf_eq_some h).2.symm, fun h => by rw [h]; exact hlast⟩
    · rw [map_name_filter_wireInstances _ (fun _ => false), List.filter_false]
      intro i hi
      rw [wireInstances_input hi, decide_eq_false_iff_not]
      exact fun h => hlast (by rw [(getLast?_idsOf_eq_some h).2]; exact h)

/-- A source, a map and a sink in a line. -/
def pipeline : StreamGraphBuilder :=
  ⟨[("src", true), ("map", false), ("sink", false)], [⟨"src", "map"⟩, ⟨"map", "sink"⟩], by decide⟩

theorem pipeline_wellFormed : pipeline.WellFormed := by
  intro e he
  simp only [pipeline, List.mem_cons, List.mem_singleton, List.not_mem_nil, or_false] at he
  rcases he with rfl | rfl <;> decide

theorem init_wiring_pipeline :
    pipeline.WellFormed ∧
      ((wireInstances pipeline 0).filter (·.input = some 0)).map InstanceWiring.name = ["map"] :=
  ⟨pipeline_wellFormed, ((init_wiring pipeline pipeline_wellFormed).2 0 (by decide)).2.trans rfl⟩

/-- Two sources feeding one operator. -/
def fanIn : StreamGraphBuilder :=
  ⟨[("a", true), ("b", true), ("c", false)], [⟨"a", "c"⟩, ⟨"b", "c"⟩], by decide⟩

/-- With two edges into `c`, `input_queues["c"]` keeps only the second edge's queue: the first
edge's queue is read by no instance. -/
theorem init_wiring_fan_in :
    fanIn.WellFormed ∧ ((wireInstances fanIn 0).filter (·.input = some 0)).map InstanceWiring.name = [] := by
  refine ⟨?_, by decide⟩
  intro e he
  simp only [fanIn, List.mem_cons, List.mem_singleton, List.not_mem_nil, or_false] at he
  rcases he with rfl | rfl <;> decide

end KLStream
