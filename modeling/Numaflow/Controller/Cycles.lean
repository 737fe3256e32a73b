import Numaflow.Controller.Validate
import Numaflow.Lib.PathSearch

/-!
# Reduce vertices behind cycles

A pipeline may have cycles, but no reduce vertex at or behind one.  The check looks for
cycles on the paths that start at a source, and for reduce vertices on the paths that start
at a vertex where a cycle was found.  Both searches are instances of the searches along paths.

Main results: `Pipeline.validatePipeline_eq`, `Pipeline.terminates`,
`Pipeline.validateCycles_error_iff`.
-/

namespace Numaflow.Controller

open Lib Relation PathSearch List

namespace Pipeline

/-- The checks that are made before the one for cycles. -/
def earlierChecks (pl : Pipeline) : Except ValidationError Unit := do
  check (!isDns1035Label pl.name) (.invalidPipelineName pl.name)
  check pl.vertices.isEmpty .emptyVertices
  check pl.edges.isEmpty .noEdges
  forEachSeen AbstractVertex.name pl.checkVertex [] pl.vertices
  check (!pl.vertices.any AbstractVertex.source) .noSource
  check (!pl.vertices.any AbstractVertex.sink) .noSink
  forEachSeen edgeKey pl.checkEdge [] pl.edges
  check (pl.namesInEdges.length != pl.vertexNames.length) .namesNotInEdges
  check pl.isAForest .disjointed

section

variable (pl : Pipeline)

/-- Where the check stands among the others. -/
theorem validatePipeline_eq : pl.validatePipeline = (do
      pl.earlierChecks
      pl.validateCycles
      pl.vertices.forM fun v => do
        v.validateVertex
        check (!isDns1035Label (pl.name ++ "-" ++ v.name ++ "-headless"))
          (.nameTooLong pl.name v.name)) := by
  simp only [validatePipeline, earlierChecks, bind_assoc]

/-! ## Cycles -/

/-- An edge leads from one vertex to the other. -/
def Leads (pl : Pipeline) (a b : String) : Prop :=
  ∃ e ∈ pl.edges, e.fromVertex = a ∧ e.toVertex = b

/-- The second vertex is the first one or follows it along edges. -/
def Reaches (pl : Pipeline) : String → String → Prop :=
  ReflTransGen pl.Leads

/-- A reduce vertex stands at or behind a cycle through the vertex. -/
structure InvalidCycleAt (pl : Pipeline) (name : String) : Prop where
  cycle : TransGen pl.Leads name name
  reduce : ∃ v ∈ pl.vertices, v.isReduceUdf = true ∧ pl.Reaches name v.name

/-- The vertex is reached from a source. -/
def FromSource (pl : Pipeline) (name : String) : Prop :=
  ∃ v ∈ pl.vertices, v.isASource = true ∧ pl.Reaches v.name name

/-- The vertices to which the edges of a vertex lead. -/
def toVertices (pl : Pipeline) (name : String) : List String :=
  (pl.getToEdges name).map Edge.toVertex

theorem step_eq_leads : PathSearch.Step pl.toVertices = pl.Leads := by
  ext a b
  simp [PathSearch.Step, toVertices, getToEdges, Leads, and_assoc]

/-! ## The two searches -/

theorem getCyclesFromVertex_eq (depth : Nat) (start : String) (visited : List String) :
    pl.getCyclesFromVertex depth start visited =
      cyclesFrom pl.toVertices depth start visited := by
  induction depth generalizing start visited with
  | zero => rfl
  | succ _ ih =>
    simp only [getCyclesFromVertex, cyclesFrom, toVertices, List.isEmpty_iff,
      List.map_eq_nil_iff, List.flatMap_map, ih]

/-- A vertex of the name satisfies the predicate. -/
def named (pl : Pipeline) (f : AbstractVertex → Bool) (name : String) : Bool :=
  pl.vertices.any fun v => v.name == name && f v

variable {f : AbstractVertex → Bool}

theorem named_iff {pl : Pipeline} {name : String} :
    pl.named f name = true ↔ ∃ v ∈ pl.vertices, f v = true ∧ v.name = name := by
  simp [named, and_comm]

theorem findVertex_eq (f : AbstractVertex → Bool) (depth : Nat) (start : String)
    (visited : List String) : pl.findVertex f depth start visited =
      search pl.toVertices (pl.named f) depth start visited := by
  induction depth generalizing start visited with
  | zero => rfl
  | succ _ ih =>
    simp only [findVertex, search, toVertices, named, any_map, ih]
    rfl

end

/-- Both searches end: no chain of calls goes on forever, and a larger bound on the depth of
the calls changes nothing. -/
structure Terminates (pl : Pipeline) : Prop where
  calls : ∀ name, Acc (PathSearch.Calls pl.toVertices) (name, [])
  cycles : ∀ depth, pl.vertices.length < depth → ∀ name,
    pl.getCyclesFromVertex depth name [] = pl.getCyclesFromVertex (pl.vertices.length + 1) name []
  find : ∀ f depth, pl.vertices.length < depth → ∀ name,
    pl.findVertex f depth name [] = pl.findVertex f (pl.vertices.length + 1) name []

/-- Edges start at vertices of the pipeline. -/
def EdgesKnown (pl : Pipeline) : Prop :=
  ∀ name, ∀ next ∈ pl.toVertices name, name ∈ pl.vertexNames

theorem edgesKnown_of_earlierChecks {pl : Pipeline} (h : pl.earlierChecks = .ok ()) :
    pl.EdgesKnown := by
  simp only [earlierChecks, andThen_ok, check_ok] at h
  rcases h with ⟨-, -, -, -, -, -, hedges, -, -⟩
  have hends := forEachSeen_forall pl.checkEdge_endpoints hedges
  intro name next hnext
  rcases mem_map.mp hnext with ⟨e, he, -⟩
  rcases mem_filter.mp he with ⟨hmem, hfrom⟩
  rw [← eq_of_beq hfrom]
  exact (hends e hmem).1

variable {pl : Pipeline} {depth : Nat} {c : String}

theorem fresh_lt (pl : Pipeline) (h : pl.vertices.length < depth) :
    fresh pl.vertexNames [] < depth := by
  rw [fresh_nil, vertexNames, length_map]
  exact h

/-- Both searches end. -/
theorem terminates (hknown : pl.EdgesKnown) : pl.Terminates := by
  have hbound := pl.fresh_lt (Nat.lt_succ_self _)
  refine ⟨?_, ?_, ?_⟩
  · intro name
    exact acc_calls hknown (name, [])
  · intro depth hdepth name
    rw [getCyclesFromVertex_eq, getCyclesFromVertex_eq]
    exact cyclesFrom_eq hknown (pl.fresh_lt hdepth) hbound
  · intro f depth hdepth name
    rw [findVertex_eq, findVertex_eq]
    exact search_eq hknown (pl.fresh_lt hdepth) hbound

/-! ## What is rejected -/

/-- The cycles found lie on paths from a source. -/
theorem mem_getCycles (hc : c ∈ pl.getCycles) : pl.FromSource c ∧ TransGen pl.Leads c c := by
  rcases mem_flatMap.mp hc with ⟨v, hv, hc⟩
  rcases mem_filter.mp hv with ⟨hmem, hsource⟩
  rw [getCyclesFromVertex_eq] at hc
  have hsound := mem_cyclesFrom (fun a ha => absurd ha not_mem_nil) hc
  rw [step_eq_leads] at hsound
  exact ⟨⟨v, hmem, hsource, hsound.1⟩, hsound.2⟩

/-- Of every cycle reached from a source, one is found from which it is reached. -/
theorem exists_mem_getCycles (hknown : pl.EdgesKnown) {name : String} (hsource : pl.FromSource name)
    (hcycle : TransGen pl.Leads name name) : ∃ c ∈ pl.getCycles, pl.Reaches c name := by
  rcases hsource with ⟨v, hmem, hsource, hreach⟩
  unfold Reaches at *
  rw [← step_eq_leads] at *
  rcases exists_mem_cyclesFrom hknown (pl.fresh_lt (Nat.lt_succ_self _)) hreach hcycle
    with ⟨c, hc, hreach'⟩
  rw [← getCyclesFromVertex_eq] at hc
  exact ⟨c, mem_flatMap.mpr ⟨v, mem_filter.mpr ⟨hmem, hsource⟩, hc⟩, hreach'⟩

theorem findVertex_iff (hknown : pl.EdgesKnown) (f : AbstractVertex → Bool) (name : String) :
    pl.findVertex f (pl.vertices.length + 1) name [] = true ↔
      ∃ v ∈ pl.vertices, f v = true ∧ pl.Reaches name v.name := by
  have hlength : pl.vertexNames.length < pl.vertices.length + 1 := by
    rw [vertexNames, length_map]
    exact Nat.lt_succ_self _
  rw [findVertex_eq, search_iff hknown hlength, step_eq_leads]
  constructor
  · rintro ⟨x, hreach, hx⟩
    rcases named_iff.mp hx with ⟨v, hv, hf, rfl⟩
    exact ⟨v, hv, hf, hreach⟩
  · rintro ⟨v, hv, hf, hreach⟩
    exact ⟨v.name, hreach, named_iff.mpr ⟨v, hv, hf, rfl⟩⟩

/-- A pipeline is rejected when a source leads to a cycle with a reduce vertex at or behind
it. -/
theorem validateCycles_error_iff (hknown : pl.EdgesKnown) :
    (∃ e, pl.validateCycles = .error e) ↔ ∃ name, pl.InvalidCycleAt name ∧ pl.FromSource name := by
  have hreject : (∃ e, pl.validateCycles = .error e) ↔ ∃ c ∈ pl.getCycles,
      pl.findVertex AbstractVertex.isReduceUdf (pl.vertices.length + 1) c [] = true := by
    rw [exists_error_iff, validateCycles, Ne, forM_ok]
    simp only [check_ok, not_forall, Bool.not_eq_false, exists_prop]
  rw [hreject]
  constructor
  · rintro ⟨c, hc, hfind⟩
    rcases mem_getCycles hc with ⟨hsource, hcycle⟩
    exact ⟨c, ⟨hcycle, (findVertex_iff hknown _ c).mp hfind⟩, hsource⟩
  · rintro ⟨name, ⟨hcycle, v, hv, hreduce, hreach⟩, hsource⟩
    rcases exists_mem_getCycles hknown hsource hcycle with ⟨c, hc, hreach'⟩
    refine ⟨c, hc, (findVertex_iff hknown _ c).mpr ⟨v, hv, hreduce, ?_⟩⟩
    exact ReflTransGen.trans hreach' hreach

/-- For a pipeline that passes the earlier checks the searches end, and the check is right
exactly when an invalid cycle, if there is one, can be found from a source. -/
theorem validateCycles_right_iff (h : pl.earlierChecks = .ok ()) :
    pl.Terminates ∧
      (((∃ e, pl.validateCycles = .error e) ↔ ∃ name, pl.InvalidCycleAt name) ↔
        ((∃ name, pl.InvalidCycleAt name) →
          ∃ name, pl.InvalidCycleAt name ∧ pl.FromSource name)) := by
  have hknown := edgesKnown_of_earlierChecks h
  refine ⟨terminates hknown, ?_⟩
  rw [validateCycles_error_iff hknown]
  constructor
  · intro hright hinvalid
    exact hright.mpr hinvalid
  · intro hfound
    refine ⟨?_, hfound⟩
    rintro ⟨name, hinvalid, -⟩
    exact ⟨name, hinvalid⟩

/-- A pipeline whose source leads to a cycle of two vertices, one of which is a reduce
vertex. -/
def reduceOnCycle : Pipeline where
  nspace := "default"
  name := "simple"
  vertices := [{ name := "in", source := true }, { name := "map", udf := some {} },
    { name := "sum", udf := some { groupBy := some ⟨true⟩ } }, { name := "out", sink := true }]
  edges := [{ fromVertex := "in", toVertex := "map" }, { fromVertex := "map", toVertex := "sum" },
    { fromVertex := "sum", toVertex := "map" }, { fromVertex := "sum", toVertex := "out" }]

theorem reduceOnCycle_rejected :
    reduceOnCycle.Terminates ∧
      ((∃ e, reduceOnCycle.validateCycles = .error e) ↔
        ∃ name, reduceOnCycle.InvalidCycleAt name) := by
  have hright := validateCycles_right_iff (show reduceOnCycle.earlierChecks = .ok () by
    decide +kernel)
  refine ⟨hright.1, hright.2.mpr fun _ => ?_⟩
  have hin : reduceOnCycle.Leads "in" "map" := by simp [Leads, reduceOnCycle]
  have hforth : reduceOnCycle.Leads "map" "sum" := by simp [Leads, reduceOnCycle]
  have hback : reduceOnCycle.Leads "sum" "map" := by simp [Leads, reduceOnCycle]
  refine ⟨"map", ⟨TransGen.tail (TransGen.single hforth) hback, ?_⟩, ?_⟩
  · exact ⟨{ name := "sum", udf := some { groupBy := some ⟨true⟩ } }, by simp [reduceOnCycle], rfl,
      ReflTransGen.single hforth⟩
  · exact ⟨{ name := "in", source := true }, by simp [reduceOnCycle], rfl, ReflTransGen.single hin⟩

/-- A reduce vertex with an edge to itself, beside the only way from the source to the sink. -/
def reduceAside : Pipeline where
  nspace := "default"
  name := "simple"
  vertices := [{ name := "in", source := true },
    { name := "sum", udf := some { groupBy := some ⟨true⟩ } }, { name := "out", sink := true }]
  edges := [{ fromVertex := "in", toVertex := "out" }, { fromVertex := "sum", toVertex := "sum" },
    { fromVertex := "sum", toVertex := "out" }]

/-- The whole validation accepts it. -/
theorem reduceAside_accepted :
    reduceAside.earlierChecks = .ok () ∧ reduceAside.validateCycles = .ok () ∧
      reduceAside.validatePipeline = .ok () ∧ reduceAside.InvalidCycleAt "sum" := by
  have hself : reduceAside.Leads "sum" "sum" := by simp [Leads, reduceAside]
  refine ⟨by decide +kernel, by decide +kernel, by decide +kernel, TransGen.single hself, ?_⟩
  exact ⟨{ name := "sum", udf := some { groupBy := some ⟨true⟩ } }, by simp [reduceAside], rfl,
    ReflTransGen.refl⟩

end Pipeline

end Numaflow.Controller
