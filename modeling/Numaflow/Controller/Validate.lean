import Numaflow.Lib.Check

/-!
# Validation of a pipeline

The checks that `ValidatePipeline` makes before the controller accepts a pipeline, as far
as they concern names, the shape of the graph, scaling bounds and partitions.  The checks
of single settings (images, windows, side inputs, cron scaling, update strategy, idle source,
ordered processing, serving) reject more pipelines and read none of this data.

Main results: `Pipeline.accepted_of_validatePipeline`.
-/

namespace Numaflow.Controller

open Lib

/-- The grouping of a reduce UDF. -/
structure GroupBy where
  keyed : Bool
deriving DecidableEq, Repr

structure Udf where
  groupBy : Option GroupBy := none
deriving DecidableEq, Repr

/-- A vertex of a pipeline's specification; `source` and `sink` say whether the
vertex has such a part. -/
structure AbstractVertex where
  name : String
  source : Bool := false
  sink : Bool := false
  udf : Option Udf := none
  partitions : Option Int := none
  scaleMin : Option Int := none
  scaleMax : Option Int := none
deriving DecidableEq, Repr

/-- An edge; the conditions are given by the values of their tags. -/
structure Edge where
  fromVertex : String
  toVertex : String
  conditions : Option (List String) := none
deriving DecidableEq, Repr

structure Pipeline where
  nspace : String
  name : String
  vertices : List AbstractVertex
  edges : List Edge
deriving DecidableEq, Repr

/-- The reasons to reject a pipeline, with the names the messages contain. -/
inductive ValidationError where
  | invalidPipelineName (name : String)
  | emptyVertices
  | noEdges
  | duplicateVertex (name : String)
  | noKind (name : String)
  | severalKinds (name : String)
  | sourceEdges (name : String)
  | sinkEdges (name : String)
  | udfEdges (name : String)
  | noSource
  | noSink
  | edgeUnspecified
  | edgeUnknownVertex (name : String)
  | multipleEdges (fromVertex toVertex : String)
  | conditionWithoutValues
  | namesNotInEdges
  | disjointed
  | reduceAfterCycle (name : String)
  | invalidVertexName (name : String)
  | minBelowZero (name : String)
  | maxBelowMin (name : String)
  | partitionsBelowZero (name : String)
  | partitionsNonKeyed (name : String)
  | partitionsSource (name : String)
  | nameTooLong (pipeline vertex : String)
deriving DecidableEq, Repr

/-- The characters of a label. -/
def isLabelChar (c : Char) : Bool :=
  c.isLower || c.isDigit || c == '-'

/-- The text matches `[a-z]([-a-z0-9]*[a-z0-9])?` and has at most 63 characters. -/
def isDns1035Label (value : String) : Bool :=
  match value.toList with
  | [] => false
  | c :: cs => c.isLower && cs.all isLabelChar && cs.getLast? != some '-' && cs.length + 1 ≤ 63

namespace AbstractVertex

section

variable (v : AbstractVertex)

def isASource : Bool :=
  v.source

def isReduceUdf : Bool :=
  match v.udf with
  | some udf => udf.groupBy.isSome
  | none => false

/-- A reduce vertex whose grouping is not keyed. -/
def isNonKeyedReduce : Bool :=
  match v.udf with
  | some udf => udf.groupBy.any (fun g => !g.keyed)
  | none => false

def getPartitionCount : Nat :=
  match v.partitions with
  | none => 1
  | some n => if n < 1 then 1 else if v.isASource || v.isNonKeyedReduce then 1 else n.toNat

def defaultMaxReplicas : Int := 50

def validateVertex : Except ValidationError Unit := do
  check (!isDns1035Label v.name) (.invalidVertexName v.name)
  let min := v.scaleMin.getD 0
  let max := v.scaleMax.getD defaultMaxReplicas
  check (min < 0) (.minBelowZero v.name)
  check (max < min) (.maxBelowMin v.name)
  check (v.partitions.any (· < 0)) (.partitionsBelowZero v.name)
  check (v.partitions.any (1 < ·) && v.isNonKeyedReduce) (.partitionsNonKeyed v.name)
  check (v.partitions.any (1 < ·) && v.isASource) (.partitionsSource v.name)

end

end AbstractVertex

namespace Pipeline

def vertexNames (pl : Pipeline) : List String :=
  pl.vertices.map AbstractVertex.name

def getToEdges (pl : Pipeline) (name : String) : List Edge :=
  pl.edges.filter (·.fromVertex == name)

def getFromEdges (pl : Pipeline) (name : String) : List Edge :=
  pl.edges.filter (·.toVertex == name)

/-- One vertex in the loop over the vertices: the name is new, the vertex has exactly one
kind, and the edges that this kind needs. -/
def checkVertex (pl : Pipeline) (names : List String) (v : AbstractVertex) :
    Except ValidationError Unit := do
  let noTo := (pl.getToEdges v.name).isEmpty
  let noFrom := (pl.getFromEdges v.name).isEmpty
  check (names.contains v.name) (.duplicateVertex v.name)
  check (!v.source && !v.sink && v.udf.isNone) (.noKind v.name)
  check (v.source && (v.sink || v.udf.isSome)) (.severalKinds v.name)
  check (v.source && (noTo || !noFrom)) (.sourceEdges v.name)
  check (v.sink && (v.source || v.udf.isSome)) (.severalKinds v.name)
  check (v.sink && (noFrom || !noTo)) (.sinkEdges v.name)
  check (v.udf.isSome && (v.source || v.sink)) (.severalKinds v.name)
  check (v.udf.isSome && (noTo || noFrom)) (.udfEdges v.name)

/-- The text that identifies an edge in the check for redundant edges. -/
def edgeKey (e : Edge) : String :=
  e.fromVertex ++ e.toVertex

/-- One edge in the loop over the edges. -/
def checkEdge (pl : Pipeline) (toFromEdge : List String) (e : Edge) :
    Except ValidationError Unit := do
  check (e.fromVertex == "" || e.toVertex == "") .edgeUnspecified
  check (!pl.vertexNames.contains e.fromVertex) (.edgeUnknownVertex e.fromVertex)
  check (!pl.vertexNames.contains e.toVertex) (.edgeUnknownVertex e.toVertex)
  check (toFromEdge.contains (edgeKey e)) (.multipleEdges e.fromVertex e.toVertex)
  check (e.conditions.any List.isEmpty) .conditionWithoutValues

def namesInEdges (pl : Pipeline) : List String :=
  (pl.edges.flatMap fun e => [e.fromVertex, e.toVertex]).dedup

/-- Visit everything connected with a vertex, along the edges in both directions.  A call
inside another one is for a new name, so their depth is at most the number of vertices. -/
def buildVisitedMap (pl : Pipeline) : Nat → String → List String → List String
  | 0, _, visited => visited
  | depth + 1, name, visited =>
    let neighbors := (pl.getToEdges name).map Edge.toVertex ++
      (pl.getFromEdges name).map Edge.fromVertex
    neighbors.foldl
      (fun visited v => if v ∈ visited then visited else pl.buildVisitedMap depth v visited)
      (name :: visited)

def isAForest (pl : Pipeline) : Bool :=
  match pl.vertices with
  | [] => false
  | v :: _ => (pl.buildVisitedMap pl.vertices.length v.name []).length != pl.vertices.length

/-- The vertices at which a path from `start` comes back to itself.  The names visited are
those of the path, so one more call than there are vertices is enough. -/
def getCyclesFromVertex (pl : Pipeline) : Nat → String → List String → List String
  | 0, _, _ => []
  | depth + 1, start, visited =>
    if (pl.getToEdges start).isEmpty then []
    else if start ∈ visited then [start]
    else (pl.getToEdges start).flatMap
      fun e => pl.getCyclesFromVertex depth e.toVertex (start :: visited)

def getCycles (pl : Pipeline) : List String :=
  (pl.vertices.filter AbstractVertex.isASource).flatMap
    fun v => pl.getCyclesFromVertex (pl.vertices.length + 1) v.name []

/-- Whether a vertex that satisfies `f` is reached from `start`. -/
def findVertex (pl : Pipeline) (f : AbstractVertex → Bool) : Nat → String → List String → Bool
  | 0, _, _ => false
  | depth + 1, start, visited =>
    if pl.vertices.any (fun v => v.name == start && f v) then true
    else if start ∈ visited then false
    else (pl.getToEdges start).any
      fun e => pl.findVertex f depth e.toVertex (start :: visited)

def validateCycles (pl : Pipeline) : Except ValidationError Unit :=
  pl.getCycles.forM fun name =>
    check (pl.findVertex AbstractVertex.isReduceUdf (pl.vertices.length + 1) name [])
      (.reduceAfterCycle name)

def validatePipeline (pl : Pipeline) : Except ValidationError Unit := do
  check (!isDns1035Label pl.name) (.invalidPipelineName pl.name)
  check pl.vertices.isEmpty .emptyVertices
  check pl.edges.isEmpty .noEdges
  forEachSeen AbstractVertex.name pl.checkVertex [] pl.vertices
  check (!pl.vertices.any AbstractVertex.source) .noSource
  check (!pl.vertices.any AbstractVertex.sink) .noSink
  forEachSeen edgeKey pl.checkEdge [] pl.edges
  check (pl.namesInEdges.length != pl.vertexNames.length) .namesNotInEdges
  check pl.isAForest .disjointed
  pl.validateCycles
  pl.vertices.forM fun v => do
    v.validateVertex
    check (!isDns1035Label (pl.name ++ "-" ++ v.name ++ "-headless")) (.nameTooLong pl.name v.name)

/-- What validation says about the names of a pipeline. -/
structure Accepted (pl : Pipeline) : Prop where
  label : ∀ v ∈ pl.vertices, isDns1035Label v.name = true
  vertices_nodup : pl.vertexNames.Nodup
  edges_nodup : (pl.edges.map fun e => (e.fromVertex, e.toVertex)).Nodup
  endpoints : ∀ e ∈ pl.edges, e.fromVertex ∈ pl.vertexNames ∧ e.toVertex ∈ pl.vertexNames

/-- Redundant edges are looked for among the concatenated names, so equal pairs of names are
found as well. -/
theorem nodup_pairs_of_edgeKey {edges : List Edge} (h : (edges.map edgeKey).Nodup) :
    (edges.map fun e => (e.fromVertex, e.toVertex)).Nodup := by
  have hkey : edges.map edgeKey =
      (edges.map fun e => (e.fromVertex, e.toVertex)).map fun names => names.1 ++ names.2 := by
    rw [List.map_map]
    rfl
  rw [hkey] at h
  exact h.of_map _

/-- A vertex passes only under a name that is new. -/
theorem checkVertex_new (pl : Pipeline) (names : List String) (v : AbstractVertex)
    (h : pl.checkVertex names v = .ok ()) : v.name ∉ names := by
  simp only [checkVertex, andThen_ok, check_ok] at h
  simpa using h.1

/-- An edge passes only under a key that is new. -/
theorem checkEdge_new (pl : Pipeline) (toFromEdge : List String) (e : Edge)
    (h : pl.checkEdge toFromEdge e = .ok ()) : edgeKey e ∉ toFromEdge := by
  simp only [checkEdge, andThen_ok, check_ok] at h
  obtain ⟨_, _, _, hkey, _⟩ := h
  simpa using hkey

/-- An edge passes only between vertices of the pipeline. -/
theorem checkEdge_endpoints (pl : Pipeline) (toFromEdge : List String) (e : Edge)
    (h : pl.checkEdge toFromEdge e = .ok ()) :
    e.fromVertex ∈ pl.vertexNames ∧ e.toVertex ∈ pl.vertexNames := by
  simp only [checkEdge, andThen_ok, check_ok] at h
  obtain ⟨_, hfrom, hto, _, _⟩ := h
  constructor
  · simpa using hfrom
  · simpa using hto

/-- What holds of the names of an accepted pipeline. -/
theorem accepted_of_validatePipeline {pl : Pipeline} (h : pl.validatePipeline = .ok ()) :
    pl.Accepted := by
  simp only [validatePipeline, andThen_ok, check_ok, forM_ok] at h
  obtain ⟨_, _, _, hvertices, _, _, hedges, _, _, _, hlabels⟩ := h
  have hnames := (forEachSeen_nodup pl.checkVertex_new hvertices).1
  have hpairs := (forEachSeen_nodup pl.checkEdge_new hedges).1
  have hends := forEachSeen_forall pl.checkEdge_endpoints hedges
  refine ⟨?_, hnames, nodup_pairs_of_edgeKey hpairs, hends⟩
  intro v hv
  have hlabel := (hlabels v hv).1
  simp only [AbstractVertex.validateVertex, andThen_ok, check_ok] at hlabel
  simpa using hlabel.1

end Pipeline

end Numaflow.Controller
