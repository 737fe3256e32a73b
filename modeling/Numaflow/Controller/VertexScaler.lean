import Numaflow.Controller.Lifecycle
import Numaflow.Controller.Scale
import Numaflow.Lib.Traversal

/-!
# The autoscaler of vertices

The scaler looks at one vertex at a time and either leaves it alone or patches its number of
replicas.  What the API server, the daemon and the clock say, and the number of replicas that
is computed from the metrics, are given by an environment.

Main results: `ScaledPipeline.mem_getDownstreamEdges`, `ScalerEnv.hasBackPressure_spec`,
`ScalerEnv.patch_spec`, `ScalerEnv.scaleOneVertex_legal_iff`.
-/

namespace Numaflow.Controller

open Lib Relation Scale List Traversal

/-! ## Objects -/

/-- Phase of a vertex or of a MonoVertex. -/
inductive WorkloadPhase where
  | unknown
  | running
  | failed
  | paused
deriving DecidableEq, Repr

/-- The desired phase is Running unless it is Paused. -/
def WorkloadPhase.getDesiredPhase : WorkloadPhase → WorkloadPhase
  | .paused => .paused
  | _ => .running

/-- The status of a vertex or of a MonoVertex. -/
structure WorkloadStatus where
  phase : WorkloadPhase
  replicas : UInt32
  desiredReplicas : UInt32
  readyReplicas : UInt32
  updateHash : String
  currentHash : String
  lastScaledAt : Int
deriving DecidableEq, Repr

/-- Pods are being updated. -/
def WorkloadStatus.updating (status : WorkloadStatus) : Bool :=
  status.updateHash != status.currentHash && status.updateHash != ""

/-- The number of replicas, as the scalers compute with it. -/
def WorkloadStatus.current (status : WorkloadStatus) : Int :=
  int32 status.replicas.toNat

/-- A vertex object; `desiredPhase` is the one of its lifecycle. -/
structure ScaledVertex where
  pipelineName : String
  name : String
  source : Bool := false
  sink : Bool := false
  udf : Option Udf := none
  scale : Scale := {}
  rateLimitMax : Option Nat := none
  desiredPhase : WorkloadPhase := .running
  deleting : Bool := false
  status : WorkloadStatus
deriving DecidableEq, Repr

namespace ScaledVertex

section

variable (v : ScaledVertex)

def isASource : Bool :=
  v.source

def isReduceUdf : Bool :=
  v.udf.any (·.groupBy.isSome)

def isMapUdf : Bool :=
  v.udf.any (·.groupBy.isNone)

def scalable : Bool :=
  if v.scale.disabled || v.isReduceUdf then false else v.sink || v.isMapUdf || v.isASource

end

end ScaledVertex

inductive BufferFullWritingStrategy where
  | retryUntilSuccess
  | discardLatest
deriving DecidableEq, Repr

/-- An edge with its strategy for full buffers. -/
structure BufferedEdge where
  fromVertex : String
  toVertex : String
  onFull : Option BufferFullWritingStrategy := none
deriving DecidableEq, Repr

def BufferedEdge.bufferFullWritingStrategy (e : BufferedEdge) : BufferFullWritingStrategy :=
  e.onFull.getD .retryUntilSuccess

/-- A pipeline object; `desiredPhase` is the one of its lifecycle. -/
structure ScaledPipeline where
  nspace : String
  name : String
  desiredPhase : PipelinePhase := .running
  deleting : Bool := false
  edges : List BufferedEdge
deriving DecidableEq, Repr

namespace ScaledPipeline

section

variable (pl : ScaledPipeline)

def getDesiredPhase : PipelinePhase :=
  match pl.desiredPhase with
  | .paused => .paused
  | _ => .running

/-- The key of a vertex in the cache of the metrics. -/
def vertexKey (name : String) : String :=
  pl.nspace ++ "/" ++ pl.name ++ "-" ++ name

/-- The edges that leave a vertex. -/
def leaving (name : String) : List BufferedEdge :=
  pl.edges.filter (·.fromVertex == name)

/-- The edges behind a vertex.  A call inside another one is for a vertex not visited, so their
depth is at most the number of edges, and one more. -/
def getDownstreamEdges (name : String) : List BufferedEdge :=
  (Traversal.walk pl.leaving BufferedEdge.toVertex (pl.edges.length + 1) name ⟨[], []⟩).items

/-- Edges lead from the first vertex to the second. -/
def Reaches : String → String → Prop :=
  ReflTransGen fun a b => ∃ e ∈ pl.edges, e.fromVertex = a ∧ e.toVertex = b

end

variable (pl : ScaledPipeline)

theorem mem_map_fromVertex (a : String) :
    ∀ e ∈ pl.leaving a, a ∈ pl.edges.map BufferedEdge.fromVertex := by
  intro e he
  rcases mem_filter.mp he with ⟨hmem, hfrom⟩
  exact mem_map.mpr ⟨e, hmem, eq_of_beq hfrom⟩

/-- The downstream edges are those that leave reachable vertices. -/
theorem mem_getDownstreamEdges (name : String) (e : BufferedEdge) :
    e ∈ pl.getDownstreamEdges name ↔ e ∈ pl.edges ∧ pl.Reaches name e.fromVertex := by
  have hleads : Leads pl.leaving BufferedEdge.toVertex =
      fun a b => ∃ e ∈ pl.edges, e.fromVertex = a ∧ e.toVertex = b := by
    ext a b
    simp [Leads, leaving, and_assoc]
  have hlength : (pl.edges.map BufferedEdge.fromVertex).length < pl.edges.length + 1 := by
    rw [length_map]
    exact Nat.lt_succ_self _
  unfold getDownstreamEdges Reaches
  rw [mem_walk_iff pl.mem_map_fromVertex hlength, hleads]
  constructor
  · rintro ⟨b, hreach, he⟩
    rcases mem_filter.mp he with ⟨hmem, hfrom⟩
    rw [eq_of_beq hfrom]
    exact ⟨hmem, hreach⟩
  · rintro ⟨hmem, hreach⟩
    exact ⟨e.fromVertex, hreach, mem_filter.mpr ⟨hmem, beq_self_eq_true _⟩⟩

theorem count_flatMap_leaving (e : BufferedEdge) {names : List String}
    (h : names.Nodup) : (names.flatMap pl.leaving).count e =
      if e.fromVertex ∈ names then pl.edges.count e else 0 := by
  induction names with
  | nil => rfl
  | cons a _ ih =>
    rw [nodup_cons] at h
    rw [flatMap_cons, count_append, ih h.2]
    by_cases hfrom : e.fromVertex = a
    · subst hfrom
      simp [leaving, count_filter, h.1]
    · have hnot : e ∉ pl.leaving a := by simp [leaving, hfrom]
      simp [count_eq_zero.mpr hnot, hfrom]

/-- Every edge that leaves a reachable vertex is returned as often as the pipeline has it. -/
theorem count_getDownstreamEdges (name : String) (e : BufferedEdge) :
    (pl.Reaches name e.fromVertex → (pl.getDownstreamEdges name).count e = pl.edges.count e) ∧
      (¬ pl.Reaches name e.fromVertex → (pl.getDownstreamEdges name).count e = 0) := by
  have hmem := pl.mem_getDownstreamEdges name e
  refine ⟨fun hreach => ?_, fun hnot => count_eq_zero.mpr fun he => hnot (hmem.mp he).2⟩
  by_cases he : e ∈ pl.edges
  · obtain ⟨hnodup, new, hvisit, hitems⟩ := @walk_collects _ _ pl.leaving
      BufferedEdge.toVertex name ⟨[], []⟩ _ (pl.edges.length + 1) nodup_nil
    rw [append_nil] at hvisit
    have hcount := (hitems.count_eq e).trans
      (pl.count_flatMap_leaving e (hvisit.nodup_iff.mp hnodup))
    have hpos := count_pos_iff.mpr (hmem.mpr ⟨he, hreach⟩)
    rw [getDownstreamEdges] at hpos ⊢
    rw [hcount] at hpos ⊢
    split_ifs at hpos ⊢ with hnew
    · rfl
    · exact absurd hpos (lt_irrefl 0)
  · rw [count_eq_zero.mpr he, count_eq_zero]
    exact fun hin => he (hmem.mp hin).1

end ScaledPipeline

/-! ## The environment of a call -/

/-- Why an object could not be read. -/
inductive ApiError where
  | notFound
  | other
deriving DecidableEq, Repr

/-- The errors that the scalers return. -/
inductive ScaleError where
  | invalidKey (key : String)
  | queryObject (key : String)
  | queryPipeline (key : String)
  | cronSchedules
  | daemonClient
  | bufferInfos
  | metrics (key : String)
deriving DecidableEq, Repr

/-- How a call ends without a patch. -/
inductive ScaleExit where
  | skipped
  | stoppedWatching
  | failed (error : ScaleError)
deriving DecidableEq, Repr

/-- The metrics of a partition, as far as they are available. -/
structure PartitionMetrics where
  rate : Option ℚ
  pending : Option Int

/-- What the daemon says about the buffers of a vertex. -/
structure BufferInfos where
  totalBufferLengthLimit : Int
  totalCurrentPending : Int

/-- What a call reads: the API server, the clock, the daemon and the cached metrics.
`desiredReplicas` is the number computed from the metrics, and `atRateLimit` says that the rate
has reached the limit. -/
structure ScalerEnv where
  getVertex : String → String → Except ApiError ScaledVertex
  getPipeline : String → String → Except ApiError ScaledPipeline
  secondsSince : Int → ℚ
  now : Int
  cron : CronLibrary
  daemonClient : Bool := true
  bufferInfos : Option BufferInfos
  vertexMetrics : Option (List PartitionMetrics)
  desiredReplicas : Int32
  atRateLimit : Bool := false
  metricsCache : String → Option Int
  backPressureThreshold : ℚ := 9 / 10

/-- A watched key consists of a namespace and a name. -/
def splitKey (key : String) : Except ScaleExit (String × String) :=
  match key.toList.splitOn '/' with
  | [nspace, name] => .ok (String.ofList nspace, String.ofList name)
  | _ => .error (.failed (.invalidKey key))

/-- An object that does not exist is no longer watched. -/
def fetched {α : Type} (error : ScaleError) : Except ApiError α → Except ScaleExit α
  | .ok a => .ok a
  | .error .notFound => .error .stoppedWatching
  | .error .other => .error (.failed error)

variable {error : ScaleError}

@[simp]
theorem fetched_ok {α : Type} {x : Except ApiError α} {a : α} :
    fetched error x = .ok a ↔ x = .ok a := by
  cases x with
  | ok => simp [fetched]
  | error e => cases e <;> simp [fetched]

/-- The rates and the pending messages of all partitions, if every one is available. -/
def totalMetrics (metrics : List PartitionMetrics) : Option (ℚ × Int) :=
  metrics.foldlM (fun total m => do
    let rate ← m.rate.filter (0 ≤ ·)
    let pending ← m.pending.filter (0 ≤ ·)
    return (total.1 + rate, total.2 + pending)) (0, 0)

/-- Move up by a limited number, after the cooldown. -/
def scaleUp (scale : Scale) (since : ℚ) (current desired : Int) : Except ScaleExit Int := do
  check (since < scale.getScaleUpCooldownSeconds) .skipped
  return scale.stepUp current desired

/-- Move down by a limited number, after the cooldown. -/
def scaleDown (scale : Scale) (since : ℚ) (current desired : Int) : Except ScaleExit Int := do
  check (since < scale.getScaleDownCooldownSeconds) .skipped
  return scale.stepDown current desired

/-- The number of replicas wanted, within the bounds. -/
def clampDesired (bounds : Bounds) (desired : Int) : Int :=
  let desired := if bounds.maxReplicas < desired then bounds.maxReplicas else desired
  if desired < bounds.minReplicas then bounds.minReplicas else desired

/-- What was observed of a vertex that runs: the number of replicas wanted, and the cached
metrics. -/
structure Observation where
  desired : Int
  cache : String → Option Int

namespace ScalerEnv

variable (env : ScalerEnv)

section

variable (vertex : ScaledVertex)

/-- The bounds of a vertex; cron schedules are for sources only. -/
def boundsOf : Option Bounds :=
  if vertex.isASource then vertex.scale.effectiveScaleBoundsFor env.cron env.now
  else some ⟨vertex.scale.getMinReplicas, vertex.scale.getMaxReplicas, false⟩

/-- The pending messages over the buffer length reach the threshold.  The quotient is computed
without rounding; over zero it is infinite, or no number. -/
def pressured (pending bufferLength : Int) : Bool :=
  if bufferLength = 0 then decide (0 < pending)
  else decide (env.backPressureThreshold ≤ pending / bufferLength)

/-- The metrics behind an edge reach the threshold, and the edge does not discard. -/
def backPressured (cache : String → Option Int) (pl : ScaledPipeline) (e : BufferedEdge) : Bool :=
  if e.bufferFullWritingStrategy = .discardLatest then false
  else
    let vertexKey := pl.vertexKey e.toVertex
    match cache (vertexKey ++ "/pending"), cache (vertexKey ++ "/length") with
    | some pending, some bufferLength => env.pressured pending bufferLength
    | _, _ => false

/-- The loop over the downstream edges, which stops at a direct edge with back pressure. -/
def pressureLoop (cache : String → Option Int) (pl : ScaledPipeline) (name : String) :
    List BufferedEdge → Bool → Bool × Bool
  | [], downstreamPressure => (false, downstreamPressure)
  | e :: edges, downstreamPressure =>
    if env.backPressured cache pl e then
      if e.fromVertex = name then (true, true) else pressureLoop cache pl name edges true
    else pressureLoop cache pl name edges downstreamPressure

/-- Whether there is back pressure at a direct edge, and at any downstream edge. -/
def hasBackPressure (cache : String → Option Int) (pl : ScaledPipeline) (vertex : ScaledVertex) :
    Bool × Bool :=
  env.pressureLoop cache pl vertex.name (pl.getDownstreamEdges vertex.name) false

/-- The checks of the vertex.  When the desired phase is not Running the scaler writes a log
message and goes on. -/
def checkVertex (since : ℚ) : Except ScaleExit Unit := do
  check vertex.deleting .stoppedWatching
  check (!vertex.scalable) .stoppedWatching
  check (vertex.status.phase != .running) .skipped
  check vertex.status.updating .skipped
  check (since < vertex.scale.getScaleDownCooldownSeconds &&
    since < vertex.scale.getScaleUpCooldownSeconds) .skipped

/-- The checks of the pipeline, and that the replicas are settled. -/
def checkPipeline (pl : ScaledPipeline) : Except ScaleExit Unit := do
  check pl.deleting .stoppedWatching
  check (pl.getDesiredPhase != .running) .skipped
  check (vertex.status.replicas != vertex.status.desiredReplicas) .skipped

/-- Wake up a vertex without replicas. -/
def wakeUp (infos : BufferInfos) (since : ℚ) : Except ScaleExit Int := do
  if vertex.isASource then
    check (since < vertex.scale.getZeroReplicaSleepSeconds) .skipped
  else
    check (infos.totalCurrentPending ≤ 0) .skipped
  return 1

/-- Read the metrics of a vertex.  Its pending messages, and the length of its buffers, are
added to the cache. -/
def observe (key : String) (vertex : ScaledVertex) (infos : BufferInfos) :
    Except ScaleExit Observation := do
  check (vertex.status.readyReplicas == 0) .skipped
  let metrics ← env.vertexMetrics.elim (.error (.failed (.metrics key))) .ok
  let total ← (totalMetrics metrics).elim (.error .skipped) .ok
  let desired := if total.2 = 0 ∧ total.1 = 0 then 0 else env.desiredReplicas.toInt
  check (vertex.rateLimitMax.isSome && env.atRateLimit &&
    vertex.status.current < desired) .skipped
  return {
    desired := desired
    cache := fun k =>
      if k = key ++ "/pending" then some total.2
      else if k = key ++ "/length" ∧ ¬ vertex.isASource then some infos.totalBufferLengthLimit
      else env.metricsCache k }

/-- Move from the current number of replicas towards the one wanted. -/
def moveReplicas (pl : ScaledPipeline) (bounds : Bounds) (since : ℚ)
    (obs : Observation) : Except ScaleExit Int :=
  let current := vertex.status.current
  let desired := clampDesired bounds obs.desired
  if bounds.maxReplicas < current ∨ current < bounds.minReplicas then .ok desired
  else if desired < current then scaleDown vertex.scale since current desired
  else if current < desired then
    match env.hasBackPressure obs.cache pl vertex with
    | (true, _) =>
      -- the cooldown for scaling down is not looked at here
      if bounds.minReplicas < current ∧ 1 < current then .ok (int32 (current - 1))
      else .error .skipped
    | (false, true) => .error .skipped
    | (false, false) => scaleUp vertex.scale since current desired
  else .error .skipped

end

/-- Choose the number of replicas of a vertex that passed the checks. -/
def chooseReplicas (key : String) (vertex : ScaledVertex) (pl : ScaledPipeline) (since : ℚ) :
    Except ScaleExit Int := do
  let bounds ← (env.boundsOf vertex).elim (.error (.failed .cronSchedules)) .ok
  let current := vertex.status.current
  if bounds.cronActive ∧ current < bounds.minReplicas then
    scaleUp vertex.scale since current bounds.minReplicas
  else if bounds.cronActive ∧ bounds.maxReplicas < current then
    scaleDown vertex.scale since current bounds.maxReplicas
  else
    check (bounds.maxReplicas == bounds.minReplicas) .skipped
    check (!env.daemonClient) (.failed .daemonClient)
    let infos ← env.bufferInfos.elim (.error (.failed .bufferInfos)) .ok
    if vertex.status.replicas = 0 then wakeUp vertex infos since
    else
      let obs ← env.observe key vertex infos
      env.moveReplicas vertex pl bounds since obs

/-- Scale one vertex: the result is the number of replicas that is patched, or how the call
ends without a patch. -/
def scaleOneVertex (key : String) : Except ScaleExit Int := do
  let names ← splitKey key
  let vertex ← fetched (.queryObject key) (env.getVertex names.1 names.2)
  checkVertex vertex (env.secondsSince vertex.status.lastScaledAt)
  let pl ← fetched (.queryPipeline key) (env.getPipeline names.1 vertex.pipelineName)
  checkPipeline vertex pl
  env.chooseReplicas key vertex pl (env.secondsSince vertex.status.lastScaledAt)

/-! ## Back pressure -/

section

variable {env}

section

variable (env : ScalerEnv) (cache : String → Option Int) (pl : ScaledPipeline)

/-- The edge is back-pressured and leads on from a vertex behind the given one. -/
def PressuredBehind
    (name : String) (e : BufferedEdge) : Prop :=
  e ∈ pl.edges ∧ pl.Reaches name e.fromVertex ∧ env.backPressured cache pl e = true

theorem pressureLoop_spec
    (name : String) (edges : List BufferedEdge) (downstream : Bool) :
    ((env.pressureLoop cache pl name edges downstream).1 = true ↔
      ∃ e ∈ edges, env.backPressured cache pl e = true ∧ e.fromVertex = name) ∧
    ((env.pressureLoop cache pl name edges downstream).2 = true ↔
      downstream = true ∨ ∃ e ∈ edges, env.backPressured cache pl e = true) := by
  induction edges generalizing downstream with
  | nil => simp [pressureLoop]
  | cons e _ ih =>
    rw [pressureLoop]
    by_cases hpressured : env.backPressured cache pl e = true
    · by_cases hname : e.fromVertex = name
      · simp [hpressured, hname]
      · simp [ih true, hpressured, hname]
    · simp [ih downstream, hpressured]

/-- The first result is about the edges of the vertex itself, the second one about all edges
behind it. -/
theorem hasBackPressure_spec
    (vertex : ScaledVertex) :
    ((env.hasBackPressure cache pl vertex).1 = true ↔
      ∃ e, env.PressuredBehind cache pl vertex.name e ∧ e.fromVertex = vertex.name) ∧
    ((env.hasBackPressure cache pl vertex).2 = true ↔
      ∃ e, env.PressuredBehind cache pl vertex.name e) := by
  have hspec := env.pressureLoop_spec cache pl vertex.name (pl.getDownstreamEdges vertex.name) false
  unfold hasBackPressure PressuredBehind
  rw [hspec.1, hspec.2]
  simp only [pl.mem_getDownstreamEdges, Bool.false_eq_true, false_or, and_assoc, and_self]

/-- The target of the edge is under pressure: the cache has both of its values, and their quotient
reaches the threshold. -/
def TargetPressured (e : BufferedEdge) : Prop :=
  ∃ pending bufferLength, cache (pl.vertexKey e.toVertex ++ "/pending") = some pending ∧
    cache (pl.vertexKey e.toVertex ++ "/length") = some bufferLength ∧
    env.pressured pending bufferLength = true

/-- The test of the loop, spelled out. -/
theorem backPressured_iff (e : BufferedEdge) : env.backPressured cache pl e = true ↔
    e.bufferFullWritingStrategy ≠ .discardLatest ∧ env.TargetPressured cache pl e := by
  unfold backPressured TargetPressured
  split_ifs with hdiscard
  · exact iff_of_false id fun h => h.1 hdiscard
  · rw [and_iff_right hdiscard]
    dsimp only
    split
    · rename_i pending bufferLength hpending hlength
      constructor
      · exact fun h => ⟨pending, bufferLength, hpending, hlength, h⟩
      · rintro ⟨pending', bufferLength', hpending', hlength', h⟩
        cases hpending.symm.trans hpending'
        cases hlength.symm.trans hlength'
        exact h
    · rename_i hmissing
      refine iff_of_false Bool.false_ne_true ?_
      rintro ⟨pending, bufferLength, hpending, hlength, -⟩
      exact hmissing pending bufferLength hpending hlength

/-- The walk ends whatever depth it is given, it returns every edge behind the vertex once, and
the two results are about the edges of the vertex and about all edges behind it that do not discard
and whose target is under pressure. -/
theorem backPressure_exact
    (vertex : ScaledVertex) :
    (∀ depth, pl.edges.length < depth →
      (Traversal.walk pl.leaving BufferedEdge.toVertex depth vertex.name ⟨[], []⟩).items =
        pl.getDownstreamEdges vertex.name) ∧
    (∀ e, (pl.Reaches vertex.name e.fromVertex →
        (pl.getDownstreamEdges vertex.name).count e = pl.edges.count e) ∧
      (¬ pl.Reaches vertex.name e.fromVertex →
        (pl.getDownstreamEdges vertex.name).count e = 0)) ∧
    ((env.hasBackPressure cache pl vertex).1 = true ↔
      ∃ e ∈ pl.edges, e.fromVertex = vertex.name ∧
        e.bufferFullWritingStrategy ≠ .discardLatest ∧ env.TargetPressured cache pl e) ∧
    ((env.hasBackPressure cache pl vertex).2 = true ↔
      ∃ e ∈ pl.edges, pl.Reaches vertex.name e.fromVertex ∧
        e.bufferFullWritingStrategy ≠ .discardLatest ∧ env.TargetPressured cache pl e) := by
  have hspec := env.hasBackPressure_spec cache pl vertex
  simp only [PressuredBehind, backPressured_iff] at hspec
  refine ⟨fun depth hdepth => ?_, pl.count_getDownstreamEdges vertex.name, ?_, hspec.2⟩
  · refine congrArg _ (walk_eq_of_lt pl.mem_map_fromVertex ?_ hdepth)
    rw [PathSearch.fresh_nil, length_map]
    exact Nat.lt_succ_self _
  · rw [hspec.1]
    constructor
    · rintro ⟨e, ⟨he, -, hpressured⟩, hfrom⟩
      exact ⟨e, he, hfrom, hpressured⟩
    · rintro ⟨e, he, hfrom, hpressured⟩
      exact ⟨e, ⟨he, hfrom ▸ ReflTransGen.refl, hpressured⟩, hfrom⟩

end

/-! ## Patches -/

/-- The vertex and the pipeline that a call reads. -/
structure Fetches (env : ScalerEnv) (key : String) (vertex : ScaledVertex) (pl : ScaledPipeline) :
    Prop where
  objects : ∃ names, splitKey key = .ok names ∧ env.getVertex names.1 names.2 = .ok vertex ∧
    env.getPipeline names.1 vertex.pipelineName = .ok pl

variable {key : String} {vertex vertex' : ScaledVertex} {pl pl' : ScaledPipeline} {n : Int}
  {since : ℚ} {bounds : Bounds}

theorem Fetches.unique (h : env.Fetches key vertex pl) (h' : env.Fetches key vertex' pl') :
    vertex' = vertex ∧ pl' = pl := by
  rcases h.objects with ⟨names, hnames, hvertex, hpl⟩
  rcases h'.objects with ⟨names', hnames', hvertex', hpl'⟩
  cases hnames.symm.trans hnames'
  cases hvertex.symm.trans hvertex'
  cases hpl.symm.trans hpl'
  exact ⟨rfl, rfl⟩

/-- A call that patches has read a vertex and a pipeline that pass the checks. -/
theorem patch_spec (h : env.scaleOneVertex key = .ok n) : ∃ vertex pl, env.Fetches key vertex pl ∧
      checkVertex vertex (env.secondsSince vertex.status.lastScaledAt) = .ok () ∧
      checkPipeline vertex pl = .ok () ∧
      env.chooseReplicas key vertex pl (env.secondsSince vertex.status.lastScaledAt) = .ok n := by
  rcases bind_ok.mp h with ⟨names, hnames, h⟩
  rcases bind_ok.mp h with ⟨vertex, hvertex, h⟩
  rcases andThen_ok.mp h with ⟨hcheck, h⟩
  rcases bind_ok.mp h with ⟨pl, hpl, h⟩
  rcases andThen_ok.mp h with ⟨hcheck', h⟩
  rw [fetched_ok] at hvertex hpl
  exact ⟨vertex, pl, ⟨names, hnames, hvertex, hpl⟩, hcheck, hcheck', h⟩

/-- A patch of a vertex with replicas within its bounds follows what was observed. -/
theorem moves_of_chooseReplicas (h : env.chooseReplicas key vertex pl since = .ok n)
    (hbounds : env.boundsOf vertex = some bounds) (hpos : 0 < vertex.status.current)
    (hmin : bounds.minReplicas ≤ vertex.status.current)
    (hmax : vertex.status.current ≤ bounds.maxReplicas) :
    ∃ infos obs, env.bufferInfos = some infos ∧ env.observe key vertex infos = .ok obs ∧
      env.moveReplicas vertex pl bounds since obs = .ok n := by
  rcases bind_ok.mp h with ⟨bounds', hbounds', h⟩
  rw [elim_ok, hbounds, Option.some.injEq] at hbounds'
  subst hbounds'
  rw [if_neg (fun hlow => absurd hlow.2 (not_lt.mpr hmin)),
    if_neg (fun hhigh => absurd hhigh.2 (not_lt.mpr hmax))] at h
  rcases andThen_ok.mp h with ⟨-, h⟩
  rcases andThen_ok.mp h with ⟨-, h⟩
  rcases bind_ok.mp h with ⟨infos, hinfos, h⟩
  have hreplicas : vertex.status.replicas ≠ 0 := by
    intro hzero
    rw [WorkloadStatus.current, hzero] at hpos
    exact absurd hpos (by decide)
  rw [if_neg hreplicas] at h
  rcases bind_ok.mp h with ⟨obs, hobs, h⟩
  exact ⟨infos, obs, elim_ok.mp hinfos, hobs, h⟩

/-! ## Legal steps -/

variable {obs : Observation}

/-- The new number of replicas keeps to the bounds, the cooldowns and the limits, and there is
more of them only without back pressure. -/
structure Legal (env : ScalerEnv) (vertex : ScaledVertex) (pl : ScaledPipeline) (bounds : Bounds)
    (since : ℚ) (cache : String → Option Int) (n : Int) : Prop where
  within : bounds.minReplicas ≤ n ∧ n ≤ bounds.maxReplicas
  up : vertex.status.current < n → vertex.scale.getScaleUpCooldownSeconds ≤ since ∧
    n - vertex.status.current ≤ vertex.scale.getReplicasPerScaleUp ∧
      ∀ e, ¬ env.PressuredBehind cache pl vertex.name e
  down : n < vertex.status.current → vertex.scale.getScaleDownCooldownSeconds ≤ since ∧
    vertex.status.current - n ≤ vertex.scale.getReplicasPerScaleDown

/-- When steps are legal.  A limit that does not fit into 32 bits is read as a negative one, and
a step down because of back pressure is to wait for the cooldown. -/
structure Guarded (env : ScalerEnv) (vertex : ScaledVertex) (pl : ScaledPipeline) (bounds : Bounds)
    (since : ℚ) (obs : Observation) : Prop where
  down : clampDesired bounds obs.desired < vertex.status.current →
    if vertex.scale.getReplicasPerScaleDown < 2147483648 then
      vertex.status.current - clampDesired bounds obs.desired < 2147483648
    else
      2147483648 ≤ vertex.status.current - clampDesired bounds obs.desired ∨
      2147483648 ≤ vertex.status.current + (4294967296 - vertex.scale.getReplicasPerScaleDown) ∧
        bounds.minReplicas ≤ vertex.status.current - vertex.scale.getReplicasPerScaleDown ∨
      vertex.status.current + (4294967296 - vertex.scale.getReplicasPerScaleDown) ≤
          bounds.maxReplicas ∧
        (4294967296 - vertex.scale.getReplicasPerScaleDown : Int) ≤
          vertex.scale.getReplicasPerScaleUp ∧
        vertex.scale.getScaleUpCooldownSeconds ≤ since ∧
        ∀ e, ¬ env.PressuredBehind obs.cache pl vertex.name e
  up : vertex.status.current < clampDesired bounds obs.desired →
    (∀ e, ¬ env.PressuredBehind obs.cache pl vertex.name e) →
      vertex.scale.getReplicasPerScaleUp < 2147483648 ∨
      bounds.minReplicas ≤
          vertex.status.current - (4294967296 - vertex.scale.getReplicasPerScaleUp) ∧
        (4294967296 - vertex.scale.getReplicasPerScaleUp : Int) ≤
          vertex.scale.getReplicasPerScaleDown ∧
        vertex.scale.getScaleDownCooldownSeconds ≤ since
  pressed : vertex.status.current < clampDesired bounds obs.desired →
    (∃ e, env.PressuredBehind obs.cache pl vertex.name e ∧ e.fromVertex = vertex.name) →
      1 ≤ vertex.scale.getReplicasPerScaleDown ∧
        vertex.scale.getScaleDownCooldownSeconds ≤ since

theorem legal_of_le (hmax : vertex.status.current ≤ bounds.maxReplicas)
    (hn : n ≤ vertex.status.current) :
    env.Legal vertex pl bounds since obs.cache n ↔ bounds.minReplicas ≤ n ∧
      vertex.status.current - n ≤ vertex.scale.getReplicasPerScaleDown ∧
      (n < vertex.status.current → vertex.scale.getScaleDownCooldownSeconds ≤ since) := by
  constructor
  · intro h
    refine ⟨h.within.1, ?_, fun hlt => (h.down hlt).1⟩
    rcases hn.lt_or_eq with hlt | heq
    · exact (h.down hlt).2
    · omega
  · rintro ⟨hmin, hlimit, hcooldown⟩
    exact ⟨⟨hmin, by omega⟩, by omega, fun hlt => ⟨hcooldown hlt, hlimit⟩⟩

theorem legal_of_ge (hmin : bounds.minReplicas ≤ vertex.status.current)
    (hn : vertex.status.current ≤ n) :
    env.Legal vertex pl bounds since obs.cache n ↔ n ≤ bounds.maxReplicas ∧
      n - vertex.status.current ≤ vertex.scale.getReplicasPerScaleUp ∧
      (vertex.status.current < n → vertex.scale.getScaleUpCooldownSeconds ≤ since ∧
        ∀ e, ¬ env.PressuredBehind obs.cache pl vertex.name e) := by
  constructor
  · intro h
    refine ⟨h.within.2, ?_, fun hlt => ⟨(h.up hlt).1, (h.up hlt).2.2⟩⟩
    rcases hn.lt_or_eq with hlt | heq
    · exact (h.up hlt).2.1
    · omega
  · rintro ⟨hmax, hlimit, hup⟩
    exact ⟨⟨by omega, hmax⟩, fun hlt => ⟨(hup hlt).1, hlimit, (hup hlt).2⟩, by omega⟩

theorem fits_boundsOf (h : env.boundsOf vertex = some bounds) :
    Fits bounds.minReplicas ∧ Fits bounds.maxReplicas := by
  unfold boundsOf at h
  split_ifs at h
  · exact fits_effectiveScaleBoundsFor h
  · cases h
    exact ⟨vertex.scale.fits_getMinReplicas, vertex.scale.fits_getMaxReplicas⟩

theorem clampDesired_within (h : bounds.minReplicas ≤ bounds.maxReplicas) (desired : Int) :
    bounds.minReplicas ≤ clampDesired bounds desired ∧
      clampDesired bounds desired ≤ bounds.maxReplicas := by
  simp only [clampDesired]
  split_ifs <;> omega

variable {scale : Scale} {current desired : Int}

theorem scaleUp_ok : scaleUp scale since current desired = .ok n ↔
      scale.getScaleUpCooldownSeconds ≤ since ∧ scale.stepUp current desired = n := by
  unfold scaleUp
  rw [andThen_ok, check_ok, decide_eq_false_iff_not, not_lt]
  exact and_congr_right fun _ => ⟨Except.ok.inj, congrArg _⟩

theorem scaleDown_ok : scaleDown scale since current desired = .ok n ↔
      scale.getScaleDownCooldownSeconds ≤ since ∧ scale.stepDown current desired = n := by
  unfold scaleDown
  rw [andThen_ok, check_ok, decide_eq_false_iff_not, not_lt]
  exact and_congr_right fun _ => ⟨Except.ok.inj, congrArg _⟩

section

variable (hbounds : env.boundsOf vertex = some bounds) (hpos : 0 < vertex.status.current)
  (hmin : bounds.minReplicas ≤ vertex.status.current)
  (hmax : vertex.status.current ≤ bounds.maxReplicas)

include hbounds hmin hmax

theorem fits_clampDesired (desired : Int) : Fits (clampDesired bounds desired) := by
  rcases clampDesired_within (hmin.trans hmax) desired with ⟨hlow, hhigh⟩
  rcases fits_boundsOf hbounds with ⟨hfitsMin, hfitsMax⟩
  exact ⟨hfitsMin.1.trans hlow, hhigh.trans_lt hfitsMax.2⟩

include hpos

/-- On the way down, after the cooldown. -/
theorem stepDown_legal_iff (hdown : clampDesired bounds obs.desired < vertex.status.current)
    (hcooldown : vertex.scale.getScaleDownCooldownSeconds ≤ since) :
    env.Legal vertex pl bounds since obs.cache
        (vertex.scale.stepDown vertex.status.current (clampDesired bounds obs.desired)) ↔
      env.Guarded vertex pl bounds since obs := by
  have hlow := (clampDesired_within (hmin.trans hmax) obs.desired).1
  have hfits := fits_clampDesired hbounds hmin hmax obs.desired
  have hfitsMax := (fits_boundsOf hbounds).2.2
  have hfitsCurrent : Fits vertex.status.current := ⟨by omega, hmax.trans_lt hfitsMax⟩
  have hguarded : env.Guarded vertex pl bounds since obs ↔ _ :=
    ⟨fun h => h.down hdown, fun h => ⟨fun _ => h, by omega, by omega⟩⟩
  rw [hguarded]
  by_cases hp : vertex.scale.getReplicasPerScaleDown < 2147483648
  · rw [vertex.scale.stepDown_of_fits hfits hfitsCurrent hdown hp, if_pos hp,
      legal_of_le hmax (by split_ifs <;> omega)]
    simp only [hcooldown, implies_true, and_true]
    split_ifs <;> omega
  · have hlimit : vertex.scale.getReplicasPerScaleDown < 4294967296 := vertex.scale.replicasPer_lt _
    rw [vertex.scale.stepDown_of_large hfits hfitsCurrent hdown (not_lt.mp hp), if_neg hp]
    by_cases hdiff : vertex.status.current - clampDesired bounds obs.desired < 2147483648
    · rw [if_pos hdiff, or_iff_right (by omega)]
      by_cases hwrap :
          vertex.status.current + (4294967296 - vertex.scale.getReplicasPerScaleDown) < 2147483648
      · rw [int32_of_fits (by omega) hwrap, legal_of_ge hmin (by omega), or_iff_right (by omega),
          imp_iff_right (by omega), add_sub_cancel_left]
      · rw [int32_of_large (by omega) (by omega), legal_of_le hmax (by omega)]
        simp only [hcooldown, implies_true, and_true]
        omega
    · rw [legal_of_le hmax (by omega)]
      simp only [hcooldown, implies_true, and_true]
      omega

/-- On the way up, after the cooldown and without back pressure. -/
theorem stepUp_legal_iff (hup : vertex.status.current < clampDesired bounds obs.desired)
    (hpressure : ∀ e, ¬ env.PressuredBehind obs.cache pl vertex.name e)
    (hcooldown : vertex.scale.getScaleUpCooldownSeconds ≤ since) :
    env.Legal vertex pl bounds since obs.cache
        (vertex.scale.stepUp vertex.status.current (clampDesired bounds obs.desired)) ↔
      env.Guarded vertex pl bounds since obs := by
  have hhigh := (clampDesired_within (hmin.trans hmax) obs.desired).2
  have hguarded : env.Guarded vertex pl bounds since obs ↔ _ := ⟨fun h => h.up hup hpressure,
      fun h => ⟨by omega, fun _ _ => h, fun _ ⟨e, he, _⟩ => absurd he (hpressure e)⟩⟩
  rw [hguarded, vertex.scale.stepUp_eq hpos hup (fits_clampDesired hbounds hmin hmax _)]
  by_cases hq : vertex.scale.getReplicasPerScaleUp < 2147483648
  · rw [legal_of_ge hmin (by omega)]
    exact iff_of_true ⟨by omega, by omega, fun _ => ⟨hcooldown, hpressure⟩⟩ (.inl hq)
  · have hlimit : vertex.scale.getReplicasPerScaleUp < 4294967296 := vertex.scale.replicasPer_lt _
    rw [if_neg hq, legal_of_le hmax (by omega), or_iff_right hq, imp_iff_right (by omega),
      sub_sub_cancel]

/-- A step towards the number of replicas wanted is legal exactly when it is guarded. -/
theorem moveReplicas_legal_iff (h : env.moveReplicas vertex pl bounds since obs = .ok n) :
    env.Legal vertex pl bounds since obs.cache n ↔ env.Guarded vertex pl bounds since obs := by
  unfold moveReplicas at h
  rw [if_neg (by omega)] at h
  by_cases hdown : clampDesired bounds obs.desired < vertex.status.current
  · rw [if_pos hdown, scaleDown_ok] at h
    rcases h with ⟨hcooldown, rfl⟩
    exact stepDown_legal_iff hbounds hpos hmin hmax hdown hcooldown
  rw [if_neg hdown] at h
  by_cases hup : vertex.status.current < clampDesired bounds obs.desired
  · have hspec := env.hasBackPressure_spec obs.cache pl vertex
    rw [if_pos hup] at h
    split at h
    · rename_i downstream heq
      rw [heq] at hspec
      have hpressed := hspec.1.mp rfl
      have hfits := (fits_boundsOf hbounds).2.2
      split_ifs at h with hmany
      rcases Except.ok.inj h with rfl
      have hguarded : env.Guarded vertex pl bounds since obs ↔ _ :=
        ⟨fun h => h.pressed hup hpressed, fun h => ⟨by omega,
          fun _ hnone => absurd hpressed.choose_spec.1 (hnone _), fun _ _ => h⟩⟩
      rw [hguarded, int32_of_fits (by omega) (by omega), legal_of_le hmax (by omega),
        imp_iff_right (by omega), sub_sub_cancel]
      exact ⟨fun h => ⟨by omega, h.2.2⟩, fun h => ⟨by omega, by omega, h.2⟩⟩
    · cases h
    · rename_i heq
      rw [heq] at hspec
      rw [scaleUp_ok] at h
      rcases h with ⟨hcooldown, rfl⟩
      refine stepUp_legal_iff hbounds hpos hmin hmax hup (fun e he => ?_) hcooldown
      exact absurd (hspec.2.mpr ⟨e, he⟩) Bool.false_ne_true
  · rw [if_neg hup] at h
    cases h

end

/-- A patch of a vertex with replicas within its bounds is legal exactly when the limits fit and
a direct back pressure comes after the cooldown for scaling down. -/
theorem scaleOneVertex_legal_iff (h : env.scaleOneVertex key = .ok n)
    (hfetches : env.Fetches key vertex pl) (hbounds : env.boundsOf vertex = some bounds)
    (hpos : 0 < vertex.status.current) (hmin : bounds.minReplicas ≤ vertex.status.current)
    (hmax : vertex.status.current ≤ bounds.maxReplicas) :
    ∃ infos obs, env.bufferInfos = some infos ∧ env.observe key vertex infos = .ok obs ∧
      (env.Legal vertex pl bounds (env.secondsSince vertex.status.lastScaledAt) obs.cache n ↔
        env.Guarded vertex pl bounds (env.secondsSince vertex.status.lastScaledAt) obs) := by
  rcases patch_spec h with ⟨vertex', pl', hfetches', -, -, hchoose⟩
  rcases hfetches.unique hfetches' with ⟨rfl, rfl⟩
  rcases moves_of_chooseReplicas hchoose hbounds hpos hmin hmax with ⟨infos, obs, hinfos, hobs, hmove⟩
  exact ⟨infos, obs, hinfos, hobs, moveReplicas_legal_iff hbounds hpos hmin hmax hmove⟩

end

/-! ## Examples -/

/-- A map vertex with four replicas and a cooldown for scaling down of its own. -/
def scaledMap (scaleDownCooldownSeconds : UInt32) : ScaledVertex :=
  { pipelineName := "p", name := "v", udf := some {}
    scale := { scaleDownCooldownSeconds := some scaleDownCooldownSeconds }
    status := ⟨.running, 4, 4, 4, "", "", 0⟩ }

def scaledPipeline : ScaledPipeline :=
  { nspace := "ns", name := "p", edges := [⟨"v", "w", none⟩] }

/-- Eight replicas are wanted 100 seconds after the last scaling.  The next vertex is
back-pressured when there are metrics of it. -/
def wantsMore (vertex : ScaledVertex) (cached : Option Int) : ScalerEnv :=
  { getVertex := fun _ _ => .ok vertex
    getPipeline := fun _ _ => .ok scaledPipeline
    secondsSince := fun _ => 100
    now := 0
    cron := ⟨fun _ => none, fun _ => false⟩
    bufferInfos := some ⟨1000, 10⟩
    vertexMetrics := some [⟨some 1, some 10⟩]
    desiredReplicas := 8
    metricsCache := fun _ => cached }

theorem fetches_wantsMore (vertex : ScaledVertex) (cached : Option Int) :
    (wantsMore vertex cached).Fetches "ns/p-v" vertex scaledPipeline :=
  ⟨("ns", "p-v"), by decide +kernel, rfl, rfl⟩

/-- Without back pressure two replicas are added. -/
theorem scaleOneVertex_legal_example :
    (wantsMore (scaledMap 90) none).scaleOneVertex "ns/p-v" = .ok 6 ∧
      ∃ cache, (wantsMore (scaledMap 90) none).Legal (scaledMap 90) scaledPipeline
        ⟨0, 50, false⟩ 100 cache 6 := by
  have hpatch : (wantsMore (scaledMap 90) none).scaleOneVertex "ns/p-v" = .ok 6 := by decide +kernel
  have hbounds : (wantsMore (scaledMap 90) none).boundsOf (scaledMap 90) = some ⟨0, 50, false⟩ := by
    decide +kernel
  rcases scaleOneVertex_legal_iff hpatch (fetches_wantsMore _ _) hbounds (by decide) (by decide)
    (by decide) with ⟨infos, obs, -, -, hiff⟩
  have hcurrent : (scaledMap 90).status.current = 4 := by decide
  have hlow : 0 ≤ clampDesired ⟨0, 50, false⟩ obs.desired :=
    (clampDesired_within (by decide) obs.desired).1
  refine ⟨hpatch, obs.cache, hiff.mpr ⟨fun _ => ?_, fun _ _ => Or.inl (by decide), fun _ _ => ?_⟩⟩
  · rw [if_pos (by decide), hcurrent]
    omega
  · exact ⟨by decide, show ((90 : Nat) : ℚ) ≤ 100 by decide +kernel⟩

/-- With back pressure a replica is removed, 100 seconds after the last scaling and although
the cooldown for scaling down is 600 seconds. -/
theorem scaleOneVertex_not_legal :
    (wantsMore (scaledMap 600) (some 5)).scaleOneVertex "ns/p-v" = .ok 3 ∧
      (scaledMap 600).status.current = 4 ∧
      (wantsMore (scaledMap 600) (some 5)).boundsOf (scaledMap 600) = some ⟨0, 50, false⟩ ∧
      ∀ cache, ¬ (wantsMore (scaledMap 600) (some 5)).Legal (scaledMap 600) scaledPipeline
        ⟨0, 50, false⟩ 100 cache 3 := by
  refine ⟨by decide +kernel, by decide, by decide +kernel, ?_⟩
  intro cache h
  have hcooldown : ((600 : Nat) : ℚ) ≤ 100 := (h.down (by decide)).1
  exact absurd hcooldown (by decide +kernel)

end ScalerEnv

end Numaflow.Controller
