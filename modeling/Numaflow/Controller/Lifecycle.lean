import Numaflow.Controller.Validate
import Numaflow.Lib.Run

/-!
# Pausing and resuming a pipeline

The controller of pipelines writes vertex objects in two places: it creates and updates them
from the specification of the pipeline whenever the hash of a built vertex differs, and it
patches their desired phase when the pipeline is paused or resumed.  How far it has come is
read off the phase in the status and the annotation with the time of the pause.

Every call to the API server may fail.  A step is therefore given what the calls of this step
answer; a failed call ends the step, and the status set so far is stored.  The loops over
vertices go through a map, so a failure leaves an arbitrary part of them done.

Main results: `PipelineObject.lookup_reconcileFixedResources`,
`PipelineObject.lookup_pausePipeline`, `PipelineObject.lookup_resumePipeline`,
`pause_drains_first`.
-/

namespace Numaflow.Controller

open Lib Option

inductive PipelinePhase where
  | unknown
  | running
  | failed
  | pausing
  | paused
  | deleting
deriving DecidableEq, Repr

/-- The desired phase of a vertex. -/
inductive VertexPhase where
  | running
  | paused
deriving DecidableEq, Repr

/-- A vertex with its effective settings; `rest` is everything that only enters the hash. -/
structure VertexTemplate (τ : Type) where
  vertex : AbstractVertex
  ordered : Bool := false
  scaleDisabled : Bool := false
  rest : τ
deriving DecidableEq, Repr

/-- A vertex object of the cluster; `hash` is its annotation. -/
structure VertexObject (τ κ : Type) where
  template : VertexTemplate τ
  hash : κ
  replicas : Option Int
  desiredPhase : VertexPhase
deriving DecidableEq, Repr

/-- The specification of a pipeline, with the annotation for the resume strategy. -/
structure LifecycleSpec (τ : Type) where
  desiredPhase : PipelinePhase
  pauseGracePeriodSeconds : Option Int := none
  slowResume : Bool := false
  vertices : List (VertexTemplate τ)
deriving DecidableEq, Repr

/-- A pipeline with its vertex objects.  `phase` is the phase stored in the status, and
`pauseTimestamp` is the annotation. -/
structure PipelineObject (τ κ : Type) where
  spec : LifecycleSpec τ
  deleting : Bool
  phase : PipelinePhase
  pauseTimestamp : Option Int
  vertices : List (VertexObject τ κ)
deriving DecidableEq, Repr

/-- How the reconciliation of the resources ended: with an error before the loop over the
vertices, with some vertices created or updated, with all vertices written and some stale ones
deleted, with an error after that, or without one. -/
inductive FixedOutcome where
  | failedBefore
  | failedVertices (handled : List String)
  | failedDeletes (deleted : List String)
  | failedAfter
  | ok
deriving DecidableEq, Repr

/-- How a loop that patches vertices ended. -/
inductive PatchOutcome where
  | failed (patched : List String)
  | ok
deriving DecidableEq, Repr

/-- The answer to a patch of the pipeline's annotations. -/
inductive ApiAnswer where
  | ok
  | notFound
  | failed
deriving DecidableEq, Repr

/-- What the calls of one step answer.  The client writes the answer to a patch back into the
object it was given; `restoresPhase` says whether the phase stored before comes back with it. -/
structure StepEnv where
  valid : Bool := true
  fixed : FixedOutcome := .ok
  childrenOk : Bool := true
  pipelinePatch : ApiAnswer := .ok
  restoresPhase : Bool := false
  vertexPatch : PatchOutcome := .ok
  sourcePodsTerminated : Bool := false
  isDrained : Bool := false
  withinTermination : Bool := true
  now : Int := 0
deriving DecidableEq, Repr

def FixedOutcome.succeeded (outcome : FixedOutcome) : Bool :=
  outcome = .ok

/-- The loop over the built vertices got to this one. -/
def FixedOutcome.handles (name : String) : FixedOutcome → Bool
  | failedBefore => false
  | failedVertices handled => handled.contains name
  | _ => true

/-- The loop over the stale vertices got to this one. -/
def FixedOutcome.deletes (name : String) : FixedOutcome → Bool
  | failedBefore => false
  | failedVertices _ => false
  | failedDeletes deleted => deleted.contains name
  | _ => true

def PatchOutcome.succeeded (outcome : PatchOutcome) : Bool :=
  outcome = .ok

/-- The loop patched this vertex. -/
def PatchOutcome.patches (name : String) : PatchOutcome → Bool
  | failed patched => patched.contains name
  | ok => true

namespace AbstractVertex

def isMapUdf (v : AbstractVertex) : Bool :=
  v.udf.any (·.groupBy.isNone)

def getMinReplicas (v : AbstractVertex) : Int :=
  match v.scaleMin with
  | none => 0
  | some n => if n < 0 then 0 else n

def getMaxReplicas (v : AbstractVertex) : Int :=
  v.scaleMax.getD defaultMaxReplicas

end AbstractVertex

namespace VertexTemplate

variable {τ : Type}

section

variable (t : VertexTemplate τ)

def name : String :=
  t.vertex.name

def isOrdered : Bool :=
  !t.vertex.isReduceUdf && t.ordered

/-- Ordered processing fixes the number of replicas of map and sink vertices. -/
def hasFixedReplicas : Bool :=
  t.isOrdered && (t.vertex.isMapUdf || t.vertex.sink)

/-- Disable scaling with the number of partitions as both bounds. -/
def fixScale : VertexTemplate τ :=
  { t with
    scaleDisabled := true
    vertex.scaleMin := some t.vertex.getPartitionCount
    vertex.scaleMax := some t.vertex.getPartitionCount }

end

end VertexTemplate

namespace VertexObject

variable {τ κ : Type}

section

variable (v : VertexObject τ κ)

def name : String :=
  v.template.name

def isASource : Bool :=
  v.template.vertex.isASource

/-- Take over a built vertex; the replicas stay when they are within the new bounds. -/
def update (v new : VertexObject τ κ) : VertexObject τ κ :=
  let original := v.replicas.getD 0
  let vertex := new.template.vertex
  { new with
    replicas :=
      if vertex.getMinReplicas ≤ original ∧ original ≤ vertex.getMaxReplicas then some original
      else new.replicas }

/-- The replicas of a vertex within the bounds of a new specification. -/
def clampReplicas (new : AbstractVertex) : Int :=
  min (max (v.replicas.getD 0) new.getMinReplicas) new.getMaxReplicas

/-- The replicas are within the new bounds, or these bounds leave no choice, or the replicas are
raised to at least one or lowered to at most one. -/
def KeepsReplicas (new : AbstractVertex) : Prop :=
  let original := v.replicas.getD 0
  new.getMinReplicas ≤ original ∧ original ≤ new.getMaxReplicas ∨
    new.getMaxReplicas ≤ new.getMinReplicas ∨
    original < new.getMinReplicas ∧ 1 ≤ new.getMinReplicas ∨
    new.getMaxReplicas < original ∧ new.getMaxReplicas ≤ 1

end

@[simp]
theorem update_desiredPhase (v new : VertexObject τ κ) :
    (v.update new).desiredPhase = new.desiredPhase :=
  rfl

/-- Patch the desired phase, and remove the replicas when asked to. -/
def patch (phase : VertexPhase) (removeReplicas : Bool) (v : VertexObject τ κ) :
    VertexObject τ κ :=
  { v with
    desiredPhase := phase
    replicas := if removeReplicas then none else v.replicas }

end VertexObject

/-- The vertex object with a name. -/
def lookup {τ κ : Type} (vertices : List (VertexObject τ κ)) (name : String) :
    Option (VertexObject τ κ) :=
  vertices.find? (fun v => v.name == name)

namespace PipelineObject

variable {τ κ : Type} [DecidableEq κ] (mustHash : VertexTemplate τ → κ)

section

variable (pl : PipelineObject τ κ)

def getDesiredPhase : PipelinePhase :=
  match pl.spec.desiredPhase with
  | .paused => .paused
  | _ => .running

/-- The desired phase that built vertices are given. -/
def vertexDesiredPhase : VertexPhase :=
  match pl.spec.desiredPhase with
  | .paused => .paused
  | _ => .running

def getPauseGracePeriodSeconds : Int :=
  pl.spec.pauseGracePeriodSeconds.getD 30

def isLifecycleChange : Bool :=
  pl.getDesiredPhase = .paused || pl.phase = .paused || pl.phase = .pausing ||
    pl.pauseTimestamp.isSome

def isStrandedPause : Bool :=
  pl.getDesiredPhase = .running && pl.pauseTimestamp.isSome

/-- The template that is hashed; the scale of ordered vertices is only fixed when the lifecycle
does not change. -/
def buildTemplate (t : VertexTemplate τ) : VertexTemplate τ :=
  if !pl.isLifecycleChange && t.hasFixedReplicas then t.fixScale else t

def buildReplicas (t : VertexTemplate τ) : Int :=
  if pl.isLifecycleChange then 0
  else if t.vertex.isReduceUdf || t.hasFixedReplicas then t.vertex.getPartitionCount
  else min (max 1 t.vertex.getMinReplicas) t.vertex.getMaxReplicas

def buildVertex (t : VertexTemplate τ) : VertexObject τ κ where
  template := pl.buildTemplate t
  hash := mustHash (pl.buildTemplate t)
  replicas := some (pl.buildReplicas t)
  desiredPhase := pl.vertexDesiredPhase

def buildVertices : List (VertexObject τ κ) :=
  pl.spec.vertices.map (pl.buildVertex mustHash)

section

variable (outcome : FixedOutcome)

/-- The built vertex that an existing one is updated with, when its hash differs. -/
def findUpdate (v : VertexObject τ κ) : Option (VertexObject τ κ) :=
  (lookup (pl.buildVertices mustHash) v.name).filter
    fun new => outcome.handles v.name && v.hash ≠ new.hash

/-- An existing vertex in the loop over the built vertices. -/
def updateVertex (v : VertexObject τ κ) : VertexObject τ κ :=
  match pl.findUpdate mustHash outcome v with
  | none => v
  | some new => v.update new

/-- A vertex is deleted when the specification does not have it any more. -/
def isStale (name : String) : Bool :=
  (lookup (pl.buildVertices mustHash) name).isNone

def createdVertices : List (VertexObject τ κ) :=
  (pl.buildVertices mustHash).filter
    fun new => outcome.handles new.name && (lookup pl.vertices new.name).isNone

def reconcileFixedResources : PipelineObject τ κ :=
  { pl with
    vertices :=
      ((pl.vertices.map (pl.updateVertex mustHash outcome)).filter
        fun v => !(pl.isStale mustHash v.name && outcome.deletes v.name)) ++
      pl.createdVertices mustHash outcome }

end

/-- Patch the vertices that the filter selects and whose desired phase differs. -/
def patchVertices (filter : VertexObject τ κ → Bool) (phase : VertexPhase)
    (removeReplicas : Bool) (outcome : PatchOutcome) : PipelineObject τ κ :=
  { pl with
    vertices := pl.vertices.map fun v =>
      if filter v && v.desiredPhase ≠ phase && outcome.patches v.name then
        v.patch phase removeReplicas
      else v }

section

variable (env : StepEnv) (stored : PipelinePhase)

/-- The answer to a patch of the pipeline may bring back the phase stored before the step. -/
def afterPatch (timestamp : Option Int) :
    PipelineObject τ κ :=
  { pl with
    pauseTimestamp := timestamp
    phase := if env.restoresPhase then stored else pl.phase }

/-- The annotation has a resolution of one second. -/
def formatTimestamp (now : Int) : Int :=
  now - now % 1000000000

/-- All sources are gone and the daemon says that the buffers are empty. -/
def drainCompleted (env : StepEnv) : Bool :=
  env.sourcePodsTerminated && env.isDrained

/-- The grace period in nanoseconds. -/
def pauseGracePeriod : Int := pl.getPauseGracePeriodSeconds * 1000000000

/-- The deadline is computed with a duration, which is a 64-bit integer: the product wraps. -/
def graceElapsed (env : StepEnv) (timestamp : Int) : Bool :=
  timestamp + pl.pauseGracePeriod.bmod (2 ^ 64) < env.now

/-- The first step of a pause: the sources, then the annotation. -/
def startPause : PipelineObject τ κ :=
  let pl := pl.patchVertices VertexObject.isASource .paused false env.vertexPatch
  if env.vertexPatch.succeeded && env.pipelinePatch = .ok then
    pl.afterPatch env stored (some (formatTimestamp env.now))
  else pl

/-- The last step of a pause: all vertices. -/
def finishPause (env : StepEnv) : PipelineObject τ κ :=
  let pl := pl.patchVertices (fun _ => true) .paused false env.vertexPatch
  if env.vertexPatch.succeeded then { pl with phase := .paused } else pl

def pausePipeline : PipelineObject τ κ :=
  let pl := { pl with phase := .pausing }
  match pl.pauseTimestamp with
  | none => pl.startPause env stored
  | some timestamp =>
    if pl.graceElapsed env timestamp || drainCompleted env then pl.finishPause env else pl

/-- Resume the vertices and mark the pipeline as running. -/
def resumeVertices (env : StepEnv) : PipelineObject τ κ :=
  let pl := pl.patchVertices (fun _ => true) .running pl.spec.slowResume env.vertexPatch
  if env.vertexPatch.succeeded then { pl with phase := .running } else pl

def resumePipeline : PipelineObject τ κ :=
  match pl.pauseTimestamp with
  | none => pl.resumeVertices env
  | some _ =>
    if env.pipelinePatch = .ok then (pl.afterPatch env stored none).resumeVertices env else pl

def updateDesiredState : PipelineObject τ κ :=
  match pl.getDesiredPhase with
  | .paused => pl.pausePipeline env stored
  | _ => pl.resumePipeline env stored

/-- A pipeline that is being deleted only stops its sources, as long as it may wait. -/
def reconcileDeletion (env : StepEnv) : PipelineObject τ κ :=
  if env.withinTermination then
    PipelineObject.patchVertices { pl with phase := .deleting } VertexObject.isASource .paused false
      env.vertexPatch
  else pl

/-- The phase follows the desired phase unless the lifecycle changes. -/
def followDesiredPhase : PipelineObject τ κ :=
  if pl.isLifecycleChange then pl else { pl with phase := pl.getDesiredPhase }

/-- The part of a step after the resources have been reconciled. -/
def reconcileLifecycle : PipelineObject τ κ :=
  let pl := pl.followDesiredPhase
  if env.childrenOk && pl.isLifecycleChange &&
      (pl.phase ≠ pl.getDesiredPhase || pl.isStrandedPause) then
    pl.updateDesiredState env stored
  else pl

end

def reconcile (env : StepEnv) : PipelineObject τ κ :=
  if pl.deleting then pl.reconcileDeletion env
  else if !env.valid then { pl with phase := .failed }
  else
    let fixed := pl.reconcileFixedResources mustHash env.fixed
    if env.fixed.succeeded then fixed.reconcileLifecycle env pl.phase
    else { fixed with phase := .failed }

end

end PipelineObject

/-- What happens to a pipeline: its specification changes, its deletion is requested, or the
controller is called. -/
inductive LifecycleAction (τ : Type) where
  | setSpec (spec : LifecycleSpec τ)
  | requestDeletion
  | reconcile (env : StepEnv)
deriving DecidableEq, Repr

namespace PipelineObject

variable {τ κ : Type} [DecidableEq κ]

def step (mustHash : VertexTemplate τ → κ) (pl : PipelineObject τ κ) :
    LifecycleAction τ → PipelineObject τ κ
  | .setSpec spec => { pl with spec := spec }
  | .requestDeletion => { pl with deleting := true }
  | .reconcile env => pl.reconcile mustHash env

/-- A pipeline that was just created. -/
def new (spec : LifecycleSpec τ) : PipelineObject τ κ where
  spec := spec
  deleting := false
  phase := .unknown
  pauseTimestamp := none
  vertices := []

/-! ## What becomes of a vertex -/

section

variable {vertices vertices' : List (VertexObject τ κ)} {name : String}

omit [DecidableEq κ]

variable {v : VertexObject τ κ}

theorem name_of_lookup (h : lookup vertices name = some v) : v.name = name := by
  simpa using List.find?_some h

theorem lookup_map {f : VertexObject τ κ → VertexObject τ κ} (hf : ∀ v, (f v).name = v.name) :
    lookup (vertices.map f) name = (lookup vertices name).map f := by
  have hcomp : ((fun v => v.name == name) ∘ f) = fun v : VertexObject τ κ => v.name == name := by
    funext v
    simp [hf v]
  rw [lookup, List.find?_map, hcomp, lookup]

theorem lookup_filter {p : String → Bool} : lookup (vertices.filter fun v => p v.name) name =
    if p name = true then lookup vertices name else none := by
  rw [lookup, List.find?_filter]
  split_ifs with hkept
  · rw [lookup]
    congr 1
    funext w
    by_cases hw : w.name = name
    · simp [hw, hkept]
    · simp [hw]
  · rw [List.find?_eq_none]
    intro w _ hw
    simp only [beq_iff_eq, decide_eq_true_eq] at hw
    exact hkept (hw.2 ▸ hw.1)

end

section

variable (mustHash : VertexTemplate τ → κ) {pl : PipelineObject τ κ} {outcome : FixedOutcome}
  {v v' : VertexObject τ κ} {name : String}

omit [DecidableEq κ] in
theorem desiredPhase_of_mem_buildVertices (h : v ∈ pl.buildVertices mustHash) :
    v.desiredPhase = pl.vertexDesiredPhase := by
  obtain ⟨t, _, rfl⟩ := List.mem_map.mp h
  rfl

omit [DecidableEq κ] in
theorem vertexDesiredPhase_of_running (h : pl.getDesiredPhase ≠ .paused) :
    pl.vertexDesiredPhase = .running := by
  unfold getDesiredPhase at h
  unfold vertexDesiredPhase
  split
  case h_1 heq => simp [heq] at h
  case h_2 => rfl

theorem findUpdate_spec {new : VertexObject τ κ} (h : pl.findUpdate mustHash outcome v = some new) :
    new ∈ pl.buildVertices mustHash ∧ new.name = v.name ∧ v.hash ≠ new.hash := by
  obtain ⟨hfound, hdiff⟩ := filter_eq_some_iff.mp h
  simp only [Bool.and_eq_true, decide_eq_true_eq] at hdiff
  exact ⟨List.mem_of_find?_eq_some hfound, name_of_lookup hfound, hdiff.2⟩

/-- An existing vertex stays as it is, or takes over the built one because the hashes differ. -/
theorem updateVertex_spec (pl : PipelineObject τ κ) (outcome : FixedOutcome)
    (v : VertexObject τ κ) :
    pl.updateVertex mustHash outcome v = v ∨ ∃ new, pl.findUpdate mustHash outcome v = some new ∧
        pl.updateVertex mustHash outcome v = v.update new := by
  unfold updateVertex
  cases hfound : pl.findUpdate mustHash outcome v with
  | none => exact .inl rfl
  | some new => exact .inr ⟨new, rfl, rfl⟩

theorem updateVertex_name (outcome : FixedOutcome) (v : VertexObject τ κ) :
    (pl.updateVertex mustHash outcome v).name = v.name := by
  rcases updateVertex_spec mustHash pl outcome v with heq | ⟨new, hfound, heq⟩
  · rw [heq]
  · rw [heq]
    exact (findUpdate_spec mustHash hfound).2.1

theorem lookup_vertices_reconcileFixedResources (hv : lookup pl.vertices name = some v) :
    lookup (pl.reconcileFixedResources mustHash outcome).vertices name =
      if (!(pl.isStale mustHash name && outcome.deletes name)) = true then
        some (pl.updateVertex mustHash outcome v)
      else none := by
  have hcreated : lookup (pl.createdVertices mustHash outcome) name = none := by
    rw [lookup, List.find?_eq_none]
    intro new hnew hname
    have habsent := (List.mem_filter.mp hnew).2
    rw [beq_iff_eq] at hname
    simp [hname, hv] at habsent
  have hkept := @lookup_filter _ _ (pl.vertices.map (pl.updateVertex mustHash outcome)) name
    fun n => !(pl.isStale mustHash n && outcome.deletes n)
  rw [lookup_map (updateVertex_name mustHash outcome), hv, map_some] at hkept
  rw [← hkept, reconcileFixedResources, lookup, List.find?_append, ← lookup, ← lookup, hcreated,
    or_none]

/-- What becomes of an existing vertex when the resources are reconciled. -/
theorem lookup_reconcileFixedResources (hv : lookup pl.vertices name = some v)
    (hv' : lookup (pl.reconcileFixedResources mustHash outcome).vertices name = some v') :
    v' = pl.updateVertex mustHash outcome v := by
  rw [lookup_vertices_reconcileFixedResources mustHash hv] at hv'
  split_ifs at hv'
  exact (some.inj hv').symm

variable {t : VertexTemplate τ}

/-- A change of the specification leaves a vertex that is scaled with its replicas, within the new
bounds, exactly when they were within them or would be raised to at least one or lowered to at
most one. -/
theorem replicas_clamped_iff (hchange : pl.isLifecycleChange = false)
    (hv : lookup pl.vertices name = some v)
    (ht : pl.spec.vertices.find? (fun t => t.name == name) = some t)
    (hreduce : t.vertex.isReduceUdf = false) (hordered : t.isOrdered = false)
    (hhash : v.hash ≠ mustHash t) :
    (lookup (pl.reconcileFixedResources mustHash .ok).vertices name).bind (·.replicas) =
        some (v.clampReplicas t.vertex) ↔
      v.KeepsReplicas t.vertex := by
  have hfixed : t.hasFixedReplicas = false := by rw [VertexTemplate.hasFixedReplicas, hordered]; rfl
  have hname : (fun v => v.name == name) ∘ pl.buildVertex mustHash =
      fun t : VertexTemplate τ => t.name == name := by
    funext t
    simp only [Function.comp, VertexObject.name, buildVertex, buildTemplate]
    split_ifs <;> rfl
  have hbuilt : lookup (pl.buildVertices mustHash) name = some (pl.buildVertex mustHash t) := by
    rw [lookup, buildVertices, List.find?_map, hname, ht, map_some]
  have htemplate : (pl.buildVertex mustHash t).template = t := by
    simp [buildVertex, buildTemplate, hfixed]
  have hdiff : v.hash ≠ (pl.buildVertex mustHash t).hash := by
    change v.hash ≠ mustHash (pl.buildVertex mustHash t).template
    rwa [htemplate]
  have hupdate : pl.updateVertex mustHash .ok v = v.update (pl.buildVertex mustHash t) := by
    simp [updateVertex, findUpdate, name_of_lookup hv, hbuilt, Option.filter, hdiff,
      FixedOutcome.handles]
  have hreplicas : (pl.buildVertex mustHash t).replicas =
      some (min (max 1 t.vertex.getMinReplicas) t.vertex.getMaxReplicas) := by
    simp [buildVertex, buildReplicas, hchange, hreduce, hfixed]
  rw [lookup_vertices_reconcileFixedResources mustHash hv, hupdate, isStale, hbuilt]
  change (v.update (pl.buildVertex mustHash t)).replicas = _ ↔ _
  simp only [VertexObject.update, htemplate, hreplicas, VertexObject.clampReplicas,
    VertexObject.KeepsReplicas]
  split_ifs <;> rw [some.injEq] <;> omega

def scaledSource (max : Option Int) : VertexTemplate Nat where
  vertex := { name := "in", source := true, scaleMax := max }
  rest := 0

/-- A source with replicas from before their number was limited to five. -/
def limitedSource (replicas : Int) : PipelineObject Nat (VertexTemplate Nat) where
  spec := { desiredPhase := .running, vertices := [scaledSource (some 5)] }
  deleting := false
  phase := .running
  pauseTimestamp := none
  vertices := [⟨scaledSource none, scaledSource none, some replicas, .running⟩]

/-- Three replicas stay. -/
theorem replicas_clamped_three :
    (lookup ((limitedSource 3).reconcileFixedResources id .ok).vertices "in").bind (·.replicas) =
      some 3 :=
  (replicas_clamped_iff id (t := scaledSource (some 5))
    (v := ⟨scaledSource none, scaledSource none, some 3, .running⟩) rfl rfl rfl rfl rfl
    (by decide)).mpr (.inl (by decide))

/-- Ten replicas become one, not five. -/
theorem replicas_reset :
    (lookup ((limitedSource 10).reconcileFixedResources id .ok).vertices "in").bind (·.replicas) =
        some 1 ∧
      ∀ v ∈ (limitedSource 10).vertices, v.clampReplicas (scaledSource (some 5)).vertex = 5 := by
  decide

end

section

variable {pl : PipelineObject τ κ} {v : VertexObject τ κ} {name : String} {env : StepEnv}
  {stored : PipelinePhase}

omit [DecidableEq κ]

variable {filter : VertexObject τ κ → Bool} {removeReplicas : Bool}

theorem lookup_patchVertices {phase : VertexPhase} {outcome : PatchOutcome}
    (hv : lookup (pl.patchVertices filter phase removeReplicas outcome).vertices name = some v) :
    ∃ u, lookup pl.vertices name = some u ∧ (v = u ∨ filter u = true ∧ v.desiredPhase = phase) := by
  rw [patchVertices, lookup_map (fun w => by split <;> rfl)] at hv
  obtain ⟨u, hu, heq⟩ := map_eq_some_iff.mp hv
  refine ⟨u, hu, ?_⟩
  split at heq
  case isTrue hpatched =>
    simp only [Bool.and_eq_true] at hpatched
    exact .inr ⟨hpatched.1.1, heq ▸ rfl⟩
  case isFalse => exact .inl heq.symm

section

variable (pl : PipelineObject τ κ) (env : StepEnv)

theorem startPause_vertices (stored : PipelinePhase) : (pl.startPause env stored).vertices =
      (pl.patchVertices VertexObject.isASource .paused false env.vertexPatch).vertices := by
  unfold startPause
  split
  · rfl
  · rfl

theorem resumeVertices_vertices :
    (pl.resumeVertices env).vertices = (pl.patchVertices (fun _ => true) .running
      pl.spec.slowResume env.vertexPatch).vertices := by
  unfold resumeVertices
  split
  · rfl
  · rfl

theorem finishPause_vertices : (pl.finishPause env).vertices =
      (pl.patchVertices (fun _ => true) .paused false env.vertexPatch).vertices := by
  unfold finishPause
  split
  · rfl
  · rfl

end

/-- A vertex that is paused in a step is a source, or the drain is over. -/
theorem lookup_pausePipeline (hv : lookup (pl.pausePipeline env stored).vertices name = some v) :
    ∃ u, lookup pl.vertices name = some u ∧
      (v = u ∨ u.isASource = true ∨ drainCompleted env = true ∨
        ∃ t, pl.pauseTimestamp = some t ∧ pl.graceElapsed env t = true) := by
  unfold pausePipeline at hv
  cases htime : pl.pauseTimestamp with
  | none =>
    simp only [htime, startPause_vertices] at hv
    obtain ⟨u, hu, hpatched⟩ := lookup_patchVertices hv
    exact ⟨u, hu, hpatched.imp_right fun h => .inl h.1⟩
  | some t =>
    simp only [htime] at hv
    split at hv
    case isTrue hover =>
      rw [finishPause_vertices] at hv
      obtain ⟨u, hu, _⟩ := lookup_patchVertices hv
      refine ⟨u, hu, ?_⟩
      rcases Bool.or_eq_true_iff.mp hover with hgrace | hdrained
      · exact .inr (.inr (.inr ⟨t, rfl, hgrace⟩))
      · exact .inr (.inr (.inl hdrained))
    case isFalse => exact ⟨v, hv, .inl rfl⟩

/-- A vertex that is patched to resume runs. -/
theorem lookup_resumePipeline (hv : lookup (pl.resumePipeline env stored).vertices name = some v) :
    ∃ u, lookup pl.vertices name = some u ∧ (v = u ∨ v.desiredPhase = .running) := by
  have hresume : ∀ pl' : PipelineObject τ κ, pl'.vertices = pl.vertices →
      lookup (pl'.resumeVertices env).vertices name = some v →
      ∃ u, lookup pl.vertices name = some u ∧ (v = u ∨ v.desiredPhase = .running) := by
    intro pl' hsame hlookup
    rw [resumeVertices_vertices] at hlookup
    obtain ⟨u, hu, hpatched⟩ := lookup_patchVertices hlookup
    exact ⟨u, hsame ▸ hu, hpatched.imp_right And.right⟩
  unfold resumePipeline at hv
  split at hv
  · exact hresume pl rfl hv
  · split at hv
    · exact hresume (pl.afterPatch env stored none) rfl hv
    · exact ⟨v, hv, .inl rfl⟩

end

end PipelineObject

/-! ## A small pipeline -/

/-- A pipeline of a source and a sink with two partitions. -/
def sourceAndSink (ordered : Bool) (sinkSettings : Nat) (phase : PipelinePhase) :
    LifecycleSpec Nat where
  desiredPhase := phase
  vertices := [⟨⟨"in", true, false, none, none, none, none⟩, false, false, 0⟩,
    ⟨⟨"out", false, true, none, some 2, none, none⟩, ordered, false, sinkSettings⟩]

/-- The names and desired phases of the vertices. -/
def phases (pl : PipelineObject Nat (VertexTemplate Nat)) : List (String × VertexPhase) :=
  pl.vertices.map fun v => (v.name, v.desiredPhase)

/-! ## A pause drains first

The update of vertices whose hash differs writes the desired phase as well, without waiting
for the drain. -/

namespace PipelineObject

variable {τ κ : Type} [DecidableEq κ] (mustHash : VertexTemplate τ → κ)

/-- In this step a vertex that is not a source is only paused when no source pod is left and
the buffers are drained, or when the grace period since the annotation has elapsed. -/
def DrainsFirst (pl : PipelineObject τ κ) : LifecycleAction τ → Prop
  | .reconcile env =>
    ∀ name v v', lookup pl.vertices name = some v →
      lookup (pl.reconcile mustHash env).vertices name = some v' →
      v.isASource = false → v.desiredPhase = .running → v'.desiredPhase = .paused →
        drainCompleted env = true ∨
          ∃ t, pl.pauseTimestamp = some t ∧ t + pl.pauseGracePeriod < env.now
  | _ => True

/-- While the desired phase is paused, every existing vertex carries the hash of the vertex
built for it, and the grace period is below 2 ^ 63 nanoseconds. -/
def PauseOnly (pl : PipelineObject τ κ) : LifecycleAction τ → Prop
  | .reconcile _ =>
    pl.getDesiredPhase = .paused →
      (∀ v ∈ pl.vertices, ∀ new ∈ pl.buildVertices mustHash, new.name = v.name →
        v.hash = new.hash) ∧ pl.pauseGracePeriod < 2 ^ 63
  | _ => True

instance (pl : PipelineObject τ κ) (action : LifecycleAction τ) :
    Decidable (pl.PauseOnly mustHash action) := by
  unfold PauseOnly
  split <;> infer_instance

section

variable {pl : PipelineObject τ κ} {u v v' : VertexObject τ κ} {name : String} {env : StepEnv}
  {stored : PipelinePhase}

omit [DecidableEq κ] in
/-- After the resources are reconciled, a vertex changes because it is resumed, because it is
a source that is paused, or because the drain is over. -/
theorem lookup_reconcileLifecycle
    (hv : lookup (pl.reconcileLifecycle env stored).vertices name = some v) :
    ∃ u, lookup pl.vertices name = some u ∧ (v = u ∨ v.desiredPhase = .running ∨
      pl.getDesiredPhase = .paused ∧ (u.isASource = true ∨ drainCompleted env = true ∨
        ∃ t, pl.pauseTimestamp = some t ∧ pl.graceElapsed env t = true)) := by
  obtain ⟨phase, hphase⟩ : ∃ phase, pl.followDesiredPhase = { pl with phase := phase } := by
    unfold followDesiredPhase
    split
    · exact ⟨pl.phase, rfl⟩
    · exact ⟨pl.getDesiredPhase, rfl⟩
  unfold reconcileLifecycle at hv
  rw [hphase] at hv
  dsimp only at hv
  split at hv
  · unfold updateDesiredState at hv
    split at hv
    case h_1 hpaused =>
      obtain ⟨u, hu, hpause⟩ := lookup_pausePipeline hv
      exact ⟨u, hu, hpause.imp_right fun h => .inr ⟨hpaused, h⟩⟩
    case h_2 =>
      obtain ⟨u, hu, hresume⟩ := lookup_resumePipeline hv
      exact ⟨u, hu, hresume.imp_right .inl⟩
  · exact ⟨v, hv, .inl rfl⟩

omit [DecidableEq κ] in
/-- Below 2 ^ 63 the wrapped product is not smaller, so the deadline is not earlier. -/
theorem pauseGracePeriod_le_bmod (hfits : pl.pauseGracePeriod < 2 ^ 63) :
    pl.pauseGracePeriod ≤ pl.pauseGracePeriod.bmod (2 ^ 64) := by
  have hle := Int.le_bmod (x := pl.pauseGracePeriod) (m := 2 ^ 64) (by decide)
  rcases lt_or_ge pl.pauseGracePeriod (-2 ^ 63) with hlow | hlow
  · omega
  · rw [Int.bmod_eq_of_le (by omega) (by omega)]

variable {outcome : FixedOutcome}

/-- When only the phase changes, a vertex is only updated while the desired phase is running. -/
theorem updateVertex_of_pauseOnly (hmem : v ∈ pl.vertices)
    (hhash : pl.PauseOnly mustHash (.reconcile env)) :
    pl.updateVertex mustHash outcome v = v ∨ pl.getDesiredPhase ≠ .paused ∧
      (pl.updateVertex mustHash outcome v).desiredPhase = .running := by
  rcases updateVertex_spec mustHash pl outcome v with heq | ⟨new, hfound, heq⟩
  · exact .inl heq
  · obtain ⟨hnew, hname, hdiff⟩ := findUpdate_spec mustHash hfound
    have hrunning : pl.getDesiredPhase ≠ .paused :=
      fun hpaused => hdiff ((hhash hpaused).1 v hmem new hnew hname)
    refine .inr ⟨hrunning, ?_⟩
    rw [heq, VertexObject.update_desiredPhase, desiredPhase_of_mem_buildVertices mustHash hnew]
    exact vertexDesiredPhase_of_running hrunning

/-- A step that reconciles the resources: an update leaves the vertex running, and a vertex that
was not updated is paused by the lifecycle. -/
theorem drainsFirst_of_fixed (hhash : pl.PauseOnly mustHash (.reconcile env))
    (hv : lookup pl.vertices name = some v) (hsource : v.isASource = false)
    (hrunning : v.desiredPhase = .running) (hpaused : v'.desiredPhase = .paused)
    (hv' : lookup (if env.fixed.succeeded then
        (pl.reconcileFixedResources mustHash env.fixed).reconcileLifecycle env pl.phase
      else { pl.reconcileFixedResources mustHash env.fixed with phase := .failed }).vertices
        name = some v') :
    drainCompleted env = true ∨
      ∃ t, pl.pauseTimestamp = some t ∧ t + pl.pauseGracePeriod < env.now := by
  have hfixed : ∀ u, lookup (pl.reconcileFixedResources mustHash env.fixed).vertices name =
      some u → u = v ∨ pl.getDesiredPhase ≠ .paused ∧ u.desiredPhase = .running := by
    intro u hu
    rw [lookup_reconcileFixedResources mustHash hv hu]
    exact updateVertex_of_pauseOnly mustHash (List.mem_of_find?_eq_some hv) hhash
  have hfixedRunning : ∀ u, lookup (pl.reconcileFixedResources mustHash env.fixed).vertices name =
      some u → u.desiredPhase = .running := by
    intro u hu
    rcases hfixed u hu with rfl | ⟨_, h⟩
    · exact hrunning
    · exact h
  split at hv'
  · obtain ⟨u, hu, hchange⟩ := lookup_reconcileLifecycle hv'
    rcases hchange with rfl | hresumed | ⟨hdesired, hpause⟩
    · rw [hfixedRunning v' hu] at hpaused
      cases hpaused
    · rw [hresumed] at hpaused
      cases hpaused
    · rcases hfixed u hu with rfl | ⟨hne, _⟩
      · rcases hpause with hsrc | hover
        · rw [hsource] at hsrc
          cases hsrc
        · refine hover.imp_right ?_
          rintro ⟨t, htime, helapsed⟩
          have hwrapped : t + pl.pauseGracePeriod.bmod (2 ^ 64) < env.now :=
            of_decide_eq_true helapsed
          have hle := pauseGracePeriod_le_bmod (hhash hdesired).2
          exact ⟨t, htime, by omega⟩
      · exact absurd hdesired hne
  · rw [hfixedRunning v' hv'] at hpaused
    cases hpaused

theorem drainsFirst_of_pauseOnly (action : LifecycleAction τ)
    (hhash : pl.PauseOnly mustHash action) : pl.DrainsFirst mustHash action := by
  cases action with
  | setSpec | requestDeletion => trivial
  | reconcile =>
    intro name v v' hv hv' hsource hrunning hpaused
    have hne : v' ≠ v := by
      rintro rfl
      rw [hrunning] at hpaused
      cases hpaused
    have hstay : lookup pl.vertices name ≠ some v' :=
      fun h => hne (some.inj (h.symm.trans hv))
    unfold reconcile at hv'
    split at hv'
    · -- the pipeline is being deleted
      unfold reconcileDeletion at hv'
      split at hv'
      · obtain ⟨u, hu, heq | ⟨hfilter, _⟩⟩ := lookup_patchVertices hv'
        · exact absurd (heq ▸ hu) hstay
        · have huv := some.inj (hu.symm.trans hv)
          rw [huv, hsource] at hfilter
          cases hfilter
      · exact absurd hv' hstay
    · split at hv'
      · exact absurd hv' hstay
      · exact drainsFirst_of_fixed mustHash hhash hv hsource hrunning hpaused hv'

end

end PipelineObject

open PipelineObject

/-- A pause drains before it stops processing: in every run in which no existing vertex needs an
update while the desired phase is paused, and the grace period does not overflow, a vertex
that is not a source is only paused in a step in which the buffers were drained without a
source pod, or the grace period had elapsed. -/
theorem pause_drains_first {τ κ : Type} [DecidableEq κ] (mustHash : VertexTemplate τ → κ)
    (pl : PipelineObject τ κ) (actions : List (LifecycleAction τ))
    (hrun : Along (PauseOnly mustHash) (step mustHash) pl actions) :
    Along (DrainsFirst mustHash) (step mustHash) pl actions :=
  hrun.imp fun _ action hhash => drainsFirst_of_pauseOnly mustHash action hhash

/-- The vertices are created, the sources are paused, and the buffers are found drained. -/
def drainedPause : List (LifecycleAction Nat) :=
  [.reconcile {}, .setSpec (sourceAndSink false 0 .paused), .reconcile {},
    .reconcile { sourcePodsTerminated := true, isDrained := true }]

theorem pause_drains_first_drained :
    Along (DrainsFirst id) (step id) (new (sourceAndSink false 0 .running)) drainedPause ∧
      phases (exec (step id) (new (sourceAndSink false 0 .running)) drainedPause) =
        [("in", .paused), ("out", .paused)] :=
  ⟨pause_drains_first id _ drainedPause (by decide +kernel), by decide +kernel⟩

/-- A running pipeline whose desired phase becomes paused, with new settings for the sink. -/
def pauseRequested (ordered : Bool) (sinkSettings : Nat) :
    PipelineObject Nat (VertexTemplate Nat) :=
  exec (step id) (new (sourceAndSink ordered 0 .running))
    [.reconcile {}, .setSpec (sourceAndSink ordered sinkSettings .paused)]

/-- The sink is paused in the first step after the change, without an annotation and without a
drain: when its settings change together with the desired phase, and when it is ordered. -/
theorem pause_without_drain : drainCompleted {} = false ∧
      (pauseRequested false 1).pauseTimestamp = none ∧
      phases (pauseRequested false 1) = [("in", .running), ("out", .running)] ∧
      phases ((pauseRequested false 1).reconcile id {}) = [("in", .paused), ("out", .paused)] ∧
      (pauseRequested true 0).pauseTimestamp = none ∧
      phases (pauseRequested true 0) = [("in", .running), ("out", .running)] ∧
      phases ((pauseRequested true 0).reconcile id {}) = [("in", .paused), ("out", .paused)] := by
  decide +kernel

end Numaflow.Controller
