import Numaflow.Controller.VertexScaler

/-!
# The autoscaler of MonoVertices, and which objects are scaled

The scaler of MonoVertices has the checks of the scaler of vertices in another order, and none
of back pressure.  Both are to scale only objects that run and are settled.  The scaler of
vertices notes that a vertex is not desired to run, and scales it nevertheless.

Main results: `patched_eligible_iff`.
-/

namespace Numaflow.Controller

open Lib ScalerEnv

/-- A MonoVertex object; `desiredPhase` is the one of its lifecycle. -/
structure MonoVertex where
  scale : Scale := {}
  replicas : Option Int32 := none
  rateLimitMax : Option Nat := none
  desiredPhase : WorkloadPhase := .running
  deleting : Bool := false
  status : WorkloadStatus
deriving DecidableEq, Repr

namespace MonoVertex

def scalable (mv : MonoVertex) : Bool :=
  !mv.scale.disabled

def getReplicas (mv : MonoVertex) : Int :=
  (mv.replicas.map Int32.toInt).getD 1

/-- The number of replicas that the controller creates. -/
def calculateReplicas (mv : MonoVertex) : Int :=
  if mv.desiredPhase.getDesiredPhase = .paused then 0
  else if mv.scale.disabled then mv.getReplicas
  else
    let minReplicas := mv.scale.getMinReplicas
    let maxReplicas :=
      if mv.scale.getMaxReplicas < minReplicas then minReplicas else mv.scale.getMaxReplicas
    if mv.getReplicas < minReplicas then minReplicas
    else if maxReplicas < mv.getReplicas then maxReplicas
    else mv.getReplicas

end MonoVertex

/-- What a call for a MonoVertex reads; `desiredReplicas` is computed from the metrics, also
when both are zero. -/
structure MonoScalerEnv where
  getMonoVertex : String → String → Except ApiError MonoVertex
  secondsSince : Int → ℚ
  now : Int
  cron : CronLibrary
  daemonClient : Bool := true
  metrics : Option PartitionMetrics
  desiredReplicas : Int32
  atRateLimit : Bool := false

namespace MonoScalerEnv

variable (env : MonoScalerEnv)

/-- The checks of the MonoVertex. -/
def checkMonoVertex (mv : MonoVertex) (since : ℚ) : Except ScaleExit Unit := do
  check mv.deleting .stoppedWatching
  check (!mv.scalable) .stoppedWatching
  check mv.status.updating .skipped
  check (since < mv.scale.getScaleDownCooldownSeconds &&
    since < mv.scale.getScaleUpCooldownSeconds) .skipped
  check (mv.status.phase != .running) .skipped
  check (mv.desiredPhase.getDesiredPhase != .running) .skipped
  check ((mv.status.replicas.toNat : Int) != mv.calculateReplicas) .skipped

/-- Move from the current number of replicas towards the one wanted. -/
def moveReplicas (mv : MonoVertex) (bounds : Bounds) (since : ℚ) : Except ScaleExit Int := do
  let current := mv.status.current
  check (mv.rateLimitMax.isSome && env.atRateLimit && current < env.desiredReplicas.toInt) .skipped
  let desired := clampDesired bounds env.desiredReplicas.toInt
  if bounds.maxReplicas < current ∨ current < bounds.minReplicas then return desired
  else if desired < current then scaleDown mv.scale since current desired
  else if current < desired then scaleUp mv.scale since current desired
  else throw .skipped

/-- Choose the number of replicas of a MonoVertex that passed the checks. -/
def chooseReplicas (key : String) (mv : MonoVertex) (since : ℚ) : Except ScaleExit Int := do
  let bounds ← (mv.scale.effectiveScaleBoundsFor env.cron env.now).elim
    (.error (.failed .cronSchedules)) .ok
  let current := mv.status.current
  if bounds.cronActive ∧ current < bounds.minReplicas then
    scaleUp mv.scale since current bounds.minReplicas
  else if bounds.cronActive ∧ bounds.maxReplicas < current then
    scaleDown mv.scale since current bounds.maxReplicas
  else
    check (bounds.maxReplicas == bounds.minReplicas) .skipped
    if mv.status.replicas = 0 then
      check (since < mv.scale.getZeroReplicaSleepSeconds) .skipped
      return 1
    else
      check (mv.status.readyReplicas == 0) .skipped
      check (!env.daemonClient) (.failed .daemonClient)
      let metrics ← env.metrics.elim (.error (.failed (.metrics key))) .ok
      let _ ← (totalMetrics [metrics]).elim (.error .skipped) .ok
      env.moveReplicas mv bounds since

/-- Scale one MonoVertex: the result is the number of replicas that is patched, or how the call
ends without a patch. -/
def scaleOneMonoVertex (key : String) : Except ScaleExit Int := do
  let names ← splitKey key
  let mv ← fetched (.queryObject key) (env.getMonoVertex names.1 names.2)
  checkMonoVertex mv (env.secondsSince mv.status.lastScaledAt)
  env.chooseReplicas key mv (env.secondsSince mv.status.lastScaledAt)

/-- The call reads the MonoVertex. -/
def Fetches (env : MonoScalerEnv) (key : String) (mv : MonoVertex) : Prop :=
  ∃ names, splitKey key = .ok names ∧ env.getMonoVertex names.1 names.2 = .ok mv

end MonoScalerEnv

/-! ## Eligible objects -/

/-- No update of the pods is in progress. -/
def WorkloadStatus.UpToDate (status : WorkloadStatus) : Prop :=
  status.updateHash = "" ∨ status.updateHash = status.currentHash

theorem WorkloadStatus.upToDate_iff {status : WorkloadStatus} :
    status.UpToDate ↔ status.updating = false := by
  rw [UpToDate, updating, Bool.and_eq_false_iff, bne_eq_false_iff_eq, bne_eq_false_iff_eq, or_comm]

/-- A vertex that may be scaled. -/
structure ScaledVertex.Eligible (vertex : ScaledVertex) (pl : ScaledPipeline) : Prop where
  scalable : vertex.scalable = true
  kept : vertex.deleting = false
  phase : vertex.status.phase = .running
  desiredPhase : vertex.desiredPhase.getDesiredPhase = .running
  upToDate : vertex.status.UpToDate
  settled : vertex.status.replicas = vertex.status.desiredReplicas
  pipelineKept : pl.deleting = false
  pipelinePhase : pl.getDesiredPhase = .running

/-- A MonoVertex that may be scaled. -/
structure MonoVertex.Eligible (mv : MonoVertex) : Prop where
  scalable : mv.scalable = true
  kept : mv.deleting = false
  phase : mv.status.phase = .running
  desiredPhase : mv.desiredPhase.getDesiredPhase = .running
  upToDate : mv.status.UpToDate
  settled : (mv.status.replicas.toNat : Int) = mv.calculateReplicas

variable {vertex : ScaledVertex} {since : ℚ} {pl : ScaledPipeline} {mv : MonoVertex}

theorem ScaledVertex.eligible_iff_of_checks (hvertex : ScalerEnv.checkVertex vertex since = .ok ())
    (hpl : ScalerEnv.checkPipeline vertex pl = .ok ()) :
    vertex.Eligible pl ↔ vertex.desiredPhase.getDesiredPhase = .running := by
  simp only [checkVertex, checkPipeline, andThen_ok, check_ok,
    bne_eq_false_iff_eq, Bool.not_eq_false'] at hvertex hpl
  rcases hvertex with ⟨hkept, hscalable, hphase, hupdating, -⟩
  rcases hpl with ⟨hplKept, hplPhase, hsettled⟩
  constructor
  · intro h
    exact h.desiredPhase
  · intro hdesired
    exact ⟨hscalable, hkept, hphase, hdesired, WorkloadStatus.upToDate_iff.mpr hupdating, hsettled,
      hplKept, hplPhase⟩

theorem MonoVertex.eligible_of_checks (h : MonoScalerEnv.checkMonoVertex mv since = .ok ()) :
    mv.Eligible := by
  simp only [MonoScalerEnv.checkMonoVertex, andThen_ok, check_ok, bne_eq_false_iff_eq,
    Bool.not_eq_false'] at h
  rcases h with ⟨hkept, hscalable, hupdating, -, hphase, hdesired, hsettled⟩
  exact ⟨hscalable, hkept, hphase, hdesired, WorkloadStatus.upToDate_iff.mpr hupdating, hsettled⟩

/-- A vertex that is patched is eligible exactly when it is desired to run; a MonoVertex that is
patched always is. -/
theorem patched_eligible_iff (key : String) (n : Int) :
    (∀ (env : ScalerEnv) (vertex : ScaledVertex) (pl : ScaledPipeline),
      env.scaleOneVertex key = .ok n → env.Fetches key vertex pl →
      (vertex.Eligible pl ↔ vertex.desiredPhase.getDesiredPhase = .running)) ∧
    (∀ (env : MonoScalerEnv) (mv : MonoVertex),
      env.scaleOneMonoVertex key = .ok n → env.Fetches key mv → mv.Eligible) := by
  constructor
  · intro env vertex pl h hfetches
    rcases patch_spec h with ⟨vertex', pl', hfetches', hvertex, hpl, -⟩
    rcases hfetches.unique hfetches' with ⟨rfl, rfl⟩
    exact ScaledVertex.eligible_iff_of_checks hvertex hpl
  · rintro env mv h ⟨names, hnames, hmv⟩
    unfold MonoScalerEnv.scaleOneMonoVertex at h
    rcases bind_ok.mp h with ⟨names', hnames', h⟩
    cases hnames.symm.trans hnames'
    rcases bind_ok.mp h with ⟨mv', hmv', h⟩
    rw [fetched_ok, hmv, Except.ok.injEq] at hmv'
    subst hmv'
    exact MonoVertex.eligible_of_checks (andThen_ok.mp h).1

/-- A MonoVertex with four replicas, of which eight are wanted. -/
def wantsMoreMono : MonoScalerEnv :=
  { getMonoVertex := fun _ _ =>
      .ok { replicas := some 4, status := ⟨.running, 4, 4, 4, "", "", 0⟩ }
    secondsSince := fun _ => 100
    now := 0
    cron := ⟨fun _ => none, fun _ => false⟩
    metrics := some ⟨some 1, some 10⟩
    desiredReplicas := 8 }

theorem patched_eligible_example : (ScalerEnv.scaledMap 90).Eligible ScalerEnv.scaledPipeline ∧
      ∃ mv, wantsMoreMono.scaleOneMonoVertex "ns/mv" = .ok 6 ∧ wantsMoreMono.Fetches "ns/mv" mv ∧
        mv.Eligible := by
  have hmono : wantsMoreMono.scaleOneMonoVertex "ns/mv" = .ok 6 := by decide +kernel
  have hfetches : wantsMoreMono.Fetches "ns/mv" _ := ⟨("ns", "mv"), by decide +kernel, rfl⟩
  constructor
  · have hpatch : (wantsMore (scaledMap 90) none).scaleOneVertex "ns/p-v" =
        .ok 6 := by decide +kernel
    exact ((patched_eligible_iff _ _).1 _ _ _ hpatch (fetches_wantsMore _ _)).mpr rfl
  · exact ⟨_, hmono, hfetches, (patched_eligible_iff _ _).2 _ _ hmono hfetches⟩

/-- A vertex that is to be paused gets more replicas. -/
theorem patched_not_eligible :
    (ScalerEnv.wantsMore { ScalerEnv.scaledMap 90 with desiredPhase := .paused } none).scaleOneVertex
        "ns/p-v" = .ok 6 ∧
      ¬ { scaledMap 90 with desiredPhase := .paused }.Eligible scaledPipeline := by
  refine ⟨by decide +kernel, ?_⟩
  intro h
  exact absurd h.desiredPhase (by decide)

end Numaflow.Controller
