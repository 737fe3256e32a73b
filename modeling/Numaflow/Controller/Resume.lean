import Numaflow.Controller.Lifecycle

/-!
# Running means resumed

To resume, the controller removes the annotation, patches the vertices and sets the phase.
After a failure it finds out from the phase and the annotation that it has to go on.  Other
failures overwrite the phase, so the trace of an unfinished resume or pause can get lost.

Main results: `Consistent.step`, `running_means_resumed`.
-/

namespace Numaflow.Controller

open Lib

namespace PipelineObject

variable {τ κ : Type}

section

variable (pl : PipelineObject τ κ)

/-- All existing vertices are to run. -/
def AllRunning : Prop :=
  ∀ v ∈ pl.vertices, v.desiredPhase = .running
deriving Decidable

/-- The phase shows an unfinished pause or a paused pipeline. -/
def IsPausing : Prop :=
  pl.phase = .pausing ∨ pl.phase = .paused
deriving Decidable

/-- The phase or the annotation shows that some vertices may not run. -/
def Traced : Prop :=
  pl.IsPausing ∨ pl.pauseTimestamp.isSome = true
deriving Decidable

end

/-- A running pipeline has been resumed, and a pipeline with a paused vertex is traced. -/
structure Consistent (pl : PipelineObject τ κ) : Prop where
  running : pl.phase = .running → pl.AllRunning ∧ pl.pauseTimestamp = none
  traced : pl.deleting = true ∨ pl.Traced ∨ pl.AllRunning

variable [DecidableEq κ] (mustHash : VertexTemplate τ → κ)

section

variable (pl : PipelineObject τ κ)

/-- The step creates or updates a vertex when it reconciles the resources. -/
def writesVertices (outcome : FixedOutcome) : Bool :=
  !(pl.createdVertices mustHash outcome).isEmpty ||
    pl.vertices.any fun v => (pl.findUpdate mustHash outcome v).isSome

/-- Without the annotation, the validation and the reconciliation of the resources only fail
while all vertices are to run, and not after a vertex was written as paused. -/
def FailureTraced (env : StepEnv) : Prop :=
  (env.valid = false ∨ env.fixed ≠ .ok) → pl.pauseTimestamp = none →
    pl.AllRunning ∧ (env.valid = false ∨ pl.getDesiredPhase ≠ .paused ∨
      pl.writesVertices mustHash env.fixed = false)
deriving Decidable

/-- The status of the children does not fail to be read after a vertex was written as paused
in a pipeline that is not traced. -/
def ChildrenTraced (env : StepEnv) : Prop :=
  env.childrenOk = false → pl.Traced ∨ pl.getDesiredPhase ≠ .paused ∨
    pl.writesVertices mustHash env.fixed = false
deriving Decidable

/-- A resume that removes the annotation only fails to patch the vertices while the phase
shows the pause. -/
def ResumeTraced (env : StepEnv) : Prop :=
  env.vertexPatch ≠ .ok → pl.getDesiredPhase ≠ .paused → pl.pauseTimestamp.isSome = true →
    env.pipelinePatch = .ok → pl.IsPausing
deriving Decidable

/-- The answer to the patch that sets the annotation does not bring back the phase running. -/
def PauseTraced (env : StepEnv) : Prop :=
  env.restoresPhase = true → pl.getDesiredPhase = .paused → pl.pauseTimestamp = none →
    pl.phase ≠ .running
deriving Decidable

/-- No failure loses the trace of a pause or of a resume. -/
structure KeepsTrace (pl : PipelineObject τ κ) (env : StepEnv) : Prop where
  failure : pl.FailureTraced mustHash env
  children : pl.ChildrenTraced mustHash env
  resume : pl.ResumeTraced env
  pause : pl.PauseTraced env

instance (pl : PipelineObject τ κ) (env : StepEnv) : Decidable (pl.KeepsTrace mustHash env) :=
  decidable_of_iff (pl.FailureTraced mustHash env ∧ pl.ChildrenTraced mustHash env ∧
      pl.ResumeTraced env ∧ pl.PauseTraced env)
    ⟨fun ⟨hf, hc, hr, hp⟩ => ⟨hf, hc, hr, hp⟩, fun h => ⟨h.1, h.2, h.3, h.4⟩⟩

/-- The condition on the steps of a run. -/
def Orderly : LifecycleAction τ → Prop
  | .reconcile env => pl.KeepsTrace mustHash env
  | _ => True

end

instance (pl : PipelineObject τ κ) (action : LifecycleAction τ) :
    Decidable (pl.Orderly mustHash action) :=
  match action with
  | .reconcile env => inferInstanceAs (Decidable (pl.KeepsTrace mustHash env))
  | .setSpec _ | .requestDeletion => isTrue trivial

section

variable {pl : PipelineObject τ κ} {env : StepEnv} {outcome : FixedOutcome}

theorem writesVertices_eq_false : pl.writesVertices mustHash outcome = false ↔
      pl.createdVertices mustHash outcome = [] ∧
        ∀ v ∈ pl.vertices, pl.findUpdate mustHash outcome v = none := by
  simp [writesVertices]

/-- Reconciling the resources keeps all vertices running when it writes none as paused. -/
theorem AllRunning.reconcileFixedResources (h : pl.AllRunning)
    (hwrites : pl.vertexDesiredPhase = .running ∨ pl.writesVertices mustHash outcome = false) :
    (pl.reconcileFixedResources mustHash outcome).AllRunning := by
  have hbuilt : ∀ new ∈ pl.buildVertices mustHash, pl.vertexDesiredPhase = .running →
      new.desiredPhase = .running :=
    fun new hnew hphase => (desiredPhase_of_mem_buildVertices mustHash hnew).trans hphase
  intro w hw
  rcases List.mem_append.mp hw with hold | hcreated
  · obtain ⟨v, hv, rfl⟩ := List.mem_map.mp (List.mem_filter.mp hold).1
    rcases updateVertex_spec mustHash pl outcome v with heq | ⟨new, hfound, heq⟩
    · rw [heq]
      exact h v hv
    · rcases hwrites with hphase | hnone
      · rw [heq]
        exact hbuilt new (findUpdate_spec mustHash hfound).1 hphase
      · rw [((writesVertices_eq_false mustHash).mp hnone).2 v hv] at hfound
        cases hfound
  · rcases hwrites with hphase | hnone
    · exact hbuilt w (List.mem_filter.mp hcreated).1 hphase
    · rw [((writesVertices_eq_false mustHash).mp hnone).1] at hcreated
      cases hcreated

section

omit [DecidableEq κ]

variable {removeReplicas : Bool}

theorem allRunning_patchVertices :
    (pl.patchVertices (fun _ => true) .running removeReplicas .ok).AllRunning := by
  intro w hw
  obtain ⟨v, _, rfl⟩ := List.mem_map.mp hw
  split
  case isTrue => rfl
  case isFalse hnot => simpa [PatchOutcome.patches] using hnot

theorem not_traced (hpausing : pl.phase ≠ .pausing) (hpaused : pl.phase ≠ .paused)
    (htime : pl.pauseTimestamp = none) : ¬pl.Traced := by
  rintro ((hphase | hphase) | hsome)
  · exact hpausing hphase
  · exact hpaused hphase
  · rw [htime] at hsome
    cases hsome

theorem Consistent.traced_or (h : pl.Consistent) (hdeleting : pl.deleting = false) :
    pl.Traced ∨ pl.AllRunning :=
  h.traced.resolve_left fun hdel => absurd (hdeleting.symm.trans hdel) (by decide)

theorem consistent_of_isPausing (h : pl.IsPausing) : pl.Consistent where
  running := by
    intro hrunning
    rcases h with hphase | hphase
    · rw [hrunning] at hphase
      cases hphase
    · rw [hrunning] at hphase
      cases hphase
  traced := .inr (.inl (.inl h))

/-- A failure that sets the phase needs the annotation or running vertices. -/
theorem consistent_failed (h : pl.pauseTimestamp = none → pl.AllRunning) :
    Consistent { pl with phase := .failed } where
  running := nofun
  traced := by
    cases htime : pl.pauseTimestamp with
    | none => exact .inr (.inr (h htime))
    | some => exact .inr (.inl (.inr rfl))

theorem Consistent.reconcileDeletion (h : pl.Consistent) (hdeleting : pl.deleting = true) :
    (pl.reconcileDeletion env).Consistent := by
  unfold PipelineObject.reconcileDeletion
  split
  · exact ⟨nofun, .inl hdeleting⟩
  · exact h

/-- Pausing keeps the state consistent. -/
theorem consistent_pausePipeline
    (hpause : env.restoresPhase = true → pl.pauseTimestamp = none → pl.phase ≠ .running) :
    (pl.pausePipeline env pl.phase).Consistent := by
  unfold pausePipeline
  cases htime : pl.pauseTimestamp with
  | none =>
    unfold startPause
    split
    · refine ⟨?_, .inr (.inl (.inr rfl))⟩
      intro hrunning
      change (if _ then _ else _) = _ at hrunning
      split at hrunning
      case isTrue hrestores => exact absurd hrunning (hpause hrestores htime)
      case isFalse => cases hrunning
    · exact consistent_of_isPausing (.inl rfl)
  | some =>
    dsimp only
    split
    · unfold finishPause
      split
      · exact consistent_of_isPausing (.inr rfl)
      · exact consistent_of_isPausing (.inl rfl)
    · exact consistent_of_isPausing (.inl rfl)

/-- Resuming the vertices without the annotation succeeds, or the phase still shows the pause. -/
theorem consistent_resumeVertices (htime : pl.pauseTimestamp = none)
    (hfail : env.vertexPatch ≠ .ok → pl.IsPausing) : (pl.resumeVertices env).Consistent := by
  unfold resumeVertices
  split
  case isTrue hok =>
    have hpatch : env.vertexPatch = .ok := by simpa [PatchOutcome.succeeded] using hok
    rw [hpatch]
    exact ⟨fun _ => ⟨allRunning_patchVertices, htime⟩, .inr (.inr allRunning_patchVertices)⟩
  case isFalse hnot =>
    have hpatch : env.vertexPatch ≠ .ok := by simpa [PatchOutcome.succeeded] using hnot
    exact consistent_of_isPausing (hfail hpatch)

/-- Resuming keeps the state consistent. -/
theorem consistent_resumePipeline (htraced : pl.Traced)
    (hrunning : pl.phase = .running → pl.pauseTimestamp = none)
    (hresume : env.vertexPatch ≠ .ok → pl.pauseTimestamp.isSome = true →
      env.pipelinePatch = .ok → pl.IsPausing) :
    (pl.resumePipeline env pl.phase).Consistent := by
  unfold resumePipeline
  split
  case h_1 htime =>
    apply consistent_resumeVertices htime
    intro _
    rcases htraced with hpausing | hsome
    · exact hpausing
    · rw [htime] at hsome
      cases hsome
  case h_2 t htime =>
    have hsome : pl.pauseTimestamp.isSome = true := by
      rw [htime]
      rfl
    split
    case isTrue hok =>
      have hphase : (pl.afterPatch env pl.phase none).phase = pl.phase := ite_self _
      apply consistent_resumeVertices rfl
      intro hfail
      unfold IsPausing
      rw [hphase]
      exact hresume hfail hsome hok
    case isFalse =>
      refine ⟨fun hphase => ?_, .inr (.inl htraced)⟩
      rw [hrunning hphase] at hsome
      cases hsome

theorem not_isLifecycleChange (h : pl.isLifecycleChange = false) :
    pl.getDesiredPhase ≠ .paused ∧ ¬pl.Traced ∧ pl.pauseTimestamp = none := by
  simp only [isLifecycleChange, Bool.or_eq_false_iff, decide_eq_false_iff_not,
    Option.isSome_eq_false_iff, Option.isNone_iff_eq_none] at h
  obtain ⟨⟨⟨hdesired, hpaused⟩, hpausing⟩, htime⟩ := h
  exact ⟨hdesired, not_traced hpausing hpaused htime, htime⟩

/-- What the reconciliation of the resources leaves for the rest of the step: when the
lifecycle does not change, all vertices are to run, and otherwise the rest may fail. -/
structure Reconciled (pl : PipelineObject τ κ) (env : StepEnv) : Prop where
  running : pl.phase = .running → pl.pauseTimestamp = none
  unchanged : pl.isLifecycleChange = false → pl.AllRunning
  children : env.childrenOk = false → pl.Consistent
  resume : pl.ResumeTraced env
  pause : pl.PauseTraced env

theorem Reconciled.updateDesiredState (h : pl.Reconciled env)
    (hchange : pl.isLifecycleChange = true) :
    (pl.updateDesiredState env pl.phase).Consistent := by
  unfold PipelineObject.updateDesiredState
  split
  case h_1 hpaused => exact consistent_pausePipeline fun hr ht => h.pause hr hpaused ht
  case h_2 hrunning =>
    have htraced : pl.Traced := by
      simp only [isLifecycleChange, Bool.or_eq_true, decide_eq_true_eq] at hchange
      rcases hchange with ((hdesired | hphase) | hphase) | htime
      · exact absurd hdesired hrunning
      · exact .inl (.inr hphase)
      · exact .inl (.inl hphase)
      · exact .inr htime
    exact consistent_resumePipeline htraced h.running
      fun hfail hsome hok => h.resume hfail hrunning hsome hok

theorem getDesiredPhase_cases (pl : PipelineObject τ κ) :
    pl.getDesiredPhase = .paused ∨ pl.getDesiredPhase = .running := by
  unfold getDesiredPhase
  split
  · exact .inl rfl
  · exact .inr rfl

/-- A lifecycle change for which nothing is left to do: the pipeline is paused as desired. -/
theorem isPausing_of_settled (hchange : pl.isLifecycleChange = true)
    (hphase : pl.phase = pl.getDesiredPhase) (hstranded : pl.isStrandedPause = false) :
    pl.IsPausing := by
  rcases getDesiredPhase_cases pl with hdesired | hdesired
  · exact .inr (hphase.trans hdesired)
  · have htime : pl.pauseTimestamp.isSome = false := by
      simpa [isStrandedPause, hdesired] using hstranded
    simp [isLifecycleChange, hdesired, hphase, htime] at hchange

variable {stored : PipelinePhase}

/-- Without a lifecycle change the step sets the phase and is done. -/
theorem reconcileLifecycle_of_unchanged (h : pl.isLifecycleChange = false) :
    pl.reconcileLifecycle env stored = { pl with phase := .running } := by
  obtain ⟨hdesired, _, htime⟩ := not_isLifecycleChange h
  have hrunning := (getDesiredPhase_cases pl).resolve_left hdesired
  have hfollow : pl.followDesiredPhase = { pl with phase := .running } := by
    simp [followDesiredPhase, h, hrunning]
  have hstill : isLifecycleChange { pl with phase := .running } = false := by
    change (decide (pl.getDesiredPhase = .paused) || false || false ||
      pl.pauseTimestamp.isSome) = false
    rw [hrunning, htime]
    rfl
  unfold reconcileLifecycle
  rw [hfollow]
  simp [hstill]

theorem Reconciled.reconcileLifecycle (h : pl.Reconciled env) :
    (pl.reconcileLifecycle env pl.phase).Consistent := by
  cases hchange : pl.isLifecycleChange with
  | false =>
    rw [reconcileLifecycle_of_unchanged hchange]
    obtain ⟨_, _, htime⟩ := not_isLifecycleChange hchange
    have hall := h.unchanged hchange
    exact ⟨fun _ => ⟨hall, htime⟩, .inr (.inr hall)⟩
  | true =>
    unfold PipelineObject.reconcileLifecycle followDesiredPhase
    simp only [hchange, if_true, Bool.and_true]
    split
    case isTrue => exact h.updateDesiredState hchange
    case isFalse hskip =>
      by_cases hchildren : env.childrenOk = true
      · simp only [hchildren, Bool.true_and, Bool.or_eq_true, decide_eq_true_eq, not_or,
          not_not] at hskip
        exact consistent_of_isPausing
          (isPausing_of_settled hchange hskip.1 (by simpa using hskip.2))
      · exact h.children (by simpa using hchildren)

end

/-- All vertices stay running when the resources are reconciled for a running pipeline, or
without a write. -/
theorem allRunning_reconcileFixedResources (h : pl.AllRunning)
    (hwrites : pl.getDesiredPhase ≠ .paused ∨ pl.writesVertices mustHash outcome = false) :
    (pl.reconcileFixedResources mustHash outcome).AllRunning :=
  h.reconcileFixedResources mustHash (hwrites.imp_left vertexDesiredPhase_of_running)

/-- The reconciliation of the resources in a step that keeps the trace. -/
theorem Consistent.reconciled (h : pl.Consistent) (hkeeps : pl.KeepsTrace mustHash env)
    (hdeleting : pl.deleting = false) :
    (pl.reconcileFixedResources mustHash env.fixed).Reconciled env where
  running := fun hphase => (h.running hphase).2
  unchanged := by
    intro hchange
    have hsame := hchange
    obtain ⟨hdesired, htraced, _⟩ := not_isLifecycleChange hsame
    have hall := (h.traced_or hdeleting).resolve_left htraced
    exact allRunning_reconcileFixedResources mustHash hall (.inl hdesired)
  children := by
    intro hfail
    have hstay : pl.Traced ∨ (pl.reconcileFixedResources mustHash env.fixed).AllRunning := by
      rcases hkeeps.children hfail with htrace | hwrites
      · exact .inl htrace
      · exact (h.traced_or hdeleting).imp_right fun hall =>
          allRunning_reconcileFixedResources mustHash hall hwrites
    refine ⟨?_, .inr hstay⟩
    intro hphase
    have hrunning : pl.phase = .running := hphase
    obtain ⟨_, htime⟩ := h.running hrunning
    exact ⟨hstay.resolve_left (not_traced (by simp [hrunning]) (by simp [hrunning]) htime), htime⟩
  resume := hkeeps.resume
  pause := hkeeps.pause

theorem Consistent.reconcile (h : pl.Consistent) (hkeeps : pl.KeepsTrace mustHash env) :
    (pl.reconcile mustHash env).Consistent := by
  unfold PipelineObject.reconcile
  split
  case isTrue hdeleting => exact h.reconcileDeletion hdeleting
  case isFalse hdeleting =>
    have hfalse : pl.deleting = false := by simpa using hdeleting
    split
    case isTrue hvalid =>
      exact consistent_failed fun htime =>
        (hkeeps.failure (.inl (by simpa using hvalid)) htime).1
    case isFalse hvalid =>
      split
      case isTrue => exact (h.reconciled mustHash hkeeps hfalse).reconcileLifecycle
      case isFalse hfailed =>
        have hne : env.fixed ≠ .ok := by simpa [FixedOutcome.succeeded] using hfailed
        apply consistent_failed
        intro htime
        obtain ⟨hall, hwrites⟩ := hkeeps.failure (.inr hne) htime
        have htrue : env.valid = true := by simpa using hvalid
        apply allRunning_reconcileFixedResources mustHash hall
        rw [htrue] at hwrites
        exact hwrites.resolve_left nofun

variable {action : LifecycleAction τ}

/-- A step that loses no trace keeps the vertices, the phase and the annotation consistent. -/
theorem Consistent.step (h : pl.Consistent) (hok : pl.Orderly mustHash action) :
    (pl.step mustHash action).Consistent := by
  cases action with
  | setSpec => exact ⟨h.running, h.traced⟩
  | requestDeletion => exact ⟨h.running, .inl rfl⟩
  | reconcile => exact h.reconcile mustHash hok

omit [DecidableEq κ] in
theorem consistent_new (spec : LifecycleSpec τ) : Consistent (κ := κ) (new spec) where
  running := nofun
  traced := .inr (.inr (List.forall_mem_nil _))

end

end PipelineObject

open PipelineObject

/-- Running means resumed: in every run from a new pipeline in which no failure loses the trace
of a pause or of a resume, a pipeline with the phase running has only vertices that are to run,
and no annotation of a pause. -/
theorem running_means_resumed {τ κ : Type} [DecidableEq κ] (mustHash : VertexTemplate τ → κ)
    (spec : LifecycleSpec τ) (actions : List (LifecycleAction τ))
    (hrun : Along (Orderly mustHash) (step mustHash) (new spec) actions)
    (hphase : (exec (step mustHash) (new spec) actions).phase = .running) :
    (exec (step mustHash) (new spec) actions).AllRunning ∧
      (exec (step mustHash) (new spec) actions).pauseTimestamp = none :=
  (exec_invariant (I := Consistent) (fun _ _ h hok => h.step mustHash hok)
    (consistent_new spec) hrun).running hphase

/-- A pipeline is paused, and resumed in two steps because a patch fails in the first. -/
def resumedInTwoSteps : List (LifecycleAction Nat) :=
  [.reconcile {}, .setSpec (sourceAndSink false 0 .paused), .reconcile {},
    .reconcile { sourcePodsTerminated := true, isDrained := true },
    .setSpec (sourceAndSink false 0 .running), .reconcile { vertexPatch := .failed ["in"] },
    .reconcile {}]

theorem running_means_resumed_in_two_steps :
    phases (exec (step id) (new (sourceAndSink false 0 .running)) resumedInTwoSteps) =
        [("in", .running), ("out", .running)] ∧
      (exec (step id) (new (sourceAndSink false 0 .running)) resumedInTwoSteps).AllRunning :=
  ⟨by decide +kernel, (running_means_resumed id _ resumedInTwoSteps
    (by decide +kernel) (by decide +kernel)).1⟩

/-- A paused pipeline whose resume loses its trace: after the annotation was removed a patch
fails, and the next step fails before it looks at the vertices. -/
def traceLost : PipelineObject Nat (VertexTemplate Nat) :=
  exec (step id) (new (sourceAndSink false 0 .running))
    [.reconcile {}, .setSpec (sourceAndSink false 0 .paused), .reconcile {},
      .reconcile { sourcePodsTerminated := true, isDrained := true },
      .setSpec (sourceAndSink false 0 .running), .reconcile { vertexPatch := .failed [] },
      .reconcile { fixed := .failedBefore }, .reconcile {}]

/-- A running pipeline after the first step of a pause, when the answer to the patch of the
annotation brings back the stored phase. -/
def phaseRestored : PipelineObject Nat (VertexTemplate Nat) :=
  exec (step id) (new (sourceAndSink false 0 .running))
    [.reconcile {}, .setSpec (sourceAndSink false 0 .paused), .reconcile { restoresPhase := true }]

theorem running_but_paused : traceLost.phase = .running ∧
      phases traceLost = [("in", .paused), ("out", .paused)] ∧
      phaseRestored.phase = .running ∧
      phaseRestored.pauseTimestamp = some 0 ∧
      phases phaseRestored = [("in", .paused), ("out", .running)] := by
  decide +kernel

end Numaflow.Controller
