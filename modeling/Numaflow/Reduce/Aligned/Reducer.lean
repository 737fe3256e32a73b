import Numaflow.Reduce.Aligned.Manager
import Numaflow.Reduce.Reducer

/-!
# The loop of the aligned reducer

The reducer reads a message, advances its watermark, closes the windows that the
watermark has passed and assigns the message.  Reading, closing and assigning are
separate steps, because reduce tasks delete closed windows in between.

Main results: `step_effect`, `Separated.effect`, `lifeCycle_exec`.
-/

namespace Numaflow.Aligned

open Lib AlignedWindowManager List

/-- State of the aligned reducer. -/
abbrev AlignedReducer := Reducer AlignedWindowManager

/-- A step of the reducer or of a reduce task that deletes its window. -/
inductive ReducerAction where
  | read (msg : Message)
  | close
  | assign
  | gc (window : Window)
  | error
deriving DecidableEq, Repr

/-- The window that a step deletes. -/
def ReducerAction.deletes : ReducerAction → Option Window
  | .gc window => some window
  | _ => none

/-- The reducer with the messages it has sent, the largest watermark it has seen,
the watermark of its last close step, and whether it has read nothing since. -/
structure ReducerRun where
  reducer : AlignedReducer
  phase : Phase
  sent : List AlignedWindowMessage
  largest : Int
  closedAt : Option Int
  swept : Bool

namespace ReducerRun

/-- Nothing has been read yet. -/
def init (windowManager : AlignedWindowManager) (allowedLateness : Nat) (keyed : Bool) :
    ReducerRun :=
  ⟨Reducer.new windowManager allowedLateness keyed, .idle, [], initialWatermark, none,
    false⟩

section

variable (s : ReducerRun)

/-- The window manager. -/
def manager : AlignedWindowManager :=
  s.reducer.windowManager

/-- The active windows. -/
def active : WindowSet :=
  s.manager.activeWindows

/-- The closed windows that are not yet deleted. -/
def closed : WindowSet :=
  s.manager.closedWindows

/-- The largest watermark seen less the allowed lateness. -/
def bound : Int :=
  s.largest - s.reducer.allowedLateness

/-- Replace the window manager. -/
def withManager (m : AlignedWindowManager) : ReducerRun :=
  { s with reducer := { s.reducer with windowManager := m } }

/-- Perform a step; a step that is not due changes nothing. -/
def step : ReducerAction → ReducerRun
  | .read msg =>
    if s.phase = .idle then
      { s with
        reducer := (s.reducer.read msg).1
        phase := (s.reducer.read msg).2
        largest :=
          if s.reducer.shuttingDownOnErr then s.largest else advanceWatermark s.largest msg
        swept := false }
    else s
  | .close =>
    match s.phase with
    | .closing msg =>
      let result := s.manager.closeWindows s.reducer.closeWatermark
      { s.withManager result.1 with
        sent := s.sent ++ result.2
        closedAt := some s.reducer.closeWatermark
        swept := true
        phase := msg.elim .idle .assigning }
    | _ => s
  | .assign =>
    match s.phase with
    | .assigning msg =>
      let result := s.manager.assignWindows msg
      { s.withManager result.1 with
        sent := s.sent ++ result.2
        phase := .idle }
    | _ => s
  | .gc window =>
    if window ∈ s.closed.toList then
      s.withManager (s.manager.gcWindow window)
    else s
  | .error =>
    if s.phase = .idle then
      { s with reducer := { s.reducer with shuttingDownOnErr := true } }
    else s

end

/-- The life cycle of aligned windows in one state of a run. -/
structure LifeCycle (s : ReducerRun) : Prop where
  disjoint : ∀ w ∈ s.active, w ∉ s.closed
  closed_le : ∀ w ∈ s.closed, w.endTime ≤ s.bound
  active_gt : s.swept = true → ∀ w ∈ s.active, s.bound < w.endTime
  oldest_least : ∀ w, s.manager.oldestWindow = some w →
    (w ∈ s.active ∨ w ∈ s.closed) ∧ ∀ v, v ∈ s.active ∨ v ∈ s.closed → w.endTime ≤ v.endTime
  oldest_none : s.manager.oldestWindow = none →
    ∀ w, w ∉ s.active ∧ w ∉ s.closed
  closed_once : s.sent.Pairwise fun x y => ∀ w, x.operation = .closeOp w →
    ∀ msg, y.operation ≠ .openOp msg w ∧ y.operation ≠ .appendOp msg w

/-! ## Steps -/

/-- What a step does to the windows, to what is sent and to the last watermark used
to close windows; it may delete at most the given window. -/
inductive Effect (gc : Option Window) (s s' : ReducerRun) : Prop where
  | quiet (hmanager : s'.manager = s.manager) (hsent : s'.sent = s.sent)
      (hclosedAt : s'.closedAt = s.closedAt)
  | closed (hmanager : s'.manager = (s.manager.closeWindows s.bound).1)
      (hsent : s'.sent = s.sent ++ (s.manager.closeWindows s.bound).2)
      (hclosedAt : s'.closedAt = some s.bound)
  | assigned (msg : Message) (hphase : s.phase = .assigning msg)
      (hmanager : s'.manager = (s.manager.assignWindows msg).1)
      (hsent : s'.sent = s.sent ++ (s.manager.assignWindows msg).2)
      (hclosedAt : s'.closedAt = s.closedAt)
  | deleted (window : Window) (hgc : gc = some window)
      (hmanager : s'.manager = s.manager.gcWindow window) (hsent : s'.sent = s.sent)
      (hclosedAt : s'.closedAt = s.closedAt)

/-- The watermarks of a run: the reducer's watermark is the largest one seen, and a
message on its way to be assigned is not older. -/
structure Clock (s : ReducerRun) : Prop where
  current : s.reducer.currentWatermark = s.largest
  floor : initialWatermark ≤ s.largest
  bounded : ∀ b ∈ s.closedAt, b ≤ s.bound
  swept : s.swept = true → s.closedAt = some s.bound
  closing : ∀ msg, s.phase = .closing (some msg) → s.largest ≤ msg.eventTime
  assigning : ∀ msg, s.phase = .assigning msg → s.largest ≤ msg.eventTime

section

variable {s s' : ReducerRun}

theorem Clock.init (m : AlignedWindowManager) (allowedLateness : Nat) (keyed : Bool) :
    (init m allowedLateness keyed).Clock :=
  ⟨rfl, le_rfl, by simp [ReducerRun.init], by simp [ReducerRun.init], by simp [ReducerRun.init],
    by simp [ReducerRun.init]⟩

variable (h : s.Clock)

include h

theorem Clock.closeWatermark : s.reducer.closeWatermark = s.bound := by
  unfold Reducer.closeWatermark bound
  rw [h.current]

/-- Whatever is closed so far ends at or before the next watermark used to close. -/
theorem Clock.le_bound {w : Window} (hw : ∃ b ∈ s.closedAt, w.endTime ≤ b) :
    w.endTime ≤ s.bound := by
  rcases hw with ⟨b, hb, hle⟩
  exact hle.trans (h.bounded b hb)

/-- What a step does to the windows and to what is sent. -/
theorem step_effect (a : ReducerAction) : Effect a.deletes s (s.step a) := by
  cases a with
  | read msg =>
    by_cases hphase : s.phase = .idle
    · rw [step, if_pos hphase]
      exact .quiet (s.reducer.read_windowManager msg).1 rfl rfl
    · rw [step, if_neg hphase]
      exact .quiet rfl rfl rfl
  | close =>
    cases hphase : s.phase with
    | closing =>
      simp only [step, hphase, h.closeWatermark]
      exact .closed rfl rfl rfl
    | idle | assigning =>
      simp only [step, hphase]
      exact .quiet rfl rfl rfl
  | assign =>
    cases hphase : s.phase with
    | assigning msg =>
      simp only [step, hphase]
      exact .assigned msg hphase rfl rfl rfl
    | idle | closing =>
      simp only [step, hphase]
      exact .quiet rfl rfl rfl
  | gc window =>
    by_cases hmem : window ∈ s.closed.toList
    · rw [step, if_pos hmem]
      exact .deleted window rfl rfl rfl rfl
    · rw [step, if_neg hmem]
      exact .quiet rfl rfl rfl
  | error =>
    by_cases hphase : s.phase = .idle
    · rw [step, if_pos hphase]
      exact .quiet rfl rfl rfl
    · rw [step, if_neg hphase]
      exact .quiet rfl rfl rfl

theorem Clock.withManager (m : AlignedWindowManager) : (s.withManager m).Clock :=
  ⟨h.current, h.floor, h.bounded, h.swept, h.closing, h.assigning⟩

theorem Clock.read (msg : Message) : (s.step (.read msg)).Clock := by
  by_cases hphase : s.phase = .idle
  · rw [step, if_pos hphase]
    have hlateness := (s.reducer.read_windowManager msg).2
    have hcurrent := s.reducer.read_currentWatermark msg (h.current ▸ h.floor)
    rw [h.current] at hcurrent
    have hgrow : s.largest ≤
        if s.reducer.shuttingDownOnErr then s.largest else advanceWatermark s.largest msg := by
      split_ifs
      · exact le_rfl
      · exact le_advanceWatermark s.largest msg
    refine ⟨hcurrent, h.floor.trans hgrow, ?_, by simp, ?_, ?_⟩
    · intro b hb
      have hle := h.bounded b hb
      unfold bound at hle ⊢
      simp only at hgrow ⊢
      omega
    · intro n hn
      rw [← hcurrent]
      exact s.reducer.read_accepts hn
    · intro n hn
      exact absurd hn (s.reducer.read_not_assigning msg n)
  · rw [step, if_neg hphase]
    exact h

theorem Clock.close : (s.step .close).Clock := by
  cases hphase : s.phase with
  | idle | assigning =>
    simp only [step, hphase]
    exact h
  | closing msg =>
    simp only [step, hphase, h.closeWatermark]
    refine ⟨h.current, h.floor, ?_, fun _ => rfl, ?_, ?_⟩
    · intro b hb
      cases hb
      exact le_rfl
    · intro n hn
      cases msg <;> cases hn
    · intro n hn
      cases msg with
      | none => cases hn
      | some =>
        cases hn
        exact h.closing n hphase

/-- Every step keeps the watermarks in order. -/
theorem Clock.step (a : ReducerAction) : (s.step a).Clock := by
  cases a with
  | read msg => exact h.read msg
  | close => exact h.close
  | assign =>
    cases hphase : s.phase with
    | assigning =>
      simp only [ReducerRun.step, hphase]
      exact ⟨h.current, h.floor, h.bounded, h.swept, by simp, by simp⟩
    | idle | closing =>
      simp only [ReducerRun.step, hphase]
      exact h
  | gc window =>
    by_cases hmem : window ∈ s.closed.toList
    · rw [ReducerRun.step, if_pos hmem]
      exact h.withManager _
    · rw [ReducerRun.step, if_neg hmem]
      exact h
  | error =>
    by_cases hphase : s.phase = .idle
    · rw [ReducerRun.step, if_pos hphase]
      exact ⟨h.current, h.floor, h.bounded, h.swept, h.closing, h.assigning⟩
    · rw [ReducerRun.step, if_neg hphase]
      exact h

end

/-! ## Closed windows stay below active ones -/

/-- The last watermark used to close windows separates the closed windows from the
active ones, and everything sent after a close is for a window that ends later. -/
structure Separated (s : ReducerRun) : Prop where
  conf : s.manager.Configured
  above : ∀ b ∈ s.closedAt, ∀ w ∈ s.active, b < w.endTime
  below : ∀ w ∈ s.closed, ∃ b ∈ s.closedAt, w.endTime ≤ b
  closes : ∀ x ∈ s.sent, x.operation.message = none →
    ∃ b ∈ s.closedAt, x.operation.window.endTime ≤ b
  ordered : s.sent.Pairwise fun x y => x.operation.message = none →
    x.operation.window.endTime < y.operation.window.endTime

variable {msg : Message} {w : Window}

/-- The windows of a message about to be assigned end after the last watermark used
to close windows. -/
theorem lt_end_of_windowsOf {s : ReducerRun} (hclock : s.Clock) (hconf : s.manager.Configured)
    (hphase : s.phase = .assigning msg) (hw : w ∈ s.manager.windowsOf msg) :
    ∀ b ∈ s.closedAt, b < w.endTime := by
  intro b hb
  have hholds := (windowsOf_holds hconf hw).2
  have hle := hclock.bounded b hb
  have hmsg := hclock.assigning msg hphase
  unfold bound at hle
  omega

namespace Separated

variable {s s' : ReducerRun} {gc : Option Window} {m : AlignedWindowManager}

theorem init (hconf : m.Configured) (hclosed : ∀ w, w ∉ m.closedWindows) (allowedLateness : Nat)
    (keyed : Bool) : (init m allowedLateness keyed).Separated where
  conf := hconf
  above := by simp [ReducerRun.init]
  below := fun w hw => absurd hw (hclosed w)
  closes := by simp [ReducerRun.init]
  ordered := Pairwise.nil

variable (h : s.Separated) (hclock : s.Clock)

include h hclock

/-- A close takes the windows up to its watermark and leaves the later ones. -/
theorem effect_closed (hmanager : s'.manager = (s.manager.closeWindows s.bound).1)
    (hsent : s'.sent = s.sent ++ (s.manager.closeWindows s.bound).2)
    (hclosedAt : s'.closedAt = some s.bound) : s'.Separated := by
  have hnew : ∀ x ∈ (s.manager.closeWindows s.bound).2,
      x.operation.window ∈ s.manager.activeWindows ∧ x.operation.window.endTime ≤ s.bound := by
    intro x hx
    rw [closeWindows_messages, mem_map] at hx
    rcases hx with ⟨w, hw, rfl⟩
    rcases mem_filter.mp hw with ⟨hmem, hle⟩
    exact ⟨hmem, of_decide_eq_true hle⟩
  refine ⟨?_, ?_, ?_, ?_, ?_⟩
  · rw [hmanager]
    exact configured_closeWindows h.conf
  · intro b hb w hw
    rw [hclosedAt, Option.mem_some_iff] at hb
    rw [active, hmanager, mem_active_closeWindows] at hw
    rw [← hb]
    exact hw.2
  · intro w hw
    rw [closed, hmanager] at hw
    refine ⟨s.bound, by rw [hclosedAt]; rfl, ?_⟩
    rcases mem_closed_closeWindows hw with hw | ⟨-, hle⟩
    · exact hclock.le_bound (h.below w hw)
    · exact hle
  · intro x hx hclose
    rw [hsent] at hx
    refine ⟨s.bound, by rw [hclosedAt]; rfl, ?_⟩
    rcases mem_append.mp hx with hx | hx
    · exact hclock.le_bound (h.closes x hx hclose)
    · exact (hnew x hx).2
  · rw [hsent]
    refine pairwise_append.mpr ⟨h.ordered, ?_, ?_⟩
    · -- one close step sends the closes in the order of the end times
      rw [closeWindows_messages, pairwise_map]
      refine (s.manager.activeWindows.sorted.filter _).imp ?_
      intro v w hlt _
      exact hlt
    · intro x hx y hy hclose
      rcases h.closes x hx hclose with ⟨b, hb, hle⟩
      exact hle.trans_lt (h.above b hb _ (hnew y hy).1)

/-- Messages go only to windows that end after the last close. -/
theorem effect_assigned (hphase : s.phase = .assigning msg)
    (hmanager : s'.manager = (s.manager.assignWindows msg).1)
    (hsent : s'.sent = s.sent ++ (s.manager.assignWindows msg).2)
    (hclosedAt : s'.closedAt = s.closedAt) : s'.Separated := by
  have hspec := s.manager.assignWindows_spec msg
  have hnew : ∀ x ∈ (s.manager.assignWindows msg).2, x.operation.message = some msg ∧
      x.operation.window ∈ s.manager.windowsOf msg := by
    intro x hx
    rcases hspec.sent x hx with ⟨w, hw, ⟨rfl, -⟩ | rfl, -⟩
    · exact ⟨rfl, hw⟩
    · exact ⟨rfl, hw⟩
  refine ⟨?_, ?_, ?_, ?_, ?_⟩
  · rw [hmanager]
    exact configured_assignWindows h.conf
  · intro b hb w hw
    rw [hclosedAt] at hb
    rw [active, hmanager] at hw
    rcases hspec.new w hw with hw | hw
    · exact h.above b hb w hw
    · exact lt_end_of_windowsOf hclock h.conf hphase hw b hb
  · intro w hw
    rw [closed, hmanager, assignWindows_closed] at hw
    rw [hclosedAt]
    exact h.below w hw
  · intro x hx hclose
    rw [hsent] at hx
    rw [hclosedAt]
    rcases mem_append.mp hx with hx | hx
    · exact h.closes x hx hclose
    · rw [(hnew x hx).1] at hclose
      cases hclose
  · rw [hsent]
    refine pairwise_append.mpr ⟨h.ordered, ?_, ?_⟩
    · refine pairwise_of_forall_mem_list ?_
      intro x hx y _ hclose
      rw [(hnew x hx).1] at hclose
      cases hclose
    · intro x hx y hy hclose
      rcases h.closes x hx hclose with ⟨b, hb, hle⟩
      exact hle.trans_lt (lt_end_of_windowsOf hclock h.conf hphase (hnew y hy).2 b hb)

/-- Every step keeps closed and active windows apart. -/
theorem effect (heffect : Effect gc s s') : s'.Separated := by
  cases heffect with
  | closed hmanager hsent hclosedAt => exact h.effect_closed hclock hmanager hsent hclosedAt
  | assigned _ hphase hmanager hsent hclosedAt =>
    exact h.effect_assigned hclock hphase hmanager hsent hclosedAt
  | quiet hmanager hsent hclosedAt =>
    refine ⟨?_, ?_, ?_, ?_, ?_⟩
    · rw [hmanager]
      exact h.conf
    · rw [hclosedAt, active, hmanager]
      exact h.above
    · rw [hclosedAt, closed, hmanager]
      exact h.below
    · rw [hclosedAt, hsent]
      exact h.closes
    · rw [hsent]
      exact h.ordered
  | deleted _ _ hmanager hsent hclosedAt =>
    refine ⟨?_, ?_, ?_, ?_, ?_⟩
    · rw [hmanager]
      exact configured_gcWindow h.conf
    · rw [hclosedAt, active, hmanager, gcWindow_active]
      exact h.above
    · intro w hw
      rw [closed, hmanager, gcWindow_closed] at hw
      rw [hclosedAt]
      exact h.below w (OrdSet.mem_remove.mp hw).1
    · rw [hclosedAt, hsent]
      exact h.closes
    · rw [hsent]
      exact h.ordered

/-- The life cycle of windows follows. -/
theorem lifeCycle : s.LifeCycle := by
  have hsep : ∀ c ∈ s.closed, ∀ a ∈ s.active, c.endTime < a.endTime := by
    intro c hc a ha
    rcases h.below c hc with ⟨b, hb, hle⟩
    exact hle.trans_lt (h.above b hb a ha)
  refine ⟨?_, ?_, ?_, ?_, ?_, ?_⟩
  · intro w hw hc
    exact absurd (hsep w hc w hw) (lt_irrefl _)
  · intro w hw
    exact hclock.le_bound (h.below w hw)
  · intro hswept w hw
    exact h.above s.bound (hclock.swept hswept) w hw
  · intro w hw
    exact oldestWindow_least (fun c hc a ha => (hsep c hc a ha).le) hw
  · intro hnone w
    exact oldestWindow_none hnone w
  · refine h.ordered.imp ?_
    intro x y hlt w hclose msg
    rw [hclose] at hlt
    constructor
    · intro hopen
      rw [hopen] at hlt
      exact absurd (hlt rfl) (lt_irrefl _)
    · intro happend
      rw [happend] at hlt
      exact absurd (hlt rfl) (lt_irrefl _)

end Separated

/-- The life cycle holds in every state of every run, with a fixed or a sliding
window manager that starts without closed windows. -/
theorem lifeCycle_exec {m : AlignedWindowManager} (hconf : m.Configured)
    (hclosed : ∀ w, w ∉ m.closedWindows) (allowedLateness : Nat) (keyed : Bool)
    (actions : List ReducerAction) :
    (exec step (init m allowedLateness keyed) actions).LifeCycle := by
  have hinv : (exec step (init m allowedLateness keyed) actions).Clock ∧
      (exec step (init m allowedLateness keyed) actions).Separated :=
    exec_invariant_all (I := fun s : ReducerRun => s.Clock ∧ s.Separated)
    (fun s a h => ⟨h.1.step a, h.2.effect h.1 (step_effect h.1 a)⟩)
    ⟨Clock.init m allowedLateness keyed, Separated.init hconf hclosed allowedLateness keyed⟩
  exact hinv.2.lifeCycle hinv.1

/-- Overlapping windows, of which an idle watermark closes two; one is deleted
before the next message is assigned. -/
def slidingActions : List ReducerAction :=
  [.read { eventTime := 7000000 }, .close, .assign,
    .read { typ := .wmb, eventTime := 0, watermark := some 15000000 }, .close,
    .read { eventTime := 18000000, watermark := some 16000000 }, .gc ⟨0, 10000000⟩, .close,
    .assign]

theorem slidingActions_lifeCycle :
    (AlignedWindowManager.sliding (.new 10000000 5000000)).Configured ∧
      (exec step (init (.sliding (.new 10000000 5000000)) 0 true) slidingActions).LifeCycle :=
  ⟨by decide, lifeCycle_exec (by decide) (by simp [AlignedWindowManager.closedWindows,
    SlidingWindowManager.new]) 0 true slidingActions⟩

end ReducerRun
end Numaflow.Aligned
