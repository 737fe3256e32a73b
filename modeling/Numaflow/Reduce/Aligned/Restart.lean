import Numaflow.Reduce.Aligned.Manager

/-!
# Graceful restart of sliding windows

On shutdown the sliding window manager saves its closed and active windows and the
latest end of the windows it has deleted.  A new manager loads all saved windows as
active ones.  When messages are replayed, a window that is not active is opened only
if it ends after the latest deleted window, so that a deleted window is not computed
again.

The summary cannot tell a deleted window from one that was never opened and ends
earlier; neither is opened.  Reading and writing the state file is taken to succeed.

Main results: `loadState_saveState`, `assigns_iff`, `resumes_exec`.
-/

namespace Numaflow.Aligned

open Lib Wal SlidingWindowManager OrdSet List

/-- A window of the state file. -/
structure ProtoWindow where
  startTime : Option Timestamp
  endTime : Option Timestamp
deriving DecidableEq, Repr

/-- The state file of the window manager. -/
structure WindowManagerState where
  windows : List ProtoWindow
  maxDeletedWindowEndTime : Int
deriving DecidableEq, Repr

/-- Write a window. -/
def Window.toProto (window : Window) : ProtoWindow :=
  ⟨some (prostTimestampFromUtc window.startTime), some (prostTimestampFromUtc window.endTime)⟩

/-- Read a window; the code stops when a time is absent. -/
def ProtoWindow.toWindow (proto : ProtoWindow) : Option Window := do
  let startTime ← proto.startTime
  let endTime ← proto.endTime
  return ⟨utcFromTimestamp startTime, utcFromTimestamp endTime⟩

@[simp]
theorem Window.toWindow_toProto (window : Window) : window.toProto.toWindow = some window := by
  simp [toProto, ProtoWindow.toWindow]

variable {w : Window}

namespace SlidingWindowManager

section

variable (m : SlidingWindowManager)

/-- Save the windows and the latest end of the deleted windows. -/
def saveState : WindowManagerState :=
  ⟨(m.closedWindows.toList ++ m.activeWindows.toList).map Window.toProto,
    m.maxDeletedWindowEndTime⟩

/-- Add the saved windows to the active ones. -/
def loadState (state : WindowManagerState) :
    Option SlidingWindowManager :=
  (state.windows.mapM ProtoWindow.toWindow).map fun windows =>
    { m with
      activeWindows := m.activeWindows.extend windows
      maxDeletedWindowEndTime := state.maxDeletedWindowEndTime }

/-- Save the state and load it into a new manager. -/
def restart : Option SlidingWindowManager :=
  (new m.windowLength m.slide).loadState m.saveState

/-- Assign messages one after the other. -/
def replay (msgs : List Message) : SlidingWindowManager :=
  msgs.foldl (fun m msg => (m.assignWindows msg).1) m

/-- The windows survive the state file. -/
theorem loadState_saveState : m.restart = some
      { new m.windowLength m.slide with
        activeWindows := empty.extend (m.closedWindows.toList ++ m.activeWindows.toList)
        maxDeletedWindowEndTime := m.maxDeletedWindowEndTime } := by
  have hmap : ∀ windows : List Window,
      (windows.map Window.toProto).mapM ProtoWindow.toWindow = some windows := by
    intro windows
    induction windows with
    | nil => rfl
    | cons w _ ih => simp [ih]
  simp only [restart, loadState, saveState, hmap, Option.map_some]
  rfl

section

variable (msg : Message) (w : Window)

/-- A window on the grid of the slide that contains the event time of the message. -/
def WindowOf : Prop :=
  ∃ k : Int, w = millisWindow (k * asMillis m.slide)
      (k * asMillis m.slide + asMillis m.windowLength) ∧
    k * asMillis m.slide ≤ timestampMillis msg.eventTime ∧
    timestampMillis msg.eventTime < k * asMillis m.slide + asMillis m.windowLength

/-- The message is sent to the window. -/
def Assigns : Prop :=
  ∃ x ∈ (m.assignWindows msg).2, x.operation.message = some msg ∧ x.operation.window = w

/-- The message opens the window. -/
def Opens : Prop :=
  ∃ x ∈ (m.assignWindows msg).2, x.operation = .openOp msg w

end

end

/-! ## Which windows get a message -/

variable {maxDeleted : Int} {active : WindowSet} {msg : Message} {window v : Window}
  {x : AlignedWindowMessage} {windows : List Window} {m : SlidingWindowManager}

/-- The active windows grow only by windows that end after the latest deleted one. -/
theorem assignWindow_active (hv : v ∈ (assignWindow maxDeleted msg active window).1) :
    v ∈ active ∨ (v = window ∧ maxDeleted < timestampMillis v.endTime) := by
  rcases AlignedWindowManager.assignWindow_cases maxDeleted msg active window with
    ⟨_, _, _, heq⟩ | ⟨_, hlt, heq⟩ | ⟨_, _, heq⟩
  · rw [heq] at hv
    exact .inl hv
  · rw [heq] at hv
    rcases mem_insert.mp hv with hv | ⟨rfl, -⟩
    · exact .inl hv
    · exact .inr ⟨rfl, hlt⟩
  · rw [heq] at hv
    exact .inl hv

/-- What one round of the loop sends: the message to the window, which is opened when
it is not active. -/
theorem mem_assignWindow (hx : x ∈ (assignWindow maxDeleted msg active window).2) :
    (x = appendMessage msg window ∧ ∃ v ∈ active, v.endTime = window.endTime) ∨
      (x = openMessage msg window ∧ maxDeleted < timestampMillis window.endTime) := by
  rcases AlignedWindowManager.assignWindow_cases maxDeleted msg active window with
    ⟨v, hv, hend, heq⟩ | ⟨_, hlt, heq⟩ | ⟨_, _, heq⟩
  · rw [heq, mem_singleton] at hx
    exact .inl ⟨hx, v, hv, hend⟩
  · rw [heq, mem_singleton] at hx
    exact .inr ⟨hx, hlt⟩
  · rw [heq] at hx
    exact absurd hx not_mem_nil

/-- Only windows that end after the latest deleted one are opened; the others that get
the message are active. -/
theorem mem_collect (hx : x ∈ (collect (assignWindow maxDeleted msg) active windows).2) :
    maxDeleted < timestampMillis x.operation.window.endTime ∨
      ((∃ v ∈ active, v.endTime = x.operation.window.endTime) ∧ ¬ x.operation.IsOpen) := by
  induction windows generalizing active with
  | nil => exact absurd hx not_mem_nil
  | cons _ _ ih =>
    rcases mem_append.mp hx with hx | hx
    · rcases mem_assignWindow hx with ⟨rfl, hactive⟩ | ⟨rfl, hlt⟩
      · exact .inr ⟨hactive, id⟩
      · exact .inl hlt
    · rcases ih hx with hlt | ⟨⟨v, hv, hend⟩, hopen⟩
      · exact .inl hlt
      · rcases assignWindow_active hv with hv | ⟨-, hlt⟩
        · exact .inr ⟨⟨v, hv, hend⟩, hopen⟩
        · rw [hend] at hlt
          exact .inl hlt

/-- A window that is active or ends after the latest deleted one gets the message. -/
theorem exists_mem_collect (hw : w ∈ windows)
    (hdue : (∃ v ∈ active, v.endTime = w.endTime) ∨ maxDeleted < timestampMillis w.endTime) :
    ∃ x ∈ (collect (assignWindow maxDeleted msg) active windows).2,
      x.operation.message = some msg ∧ x.operation.window = w := by
  induction windows generalizing active with
  | nil => exact absurd hw not_mem_nil
  | cons window _ ih =>
    rw [collect_cons]
    rcases AlignedWindowManager.assignWindow_cases maxDeleted msg active window with
      ⟨_, _, _, heq⟩ | ⟨_, _, heq⟩ | ⟨hnone, hle, heq⟩
    · rw [heq]
      rcases mem_cons.mp hw with rfl | hw
      · exact ⟨appendMessage msg w, mem_cons_self, rfl, rfl⟩
      · rcases ih hw hdue with ⟨x, hx, hop⟩
        exact ⟨x, mem_cons_of_mem _ hx, hop⟩
    · rw [heq]
      rcases mem_cons.mp hw with rfl | hw
      · exact ⟨openMessage msg w, mem_cons_self, rfl, rfl⟩
      · have hdue' : (∃ v ∈ active.insert window, v.endTime = w.endTime) ∨
            maxDeleted < timestampMillis w.endTime := by
          rcases hdue with ⟨v, hv, hend⟩ | hlt
          · exact .inl ⟨v, mem_insert.mpr (.inl hv), hend⟩
          · exact .inr hlt
        rcases ih hw hdue' with ⟨x, hx, hop⟩
        exact ⟨x, mem_cons_of_mem _ hx, hop⟩
    · rw [heq]
      rcases mem_cons.mp hw with rfl | hw
      · exfalso
        rcases hdue with ⟨v, hv, hend⟩ | hlt
        · exact hnone v hv hend
        · omega
      · exact ih hw hdue

/-- The windows of the manager have its length. -/
def Fits (m : SlidingWindowManager) : Prop :=
  ∀ w, w ∈ m.activeWindows ∨ w ∈ m.closedWindows → (AlignedWindowManager.sliding m).shape.Fits w

theorem windowOf_fits (hw : m.WindowOf msg w) : (AlignedWindowManager.sliding m).shape.Fits w := by
  rcases hw with ⟨k, rfl, -, -⟩
  exact ⟨k * asMillis m.slide, rfl, nofun⟩

/-- A window of a message gets it exactly when the window is active or ends after the
latest deleted one. -/
theorem assigns_iff (hslide : 1000000 ≤ m.slide) (hfits : m.Fits) (hw : m.WindowOf msg w) :
    m.Assigns msg w ↔
      w ∈ m.activeWindows ∨ m.maxDeletedWindowEndTime < timestampMillis w.endTime := by
  constructor
  · rintro ⟨x, hx, -, rfl⟩
    rcases mem_collect hx with hlt | ⟨⟨v, hv, hend⟩, -⟩
    · exact .inr hlt
    · rw [← (hfits v (.inl hv)).eq_of_end_eq (windowOf_fits hw) hend]
      exact .inl hv
  · intro hdue
    refine exists_mem_collect ((mem_createWindows hslide).mpr hw) ?_
    rcases hdue with hactive | hlt
    · exact .inl ⟨w, hactive, rfl⟩
    · exact .inr hlt

/-- Only windows that end after the latest deleted one are opened. -/
theorem lt_of_opens (h : m.Opens msg w) :
    m.maxDeletedWindowEndTime < timestampMillis w.endTime := by
  rcases h with ⟨x, hx, hop⟩
  rcases mem_collect hx with hlt | ⟨-, hopen⟩
  · rw [hop] at hlt
    exact hlt
  · rw [hop] at hopen
    exact absurd trivial hopen

/-! ## Replay -/

theorem fits_assignWindows (hfits : m.Fits) (msg : Message) : (m.assignWindows msg).1.Fits := by
  intro w hw
  rcases hw with hw | hw
  · have hspec := (AlignedWindowManager.sliding m).assignWindows_spec msg
    rcases hspec.new w hw with hw | hw
    · exact hfits w (.inl hw)
    · exact AlignedWindowManager.windowsOf_fits hw
  · exact hfits w (.inr hw)

/-- What is replayed adds active windows that end after the latest deleted one. -/
structure Replayed (m m' : SlidingWindowManager) : Prop where
  windowLength : m'.windowLength = m.windowLength
  slide : m'.slide = m.slide
  maxDeleted : m'.maxDeletedWindowEndTime = m.maxDeletedWindowEndTime
  fits : m'.Fits
  keep : ∀ w ∈ m.activeWindows, w ∈ m'.activeWindows
  new : ∀ w ∈ m'.activeWindows, w ∈ m.activeWindows ∨
    m.maxDeletedWindowEndTime < timestampMillis w.endTime

theorem replayed_assignWindows (hfits : m.Fits) (msg : Message) :
    Replayed m (m.assignWindows msg).1 := by
  have hspec := (AlignedWindowManager.sliding m).assignWindows_spec msg
  refine ⟨rfl, rfl, rfl, fits_assignWindows hfits msg, hspec.keep, ?_⟩
  have hgrow : ∀ (windows : List Window) (active : WindowSet),
      ∀ w ∈ (collect (assignWindow m.maxDeletedWindowEndTime msg) active windows).1,
        w ∈ active ∨ m.maxDeletedWindowEndTime < timestampMillis w.endTime := by
    intro windows
    induction windows with
    | nil => exact fun active w hw => .inl hw
    | cons _ _ ih =>
      intro active w hw
      rcases ih _ w hw with hw | hlt
      · rcases assignWindow_active hw with hw | ⟨-, hlt⟩
        · exact .inl hw
        · exact .inr hlt
      · exact .inr hlt
  exact hgrow (m.createWindows msg) m.activeWindows

variable {m' m'' : SlidingWindowManager}

theorem Replayed.trans (h : Replayed m m') (h' : Replayed m' m'') : Replayed m m'' := by
  refine ⟨h'.windowLength.trans h.windowLength, h'.slide.trans h.slide,
    h'.maxDeleted.trans h.maxDeleted, h'.fits, fun w hw => h'.keep w (h.keep w hw), ?_⟩
  intro w hw
  rcases h'.new w hw with hw | hlt
  · exact h.new w hw
  · rw [h.maxDeleted] at hlt
    exact .inr hlt

theorem replayed_replay (hfits : m.Fits) (msgs : List Message) : Replayed m (m.replay msgs) := by
  induction msgs generalizing m with
  | nil => exact ⟨rfl, rfl, rfl, hfits, fun w hw => hw, fun w hw => .inl hw⟩
  | cons msg _ ih =>
    have hfirst := replayed_assignWindows hfits msg
    exact hfirst.trans (ih hfirst.fits)

/-- The windows of a restarted manager are the saved ones. -/
theorem restart_spec (hfits : m.Fits) :
    ∃ m', m.restart = some m' ∧ m'.windowLength = m.windowLength ∧ m'.slide = m.slide ∧
      m'.maxDeletedWindowEndTime = m.maxDeletedWindowEndTime ∧ m'.Fits ∧
      ∀ w, w ∈ m'.activeWindows ↔ w ∈ m.activeWindows ∨ w ∈ m.closedWindows := by
  have hsaved : ∀ w, w ∈ m.closedWindows.toList ++ m.activeWindows.toList ↔
      w ∈ m.activeWindows ∨ w ∈ m.closedWindows := by
    intro w
    rw [mem_append, mem_toList, mem_toList, or_comm]
  have hmem : ∀ w, w ∈ (empty : WindowSet).extend
      (m.closedWindows.toList ++ m.activeWindows.toList) ↔
        w ∈ m.activeWindows ∨ w ∈ m.closedWindows := by
    intro w
    rw [← hsaved]
    constructor
    · intro hw
      rcases mem_of_mem_extend hw with hw | hw
      · exact absurd hw (not_mem_empty w)
      · exact hw
    · intro hw
      -- the window kept under the end time is the same one
      rcases exists_key_extend (s := (empty : WindowSet)) hw with ⟨v, hv, hend⟩
      have hv' : v ∈ m.closedWindows.toList ++ m.activeWindows.toList := by
        rcases mem_of_mem_extend hv with hv | hv
        · exact absurd hv (not_mem_empty v)
        · exact hv
      rw [hsaved] at hw hv'
      rw [← (hfits v hv').eq_of_end_eq (hfits w hw) hend]
      exact hv
  refine ⟨_, loadState_saveState m, rfl, rfl, rfl, ?_, hmem⟩
  intro w hw
  rcases hw with hw | hw
  · exact hfits w ((hmem w).mp hw)
  · exact absurd hw (not_mem_empty w)

end SlidingWindowManager

/-! ## Runs before the restart -/

/-- A call of the window manager. -/
inductive WindowCall where
  | assign (msg : Message)
  | close (watermark : Int)
  | gc (window : Window)
deriving DecidableEq, Repr

/-- The manager and the windows that were deleted. -/
structure SlidingRun where
  manager : SlidingWindowManager
  collected : List Window

namespace SlidingRun

/-- Nothing has been assigned yet. -/
def init (windowLength slide : Nat) : SlidingRun :=
  ⟨.new windowLength slide, []⟩

/-- Perform a call. -/
def step (s : SlidingRun) : WindowCall → SlidingRun
  | .assign msg => { s with manager := (s.manager.assignWindows msg).1 }
  | .close watermark => { s with manager := (s.manager.closeWindows watermark).1 }
  | .gc window => ⟨s.manager.gcWindow window, s.collected ++ [window]⟩

/-- A restarted manager opens no deleted window, and assigns every replayed message to
all of its windows that were not deleted. -/
def ResumesAll (s : SlidingRun) : Prop :=
  ∃ m, s.manager.restart = some m ∧ ∀ before msg w, (m.replay before).WindowOf msg w →
    (w ∈ s.collected → ¬ (m.replay before).Opens msg w) ∧
      (w ∉ s.collected → (m.replay before).Assigns msg w)

/-- A restarted manager opens no deleted window, and assigns every replayed message to
those of its windows that were saved, or that end after the epoch and after every
deleted window. -/
def Resumes (s : SlidingRun) : Prop :=
  ∃ m, s.manager.restart = some m ∧ ∀ before msg w, (m.replay before).WindowOf msg w →
    (w ∈ s.collected → ¬ (m.replay before).Opens msg w) ∧
      ((m.replay before).Assigns msg w ↔
        w ∈ s.manager.activeWindows ∨ w ∈ s.manager.closedWindows ∨
          (0 ≤ w.endTime ∧ ∀ v ∈ s.collected, v.endTime < w.endTime))

/-- The windows have the configured length, and the latest deleted end is the one of
the deleted windows. -/
structure Summary (s : SlidingRun) : Prop where
  fits : s.manager.Fits
  deleted : ∀ t, s.manager.maxDeletedWindowEndTime < t ↔
    -1 < t ∧ ∀ v ∈ s.collected, timestampMillis v.endTime < t

theorem Summary.init (windowLength slide : Nat) : (init windowLength slide).Summary := by
  constructor
  · intro w hw
    rcases hw with hw | hw <;> exact absurd hw (not_mem_empty w)
  · simp [SlidingRun.init, new]

theorem Summary.step {s : SlidingRun} (h : s.Summary) (c : WindowCall) : (s.step c).Summary := by
  cases c with
  | assign msg => exact ⟨fits_assignWindows h.fits msg, h.deleted⟩
  | close watermark =>
    refine ⟨?_, h.deleted⟩
    intro w hw
    rcases hw with hw | hw
    · have hactive : w ∈ (closeExpired s.manager.activeWindows s.manager.closedWindows
          watermark).1 := hw
      exact h.fits w (.inl (mem_closeExpired_active.mp hactive).1)
    · rcases mem_closeExpired_closed hw with hw | ⟨hw, -⟩
      · exact h.fits w (.inr hw)
      · exact h.fits w (.inl hw)
  | gc =>
    refine ⟨?_, ?_⟩
    · intro w hw
      rcases hw with hw | hw
      · exact h.fits w (.inl hw)
      · exact h.fits w (.inr (mem_remove.mp hw).1)
    · intro t
      simp only [SlidingRun.step, gcWindow, max_lt_iff, h.deleted,
        forall_mem_append, forall_mem_singleton, and_assoc]

/-- A window with millisecond boundaries ends after another window exactly when its
end in milliseconds does. -/
theorem lt_endTime_iff {shape : WindowShape} (hw : shape.Fits w) (t : Int) :
    timestampMillis t < timestampMillis w.endTime ↔ t < w.endTime := by
  rcases hw with ⟨a, rfl, -⟩
  rw [millisWindow_endTime]
  unfold timestampMillis fromTimestampMillis
  omega

/-- A run whose summary is right resumes after a restart. -/
theorem Summary.resumes {s : SlidingRun} (hslide : 1000000 ≤ s.manager.slide) (h : s.Summary) :
    s.Resumes := by
  rcases restart_spec h.fits with
    ⟨m, hrestart, hlength, hslide', hdeleted, hfits, hactive⟩
  refine ⟨m, hrestart, ?_⟩
  intro before msg w hw
  have hreplayed := replayed_replay hfits before
  have hmax := hreplayed.maxDeleted.trans hdeleted
  have hafter : s.manager.maxDeletedWindowEndTime < timestampMillis w.endTime ↔
      0 ≤ w.endTime ∧ ∀ v ∈ s.collected, v.endTime < w.endTime := by
    have hfit := windowOf_fits hw
    have hepoch : -1 < timestampMillis w.endTime ↔ 0 ≤ w.endTime := by
      unfold timestampMillis
      omega
    rw [h.deleted, hepoch]
    simp only [lt_endTime_iff hfit]
  constructor
  · intro hcollected hopens
    have hlt := lt_of_opens hopens
    rw [hmax, hafter] at hlt
    exact absurd (hlt.2 w hcollected) (lt_irrefl _)
  · have hslide : 1000000 ≤ (m.replay before).slide := by
      rw [hreplayed.slide, hslide']
      exact hslide
    rw [assigns_iff hslide hreplayed.fits hw, hmax, hafter, ← or_assoc, ← hactive]
    constructor
    · intro hdue
      rcases hdue with hw | hlt
      · rcases hreplayed.new w hw with hw | hlt
        · exact .inl hw
        · rw [hdeleted, hafter] at hlt
          exact .inr hlt
      · exact .inr hlt
    · intro hdue
      rcases hdue with hw | hlt
      · exact .inl (hreplayed.keep w hw)
      · exact .inr hlt

/-- After every run of a sliding window manager and a restart, replayed messages go to
the windows that were saved and to those that end after every deleted window. -/
theorem resumes_exec {windowLength slide : Nat} (hslide : 1000000 ≤ slide)
    (calls : List WindowCall) : (exec step (init windowLength slide) calls).Resumes := by
  have hinv : (exec step (init windowLength slide) calls).manager.slide = slide ∧
      (exec step (init windowLength slide) calls).Summary := by
    refine exec_invariant_all (I := fun s : SlidingRun => s.manager.slide = slide ∧ s.Summary) ?_
      ⟨rfl, Summary.init windowLength slide⟩
    intro s c h
    refine ⟨?_, h.2.step c⟩
    cases c <;> exact h.1
  apply hinv.2.resumes
  rw [hinv.1]
  exact hslide

/-- Overlapping windows, of which the first one is closed and deleted. -/
def overlappingCalls : List WindowCall :=
  [.assign { eventTime := 7000000 }, .close 10000000, .gc ⟨0, 10000000⟩]

theorem overlappingCalls_resumes :
    (exec step (init 10000000 5000000) overlappingCalls).collected = [⟨0, 10000000⟩] ∧
      (exec step (init 10000000 5000000) overlappingCalls).Resumes :=
  ⟨by decide, resumes_exec (by decide) overlappingCalls⟩

/-- The windows `[0, 10)` and `[20, 30)` are deleted; `[10, 20)` was never
opened. -/
def gapCalls : List WindowCall :=
  [.assign { eventTime := 5000000 }, .assign { eventTime := 25000000 }, .close 30000000,
    .gc ⟨0, 10000000⟩, .gc ⟨20000000, 30000000⟩]

/-- A message of the window in between is not assigned after the restart. -/
theorem gapCalls_not_resumesAll : ¬ (exec step (init 10000000 10000000) gapCalls).ResumesAll := by
  intro h
  rcases h with ⟨m, hrestart, h⟩
  cases hrestart
  have hwindow := (h [] { eventTime := 15000000 } ⟨10000000, 20000000⟩
    ⟨1, by decide, by decide, by decide⟩).2 (by decide)
  unfold SlidingWindowManager.Assigns at hwindow
  revert hwindow
  decide

end SlidingRun
end Numaflow.Aligned
