import Numaflow.Reduce.Aligned.Windower

/-!
# Managers of aligned windows

A reduce vertex works with a fixed or with a sliding window manager.  This file
says once what each operation does to the active and to the closed windows, for
both kinds.

Main results: `windowsOf_holds`, `assignWindows_spec`, `oldestWindow_least`.
-/

namespace Numaflow.Aligned

open Lib SlidingWindowManager OrdSet List

/-- Kind and length of the windows of a manager. -/
structure WindowShape where
  sliding : Bool
  lengthMillis : Int
deriving DecidableEq, Repr

/-- A window has the length, and starts at a multiple of it unless windows slide. -/
def WindowShape.Fits (shape : WindowShape) (w : Window) : Prop :=
  ∃ startMillis, w = millisWindow startMillis (startMillis + shape.lengthMillis) ∧
    (shape.sliding = false → shape.lengthMillis ∣ startMillis)

namespace WindowShape.Fits

variable {shape : WindowShape} {v w : Window} (hv : shape.Fits v) (hw : shape.Fits w)

include hv hw

/-- The window that ends first starts first. -/
theorem start_le (h : v.endTime ≤ w.endTime) : v.startTime ≤ w.startTime := by
  rcases hv with ⟨a, rfl, -⟩
  rcases hw with ⟨b, rfl, -⟩
  simp only [millisWindow_startTime, millisWindow_endTime, fromTimestampMillis] at h ⊢
  omega

/-- The order of the source identifies only equal windows. -/
theorem eq_of_end_eq (h : v.endTime = w.endTime) : v = w := by
  rcases hv with ⟨a, rfl, -⟩
  rcases hw with ⟨b, rfl, -⟩
  simp only [millisWindow_endTime, fromTimestampMillis] at h
  have hab : a = b := by omega
  rw [hab]

/-- Of two fixed windows the one that ends first ends before the other starts. -/
theorem end_le_start (hfixed : shape.sliding = false)
    (h : v.endTime < w.endTime) : v.endTime ≤ w.startTime := by
  rcases hv with ⟨a, rfl, ha⟩
  rcases hw with ⟨b, rfl, hb⟩
  simp only [millisWindow_startTime, millisWindow_endTime, fromTimestampMillis] at h ⊢
  have hgap := Int.le_of_dvd (by omega) (Int.dvd_sub (hb hfixed) (ha hfixed))
  omega

/-- Different windows have different slots. -/
theorem eq_of_slot_eq (h : windowToPnfSlot v = windowToPnfSlot w) : v = w := by
  rcases hv with ⟨a, rfl, -⟩
  rcases hw with ⟨b, rfl, -⟩
  exact windowToPnfSlot_inj h

end WindowShape.Fits

/-- A fixed or a sliding window manager. -/
inductive AlignedWindowManager where
  | fixed (manager : FixedWindowManager)
  | sliding (manager : SlidingWindowManager)

namespace AlignedWindowManager

/-- Assign a message to its windows. -/
def assignWindows : AlignedWindowManager → Message →
    AlignedWindowManager × List AlignedWindowMessage
  | .fixed m, msg => ((.fixed (m.assignWindows msg).1), (m.assignWindows msg).2)
  | .sliding m, msg => ((.sliding (m.assignWindows msg).1), (m.assignWindows msg).2)

/-- Close the windows that the watermark has passed. -/
def closeWindows : AlignedWindowManager → Int →
    AlignedWindowManager × List AlignedWindowMessage
  | .fixed m, watermark => ((.fixed (m.closeWindows watermark).1), (m.closeWindows watermark).2)
  | .sliding m, watermark =>
    ((.sliding (m.closeWindows watermark).1), (m.closeWindows watermark).2)

/-- Delete a window after it is closed and GC is done. -/
def gcWindow : AlignedWindowManager → Window → AlignedWindowManager
  | .fixed m, window => .fixed (m.gcWindow window)
  | .sliding m, window => .sliding (m.gcWindow window)

/-- The oldest window yet to be completed. -/
def oldestWindow : AlignedWindowManager → Option Window
  | .fixed m => m.oldestWindow
  | .sliding m => m.oldestWindow

/-- The active windows. -/
def activeWindows : AlignedWindowManager → WindowSet
  | .fixed m => m.activeWindows
  | .sliding m => m.activeWindows

/-- The closed windows. -/
def closedWindows : AlignedWindowManager → WindowSet
  | .fixed m => m.closedWindows
  | .sliding m => m.closedWindows

/-- The windows that a message belongs to. -/
def windowsOf : AlignedWindowManager → Message → List Window
  | .fixed m, msg => [m.createWindow msg]
  | .sliding m, msg => m.createWindows msg

/-- Kind and length of the windows. -/
def shape : AlignedWindowManager → WindowShape
  | .fixed m => ⟨false, asMillis m.windowLength⟩
  | .sliding m => ⟨true, asMillis m.windowLength⟩

/-- The durations are long enough for the event time to be truncated. -/
def Configured : AlignedWindowManager → Prop
  | .fixed m => 1000000 ≤ m.windowLength
  | .sliding m => 1000000 ≤ m.slide

instance : DecidablePred Configured
  | .fixed m => inferInstanceAs (Decidable (1000000 ≤ m.windowLength))
  | .sliding m => inferInstanceAs (Decidable (1000000 ≤ m.slide))

variable {m : AlignedWindowManager} {msg : Message} {w : Window} {watermark : Int}

/-- A message belongs only to windows that contain its event time. -/
theorem windowsOf_holds (hconf : m.Configured) (hw : w ∈ m.windowsOf msg) : w.Holds msg := by
  cases m with
  | fixed =>
    rw [mem_singleton.mp hw]
    exact FixedWindowManager.createWindow_holds hconf msg
  | sliding =>
    rcases mem_windowsFrom hw with ⟨i, rfl, hstart, hend⟩
    exact millisWindow_holds hstart hend

/-- A message belongs only to windows of the manager's kind and length. -/
theorem windowsOf_fits (hw : w ∈ m.windowsOf msg) : m.shape.Fits w := by
  cases m with
  | fixed =>
    rw [mem_singleton.mp hw]
    exact ⟨_, rfl, fun _ => Int.dvd_self_sub_emod⟩
  | sliding =>
    rcases mem_windowsFrom hw with ⟨i, rfl, -, -⟩
    exact ⟨_, rfl, fun h => absurd h (by simp [shape])⟩

@[simp]
theorem shape_assignWindows : (m.assignWindows msg).1.shape = m.shape := by
  cases m with
  | fixed =>
    simp only [assignWindows, shape, FixedWindowManager.assignWindows]
    split_ifs <;> rfl
  | sliding => rfl

@[simp]
theorem shape_closeWindows : (m.closeWindows watermark).1.shape = m.shape := by
  cases m <;> rfl

@[simp]
theorem shape_gcWindow : (m.gcWindow w).shape = m.shape := by
  cases m <;> rfl

theorem configured_assignWindows (hconf : m.Configured) : (m.assignWindows msg).1.Configured := by
  cases m with
  | fixed =>
    simp only [assignWindows, FixedWindowManager.assignWindows]
    split_ifs <;> exact hconf
  | sliding => exact hconf

theorem configured_closeWindows (hconf : m.Configured) :
    (m.closeWindows watermark).1.Configured := by
  cases m <;> exact hconf

theorem configured_gcWindow (hconf : m.Configured) : (m.gcWindow w).Configured := by
  cases m <;> exact hconf

/-- The windows of a message depend on its event time only. -/
theorem windowsOf_eventTime (m : AlignedWindowManager) (msg : Message) :
    m.windowsOf msg = m.windowsOf { eventTime := msg.eventTime } := by
  cases m <;> rfl

variable {n : Message}

@[simp]
theorem windowsOf_closeWindows : (m.closeWindows watermark).1.windowsOf n = m.windowsOf n := by
  cases m <;> rfl

@[simp]
theorem windowsOf_gcWindow : (m.gcWindow w).windowsOf n = m.windowsOf n := by
  cases m <;> rfl

/-! ## Assigning -/

@[simp]
theorem assignWindows_closed : (m.assignWindows msg).1.closedWindows = m.closedWindows := by
  cases m with
  | fixed =>
    simp only [assignWindows, closedWindows, FixedWindowManager.assignWindows]
    split_ifs <;> rfl
  | sliding => rfl

/-- What one assignment step does to the active windows and what it sends. -/
theorem assignWindow_cases (maxDeleted : Int) (msg : Message) (active : WindowSet)
    (window : Window) :
    (∃ v ∈ active, v.endTime = window.endTime ∧
      assignWindow maxDeleted msg active window =
        (active, [appendMessage msg window])) ∨
    ((∀ v ∈ active, v.endTime ≠ window.endTime) ∧
      maxDeleted < timestampMillis window.endTime ∧
      assignWindow maxDeleted msg active window =
        (active.insert window, [openMessage msg window])) ∨
    ((∀ v ∈ active, v.endTime ≠ window.endTime) ∧
      timestampMillis window.endTime ≤ maxDeleted ∧
      assignWindow maxDeleted msg active window = (active, [])) := by
  unfold assignWindow
  by_cases hcontains : active.contains window = true
  · rcases contains_iff.mp hcontains with ⟨v, hv, heq⟩
    exact .inl ⟨v, hv, heq, by rw [if_pos hcontains]⟩
  · have hnone : ∀ v ∈ active, v.endTime ≠ window.endTime := by
      intro v hv heq
      exact hcontains (contains_iff.mpr ⟨v, hv, heq⟩)
    rw [if_neg hcontains]
    by_cases hdeleted : maxDeleted < timestampMillis window.endTime
    · rw [if_pos hdeleted]
      exact .inr (.inl ⟨hnone, hdeleted, rfl⟩)
    · rw [if_neg hdeleted]
      exact .inr (.inr ⟨hnone, not_lt.mp hdeleted, rfl⟩)

/-- The effect of assigning a message to the given windows: windows are only
added, each message sent is for a window that is active afterwards, and a window is
opened only when it is not active and nothing was sent to it. -/
structure Assigned (active active' : WindowSet) (windows : List Window) (msg : Message)
    (messages : List AlignedWindowMessage) : Prop where
  keep : ∀ w ∈ active, w ∈ active'
  new : ∀ w ∈ active', w ∈ active ∨ w ∈ windows
  sent : ∀ x ∈ messages, ∃ w ∈ windows,
    ((x = openMessage msg w ∧ ∀ v ∈ active, v.endTime ≠ w.endTime) ∨ x = appendMessage msg w) ∧
      ∃ v ∈ active', v.endTime = w.endTime
  fresh : messages.Pairwise fun x y => y.operation.IsOpen →
    x.operation.window.endTime ≠ y.operation.window.endTime

variable {active₁ active' active : WindowSet} {windows : List Window}

/-- Sending one more message in front, for a window that is active. -/
theorem Assigned.cons {window : Window} {x : AlignedWindowMessage}
    {sent : List AlignedWindowMessage}
    (h : Assigned active₁ active' windows msg sent) (hkeep : ∀ w ∈ active, w ∈ active₁)
    (hnew : ∀ w ∈ active₁, w ∈ active ∨ w = window) (hv : ∃ v ∈ active₁, v.endTime = window.endTime)
    (hx : (x = openMessage msg window ∧ ∀ v ∈ active, v.endTime ≠ window.endTime) ∨
      x = appendMessage msg window) :
    Assigned active active' (window :: windows) msg (x :: sent) := by
  rcases hv with ⟨v, hv, hend⟩
  have hwindow : x.operation.window = window := by
    rcases hx with ⟨rfl, -⟩ | rfl
    · rfl
    · rfl
  refine ⟨fun w hw => h.keep w (hkeep w hw), ?_, ?_, pairwise_cons.mpr ⟨?_, h.fresh⟩⟩
  · intro w hw
    rcases h.new w hw with hw | hw
    · rcases hnew w hw with hw | rfl
      · exact .inl hw
      · exact .inr mem_cons_self
    · exact .inr (mem_cons_of_mem window hw)
  · intro y hy
    rcases mem_cons.mp hy with rfl | hy
    · exact ⟨window, mem_cons_self, hx, v, h.keep v hv, hend⟩
    · rcases h.sent y hy with ⟨w, hw, hop, hactive⟩
      refine ⟨w, mem_cons_of_mem window hw, ?_, hactive⟩
      rcases hop with ⟨hop, hnone⟩ | hop
      · exact .inl ⟨hop, fun u hu => hnone u (hkeep u hu)⟩
      · exact .inr hop
  · intro y hy hopen heq
    rw [hwindow] at heq
    rcases h.sent y hy with ⟨w, -, ⟨rfl, hnone⟩ | rfl, -⟩
    · exact hnone v hv (hend.trans heq)
    · exact hopen

/-- The loop of the sliding window manager. -/
theorem assigned_collect (maxDeleted : Int) (msg : Message) (windows : List Window)
    (active : WindowSet) :
    Assigned active
      (collect (assignWindow maxDeleted msg) active windows).1 windows msg
      (collect (assignWindow maxDeleted msg) active windows).2 := by
  induction windows generalizing active with
  | nil => exact ⟨fun w hw => hw, fun w hw => .inl hw, by simp, List.Pairwise.nil⟩
  | cons window _ ih =>
    rw [collect_cons]
    rcases assignWindow_cases maxDeleted msg active window with
      ⟨v, hv, hend, heq⟩ | ⟨hnone, _, heq⟩ | ⟨_, _, heq⟩
    · rw [heq]
      exact (ih active).cons (fun w hw => hw) (fun w hw => .inl hw) ⟨v, hv, hend⟩ (.inr rfl)
    · rw [heq]
      refine (ih (active.insert window)).cons ?_ ?_ (exists_key_insert active window)
        (.inl ⟨rfl, hnone⟩)
      · intro w hw
        exact mem_insert.mpr (.inl hw)
      · intro w hw
        rcases mem_insert.mp hw with hw | ⟨hw, -⟩
        · exact .inl hw
        · exact .inr hw
    · rw [heq]
      have hrest := ih active
      refine ⟨hrest.keep, ?_, ?_, hrest.fresh⟩
      · intro w hw
        rcases hrest.new w hw with h | h
        · exact .inl h
        · exact .inr (mem_cons_of_mem window h)
      · intro x hx
        rcases hrest.sent x hx with ⟨w, hw, hop⟩
        exact ⟨w, mem_cons_of_mem window hw, hop⟩

/-- What an assignment does, for both kinds of managers. -/
theorem assignWindows_spec (m : AlignedWindowManager) (msg : Message) :
    Assigned m.activeWindows (m.assignWindows msg).1.activeWindows (m.windowsOf msg) msg
      (m.assignWindows msg).2 := by
  cases m with
  | sliding m => exact assigned_collect m.maxDeletedWindowEndTime msg _ m.activeWindows
  | fixed m =>
    have hnil : ∀ active : WindowSet, Assigned active active [] msg [] := fun active =>
      ⟨fun w hw => hw, fun w hw => .inl hw, by simp, List.Pairwise.nil⟩
    by_cases hcontains : m.activeWindows.contains (m.createWindow msg) = true
    · have heq : m.assignWindows msg = (m, [appendMessage msg (m.createWindow msg)]) :=
        if_pos hcontains
      simp only [assignWindows, heq]
      exact (hnil m.activeWindows).cons (fun w hw => hw) (fun w hw => .inl hw)
        (contains_iff.mp hcontains) (.inr rfl)
    · have heq : m.assignWindows msg =
          ({ m with activeWindows := m.activeWindows.insert (m.createWindow msg) },
            [openMessage msg (m.createWindow msg)]) := if_neg hcontains
      have hnone : ∀ v ∈ m.activeWindows, v.endTime ≠ (m.createWindow msg).endTime := by
        intro v hv hend
        exact hcontains (contains_iff.mpr ⟨v, hv, hend⟩)
      simp only [assignWindows, heq]
      refine (hnil (m.activeWindows.insert (m.createWindow msg))).cons ?_ ?_
        (exists_key_insert m.activeWindows (m.createWindow msg)) (.inl ⟨rfl, hnone⟩)
      · intro w hw
        exact mem_insert.mpr (.inl hw)
      · intro w hw
        rcases mem_insert.mp hw with hw | ⟨hw, -⟩
        · exact .inl hw
        · exact .inr hw

/-! ## Closing, deleting and the oldest window -/

theorem closeWindows_eq (m : AlignedWindowManager) (watermark : Int) :
    (m.closeWindows watermark).1.activeWindows =
        (closeExpired m.activeWindows m.closedWindows watermark).1 ∧
      (m.closeWindows watermark).1.closedWindows =
        (closeExpired m.activeWindows m.closedWindows watermark).2.1 ∧
      (m.closeWindows watermark).2 =
        (closeExpired m.activeWindows m.closedWindows watermark).2.2.map closeMessage := by
  cases m <;> exact ⟨rfl, rfl, rfl⟩

/-- Closing keeps the windows that end after the watermark active. -/
theorem mem_active_closeWindows :
    w ∈ (m.closeWindows watermark).1.activeWindows ↔
      w ∈ m.activeWindows ∧ watermark < w.endTime := by
  rw [(closeWindows_eq m watermark).1]
  exact mem_closeExpired_active

/-- A window is closed when it was closed before or has expired. -/
theorem mem_closed_closeWindows (hw : w ∈ (m.closeWindows watermark).1.closedWindows) :
    w ∈ m.closedWindows ∨ (w ∈ m.activeWindows ∧ w.endTime ≤ watermark) := by
  rw [(closeWindows_eq m watermark).2.1] at hw
  exact mem_closeExpired_closed hw

/-- Closing keeps the closed windows. -/
theorem closed_subset_closeWindows (hw : w ∈ m.closedWindows) :
    w ∈ (m.closeWindows watermark).1.closedWindows := by
  rw [(closeWindows_eq m watermark).2.1]
  exact mem_extend_of_mem hw

/-- For every expired window a window with its end time is closed. -/
theorem exists_closed_closeWindows (hw : w ∈ m.activeWindows) (hle : w.endTime ≤ watermark) :
    ∃ v ∈ (m.closeWindows watermark).1.closedWindows, v.endTime = w.endTime := by
  rw [(closeWindows_eq m watermark).2.1]
  apply exists_key_extend
  exact List.mem_filter.mpr ⟨hw, decide_eq_true hle⟩

/-- The close messages, in the order of the end times. -/
theorem closeWindows_messages :
    (m.closeWindows watermark).2 =
      (m.activeWindows.toList.filter fun w => decide (w.endTime ≤ watermark)).map
        closeMessage := by
  rw [(closeWindows_eq m watermark).2.2, closeExpired_windows]

@[simp]
theorem gcWindow_active : (m.gcWindow w).activeWindows = m.activeWindows := by
  cases m <;> rfl

@[simp]
theorem gcWindow_closed : (m.gcWindow w).closedWindows = m.closedWindows.remove w := by
  cases m <;> rfl

theorem oldestWindow_eq (m : AlignedWindowManager) :
    m.oldestWindow = oldestOf m.closedWindows m.activeWindows := by
  cases m <;> rfl

/-- The oldest window is kept by the manager and, when no closed window ends after
an active one, no kept window ends before it. -/
theorem oldestWindow_least
    (horder : ∀ c ∈ m.closedWindows, ∀ a ∈ m.activeWindows, c.endTime ≤ a.endTime)
    (hw : m.oldestWindow = some w) :
    (w ∈ m.activeWindows ∨ w ∈ m.closedWindows) ∧
      ∀ v, v ∈ m.activeWindows ∨ v ∈ m.closedWindows → w.endTime ≤ v.endTime := by
  rw [oldestWindow_eq, oldestOf] at hw
  cases hfirst : m.closedWindows.first with
  | some =>
    rw [hfirst] at hw
    cases hw
    have hc := first_mem hfirst
    refine ⟨.inr hc, ?_⟩
    intro v hv
    rcases hv with hv | hv
    · exact horder w hc v hv
    · exact first_le hfirst hv
  | none =>
    rw [hfirst] at hw
    have hempty := first_eq_none.mp hfirst
    refine ⟨.inl (first_mem hw), ?_⟩
    intro v hv
    rcases hv with hv | hv
    · exact first_le hw hv
    · exact absurd hv (hempty v)

/-- There is no oldest window only when no window is kept. -/
theorem oldestWindow_none (hnone : m.oldestWindow = none) (v : Window) :
    v ∉ m.activeWindows ∧ v ∉ m.closedWindows := by
  rw [oldestWindow_eq, oldestOf] at hnone
  cases hfirst : m.closedWindows.first with
  | some =>
    rw [hfirst] at hnone
    cases hnone
  | none =>
    rw [hfirst] at hnone
    exact ⟨first_eq_none.mp hnone v, first_eq_none.mp hfirst v⟩

end AlignedWindowManager
end Numaflow.Aligned
