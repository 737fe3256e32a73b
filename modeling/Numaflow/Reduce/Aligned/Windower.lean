import Numaflow.Lib.OrdSet
import Numaflow.Lib.Text
import Numaflow.Reduce.Wal.Segment

/-!
# Aligned windows

Aligned windows depend on the event time only.  Fixed windows tile the time
axis, sliding windows overlap.  Both managers keep the active and the closed
windows in sets ordered by the end time, and share how windows are closed and how
the oldest one is found.

Main results: `FixedWindowManager.createWindow_holds`,
`SlidingWindowManager.mem_createWindows`.
-/

namespace Numaflow.Aligned

open Lib Wal

/-- A window `[startTime, endTime)`. -/
structure Window where
  startTime : Int
  endTime : Int
deriving DecidableEq, Repr

/-- Windows sorted by the order of the source, which is the end time. -/
abbrev WindowSet := OrdSet Window.endTime

/-- Window operations, derived from the message and the window kind. -/
inductive AlignedWindowOperation where
  | openOp (message : Message) (window : Window)
  | closeOp (window : Window)
  | appendOp (message : Message) (window : Window)
deriving DecidableEq, Repr

namespace AlignedWindowOperation

/-- The window of an operation. -/
def window : AlignedWindowOperation → Window
  | .openOp _ window => window
  | .closeOp window => window
  | .appendOp _ window => window

/-- The message that an operation carries. -/
def message : AlignedWindowOperation → Option Message
  | .openOp message _ => some message
  | .closeOp _ => none
  | .appendOp message _ => some message

/-- The operation opens its window. -/
def IsOpen : AlignedWindowOperation → Prop
  | .openOp _ _ => True
  | _ => False

end AlignedWindowOperation

/-- An operation together with the slot it is sent on. -/
structure AlignedWindowMessage where
  operation : AlignedWindowOperation
  pnfSlot : String
deriving DecidableEq, Repr

/-- The slot of a window, its unique identifier. -/
def windowToPnfSlot (window : Window) : String :=
  toString (timestampMillis window.startTime) ++ "-" ++ toString (timestampMillis window.endTime)

/-- Open a window with its first message. -/
def openMessage (message : Message) (window : Window) : AlignedWindowMessage :=
  ⟨.openOp message window, windowToPnfSlot window⟩

/-- Append a message to a window. -/
def appendMessage (message : Message) (window : Window) : AlignedWindowMessage :=
  ⟨.appendOp message window, windowToPnfSlot window⟩

/-- Close a window. -/
def closeMessage (window : Window) : AlignedWindowMessage :=
  ⟨.closeOp window, windowToPnfSlot window⟩

/-- The largest multiple of the duration that is not after the timestamp. -/
def truncateToDuration (timestampMillis durationMillis : Int) : Int :=
  timestampMillis - timestampMillis % durationMillis

/-- The GC event of a window. -/
def Window.gcEvent (window : Window) : GcEvent :=
  ⟨some (prostTimestampFromUtc window.startTime), some (prostTimestampFromUtc window.endTime), []⟩

section

variable (startMillis endMillis : Int)

/-- The window between two points in time given in milliseconds. -/
def millisWindow : Window :=
  ⟨fromTimestampMillis startMillis, fromTimestampMillis endMillis⟩

@[simp]
theorem millisWindow_startTime :
    (millisWindow startMillis endMillis).startTime = fromTimestampMillis startMillis :=
  rfl

@[simp]
theorem millisWindow_endTime :
    (millisWindow startMillis endMillis).endTime = fromTimestampMillis endMillis :=
  rfl

end

variable {startMillis endMillis startMillis' endMillis' watermark : Int} {msg : Message}
  {active closed : WindowSet} {w : Window}

/-- Windows with millisecond boundaries have different slots. -/
theorem windowToPnfSlot_inj (h : windowToPnfSlot (millisWindow startMillis endMillis) =
      windowToPnfSlot (millisWindow startMillis' endMillis')) :
    millisWindow startMillis endMillis = millisWindow startMillis' endMillis' := by
  rcases toString_dash_inj h with ⟨hstart, hend⟩
  simp only [millisWindow_startTime, millisWindow_endTime, timestampMillis_fromTimestampMillis]
    at hstart hend
  rw [hstart, hend]

/-- The event time of the message lies in the window. -/
def Window.Holds (window : Window) (msg : Message) : Prop :=
  window.startTime ≤ msg.eventTime ∧ msg.eventTime < window.endTime

/-- A window that contains the truncated event time contains the event time. -/
theorem millisWindow_holds (hstart : startMillis ≤ timestampMillis msg.eventTime)
    (hend : timestampMillis msg.eventTime < endMillis) :
    (millisWindow startMillis endMillis).Holds msg := by
  rcases millis_floor msg.eventTime with ⟨hfloor, hceil⟩
  unfold Window.Holds
  rw [millisWindow_startTime, millisWindow_endTime]
  unfold fromTimestampMillis at *
  constructor
  · omega
  · omega

/-! ## What both managers share -/

/-- Take the windows that end at or before the watermark out of the active ones
and add them to the closed ones. -/
def closeExpired (active closed : WindowSet) (watermark : Int) :
    WindowSet × WindowSet × List Window :=
  let extracted := active.extractIf fun window => decide (window.endTime ≤ watermark)
  (extracted.2, closed.extend extracted.1, extracted.1)

/-- The oldest window yet to be completed: the oldest closed one or, when there
are none, the oldest active one. -/
def oldestOf (closed active : WindowSet) : Option Window :=
  match closed.first with
  | some window => some window
  | none => active.first

theorem mem_closeExpired_active :
    w ∈ (closeExpired active closed watermark).1 ↔ w ∈ active ∧ watermark < w.endTime := by
  simp [closeExpired, OrdSet.mem_extractIf_snd]

theorem closeExpired_windows (active closed : WindowSet) (watermark : Int) :
    (closeExpired active closed watermark).2.2 =
      active.toList.filter fun w => decide (w.endTime ≤ watermark) :=
  OrdSet.extractIf_fst active _

/-- A window is closed when it was closed before or has expired. -/
theorem mem_closeExpired_closed (hw : w ∈ (closeExpired active closed watermark).2.1) :
    w ∈ closed ∨ (w ∈ active ∧ w.endTime ≤ watermark) := by
  rcases OrdSet.mem_of_mem_extend hw with h | h
  · exact .inl h
  · rw [OrdSet.extractIf_fst] at h
    exact .inr (by simpa using h)

/-! ## Fixed windows -/

/-- State of the fixed window manager. -/
structure FixedWindowManager where
  windowLength : Nat
  activeWindows : WindowSet
  closedWindows : WindowSet

namespace FixedWindowManager

/-- A manager without windows. -/
def new (windowLength : Nat) : FixedWindowManager :=
  ⟨windowLength, OrdSet.empty, OrdSet.empty⟩

section

variable (m : FixedWindowManager)

/-- The window of a message. -/
def createWindow (msg : Message) : Window :=
  let windowLengthMillis := asMillis m.windowLength
  let startTimeMillis := truncateToDuration (timestampMillis msg.eventTime) windowLengthMillis
  millisWindow startTimeMillis (startTimeMillis + windowLengthMillis)

/-- Assign a message to its window. -/
def assignWindows (msg : Message) :
    FixedWindowManager × List AlignedWindowMessage :=
  let window := m.createWindow msg
  if m.activeWindows.contains window then
    (m, [appendMessage msg window])
  else
    ({ m with activeWindows := m.activeWindows.insert window }, [openMessage msg window])

/-- Close the windows that the watermark has passed. -/
def closeWindows (watermark : Int) :
    FixedWindowManager × List AlignedWindowMessage :=
  let closed := closeExpired m.activeWindows m.closedWindows watermark
  ({ m with activeWindows := closed.1, closedWindows := closed.2.1 },
    closed.2.2.map closeMessage)

/-- Delete a window after it is closed and GC is done. -/
def gcWindow (window : Window) : FixedWindowManager :=
  { m with closedWindows := m.closedWindows.remove window }

/-- The oldest window yet to be completed. -/
def oldestWindow : Option Window :=
  oldestOf m.closedWindows m.activeWindows

end

/-- The window of a message contains its event time. -/
theorem createWindow_holds {m : FixedWindowManager} (hlength : 1000000 ≤ m.windowLength)
    (msg : Message) : (m.createWindow msg).Holds msg := by
  have hpos : 0 < asMillis m.windowLength := by
    unfold asMillis
    omega
  have hnonneg := Int.emod_nonneg (timestampMillis msg.eventTime) hpos.ne'
  have hlt := Int.emod_lt_of_pos (timestampMillis msg.eventTime) hpos
  apply millisWindow_holds
  · unfold truncateToDuration
    omega
  · unfold truncateToDuration
    omega

end FixedWindowManager

/-! ## Sliding windows -/

/-- State of the sliding window manager. -/
structure SlidingWindowManager where
  windowLength : Nat
  slide : Nat
  activeWindows : WindowSet
  closedWindows : WindowSet
  maxDeletedWindowEndTime : Int

namespace SlidingWindowManager

/-- A manager without windows. -/
def new (windowLength slide : Nat) : SlidingWindowManager :=
  ⟨windowLength, slide, OrdSet.empty, OrdSet.empty, -1⟩

/-- The windows that contain the event time, from `currentStart` backwards. -/
def windowsFrom (lengthMillis slideMillis eventTimeMillis : Int) : Nat → Int → List Window
  | 0, _ => []
  | fuel + 1, currentStart =>
    if currentStart ≤ eventTimeMillis ∧ eventTimeMillis < currentStart + lengthMillis then
      millisWindow currentStart (currentStart + lengthMillis) ::
        windowsFrom lengthMillis slideMillis eventTimeMillis fuel (currentStart - slideMillis)
    else []

section

variable (m : SlidingWindowManager)

/-- The windows of a message.  Every round of the loop moves the end at least one
millisecond towards the event time, so the length bounds the number of rounds. -/
def createWindows (msg : Message) : List Window :=
  let lengthMillis := asMillis m.windowLength
  let slideMillis := asMillis m.slide
  let eventTimeMillis := timestampMillis msg.eventTime
  windowsFrom lengthMillis slideMillis eventTimeMillis lengthMillis.toNat
    (truncateToDuration eventTimeMillis slideMillis)

/-- Append to a window that exists, or open it unless it may have been deleted. -/
def assignWindow (maxDeletedWindowEndTime : Int) (msg : Message) (active : WindowSet)
    (window : Window) : WindowSet × List AlignedWindowMessage :=
  if active.contains window then
    (active, [appendMessage msg window])
  else if maxDeletedWindowEndTime < timestampMillis window.endTime then
    (active.insert window, [openMessage msg window])
  else (active, [])

/-- Assign a message to its windows. -/
def assignWindows (msg : Message) :
    SlidingWindowManager × List AlignedWindowMessage :=
  let assigned := collect (assignWindow m.maxDeletedWindowEndTime msg) m.activeWindows
    (m.createWindows msg)
  ({ m with activeWindows := assigned.1 }, assigned.2)

/-- Close the windows that the watermark has passed. -/
def closeWindows (watermark : Int) :
    SlidingWindowManager × List AlignedWindowMessage :=
  let closed := closeExpired m.activeWindows m.closedWindows watermark
  ({ m with activeWindows := closed.1, closedWindows := closed.2.1 },
    closed.2.2.map closeMessage)

/-- Delete a window after it is closed and GC is done, and remember the latest end
of the deleted windows. -/
def gcWindow (window : Window) : SlidingWindowManager :=
  { m with
    closedWindows := m.closedWindows.remove window
    maxDeletedWindowEndTime := max m.maxDeletedWindowEndTime (timestampMillis window.endTime) }

/-- The oldest window yet to be completed. -/
def oldestWindow : Option Window :=
  oldestOf m.closedWindows m.activeWindows

end

variable {lengthMillis slideMillis eventTimeMillis currentStart : Int} {fuel : Nat}

/-- The windows of the loop contain the event time and have the window length. -/
theorem mem_windowsFrom
    (hw : w ∈ windowsFrom lengthMillis slideMillis eventTimeMillis fuel currentStart) :
    ∃ i : Nat, w = millisWindow (currentStart - i * slideMillis)
        (currentStart - i * slideMillis + lengthMillis) ∧
      currentStart - i * slideMillis ≤ eventTimeMillis ∧
      eventTimeMillis < currentStart - i * slideMillis + lengthMillis := by
  induction fuel generalizing currentStart with
  | zero => exact absurd hw List.not_mem_nil
  | succ _ ih =>
    unfold windowsFrom at hw
    by_cases hin : currentStart ≤ eventTimeMillis ∧ eventTimeMillis < currentStart + lengthMillis
    · rw [if_pos hin] at hw
      rcases List.mem_cons.mp hw with rfl | hw
      · exact ⟨0, by simp, by simpa using hin.1, by simpa using hin.2⟩
      · rcases ih hw with ⟨i, heq, hstart, hend⟩
        have hshift : currentStart - slideMillis - i * slideMillis =
            currentStart - ((i + 1 : Nat) : Int) * slideMillis := by
          push_cast
          ring
        rw [hshift] at heq hstart hend
        exact ⟨i + 1, heq, hstart, hend⟩
    · rw [if_neg hin] at hw
      exact absurd hw List.not_mem_nil

/-- Every window of the grid that contains the event time is reached before the
fuel is used up. -/
theorem windowsFrom_complete
    (hslide : 0 < slideMillis) (hstart : currentStart ≤ eventTimeMillis)
    (hfuel : currentStart + lengthMillis - eventTimeMillis ≤ fuel) {i : Nat}
    (hi : eventTimeMillis < currentStart - i * slideMillis + lengthMillis) :
    millisWindow (currentStart - i * slideMillis) (currentStart - i * slideMillis + lengthMillis) ∈
      windowsFrom lengthMillis slideMillis eventTimeMillis fuel currentStart := by
  have hmul : 0 ≤ (i : Int) * slideMillis := by positivity
  induction fuel generalizing currentStart i with
  | zero =>
    exfalso
    push_cast at hfuel
    omega
  | succ _ ih =>
    have hin : currentStart ≤ eventTimeMillis ∧
        eventTimeMillis < currentStart + lengthMillis := ⟨hstart, by omega⟩
    unfold windowsFrom
    rw [if_pos hin]
    cases i with
    | zero => simp
    | succ i =>
      have hshift : currentStart - ((i + 1 : Nat) : Int) * slideMillis =
          currentStart - slideMillis - i * slideMillis := by
        push_cast
        ring
      rw [hshift] at hi ⊢
      refine List.mem_cons_of_mem _ (ih (by omega) ?_ hi (by positivity))
      push_cast at hfuel
      omega

/-- A message gets exactly the windows on the grid of the slide that contain its
event time. -/
theorem mem_createWindows {m : SlidingWindowManager} (hslide : 1000000 ≤ m.slide) :
    w ∈ m.createWindows msg ↔ ∃ k : Int, w = millisWindow (k * asMillis m.slide)
          (k * asMillis m.slide + asMillis m.windowLength) ∧
        k * asMillis m.slide ≤ timestampMillis msg.eventTime ∧
        timestampMillis msg.eventTime < k * asMillis m.slide + asMillis m.windowLength := by
  have hpos : 0 < asMillis m.slide := by
    unfold asMillis
    omega
  have htrunc : truncateToDuration (timestampMillis msg.eventTime) (asMillis m.slide) =
      timestampMillis msg.eventTime / asMillis m.slide * asMillis m.slide := by
    have := Int.ediv_mul_add_emod (timestampMillis msg.eventTime) (asMillis m.slide)
    unfold truncateToDuration
    omega
  have hgrid : ∀ i : Int, timestampMillis msg.eventTime / asMillis m.slide * asMillis m.slide -
      i * asMillis m.slide =
        (timestampMillis msg.eventTime / asMillis m.slide - i) * asMillis m.slide := by
    intro i
    ring
  unfold createWindows
  simp only [htrunc]
  constructor
  · intro hw
    rcases mem_windowsFrom hw with ⟨i, heq, hstart, hend⟩
    rw [hgrid] at heq hstart hend
    exact ⟨_, heq, hstart, hend⟩
  · intro hw
    rcases hw with ⟨k, rfl, hstart, hend⟩
    have hk := (Int.le_ediv_iff_mul_le hpos).mpr hstart
    -- the window is reached after as many rounds as it lies before the last one
    have hk' : k * asMillis m.slide =
        timestampMillis msg.eventTime / asMillis m.slide * asMillis m.slide -
          ((timestampMillis msg.eventTime / asMillis m.slide - k).toNat : Int) *
            asMillis m.slide := by
      rw [hgrid]
      congr 1
      omega
    have hfloor := Int.ediv_mul_le (timestampMillis msg.eventTime) hpos.ne'
    rw [hk'] at hend ⊢
    apply windowsFrom_complete hpos hfloor
    · omega
    · exact hend

end SlidingWindowManager
end Numaflow.Aligned
