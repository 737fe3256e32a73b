import Numaflow.Message
import Numaflow.Lib.OrdSet
import Numaflow.Lib.Overlap

/-!
# Unaligned windows

Unaligned windows belong to a key vector.  Their order compares the end time
only, so a `WindowSet` identifies two windows that end at the same time,
whatever their start time and keys are.
-/

namespace Numaflow.Unaligned

open Lib List

/-- Slot shared by all unaligned windows of a vertex. -/
def sharedPnfSlot : String := "GLOBAL_SLOT"

/-- A keyed window `[startTime, endTime)`. -/
structure Window where
  startTime : Int
  endTime : Int
  keys : List String
deriving DecidableEq, Repr

/-- Windows sorted by the order of the source, which is the end time. -/
abbrev WindowSet := OrdSet Window.endTime

/-- The operations that the SDK performs on keyed windows. -/
inductive UnalignedWindowOperation where
  | openOp (message : Message) (window : Window)
  | closeOp (window : Window)
  | appendOp (message : Message) (window : Window)
  | mergeOp (windows : List Window)
  | expandOp (message : Message) (windows : List Window)
deriving DecidableEq, Repr

/-- An operation together with the slot it is sent on. -/
structure UnalignedWindowMessage where
  operation : UnalignedWindowOperation
  pnfSlot : String
deriving DecidableEq, Repr

/-- All operations of unaligned windows travel on the shared slot. -/
def onSharedSlot (operation : UnalignedWindowOperation) : UnalignedWindowMessage :=
  ⟨operation, sharedPnfSlot⟩

@[simp]
theorem onSharedSlot_operation (operation : UnalignedWindowOperation) :
    (onSharedSlot operation).operation = operation :=
  rfl

/-- A call that changes the windows of a manager.  The managers visit hash maps in
an unspecified order, which is an argument of `close`. -/
inductive WindowCall where
  | assign (msg : Message)
  | close (order : List String) (watermark : Int)
  | delete (window : Window)
deriving DecidableEq, Repr

/-- The window that an operation closes. -/
def closedWindow (msg : UnalignedWindowMessage) : List Window :=
  match msg.operation with
  | .closeOp window => [window]
  | _ => []

/-- The windows that a list of operations closes. -/
def closedBy (msgs : List UnalignedWindowMessage) : List Window :=
  msgs.flatMap closedWindow

theorem foldl_closedWindow (windows : List Window) (msgs : List UnalignedWindowMessage) :
    msgs.foldl (fun acc msg => acc ++ closedWindow msg) windows = windows ++ closedBy msgs := by
  induction msgs generalizing windows with
  | nil => simp [closedBy]
  | cons _ _ ih => simp [ih, closedBy, append_assoc]

/-- Combine the keys into a single string for use as a map key. -/
def combineKeys (keys : List String) : String :=
  ":".intercalate keys

section

variable (v w : Window)

/-- Two windows share a point in time. -/
def Window.Meets : Prop :=
  Overlaps v.startTime v.endTime w.startTime w.endTime
deriving Decidable

/-- A window that contains a point in time. -/
def Window.Proper (w : Window) : Prop :=
  w.startTime < w.endTime

/-- The smallest window around two windows, with the keys of the first. -/
def Window.span : Window :=
  ⟨min v.startTime w.startTime, max v.endTime w.endTime, v.keys⟩

@[simp]
theorem Window.span_startTime : (v.span w).startTime = min v.startTime w.startTime :=
  rfl

@[simp]
theorem Window.span_endTime : (v.span w).endTime = max v.endTime w.endTime :=
  rfl

@[simp]
theorem Window.span_keys : (v.span w).keys = v.keys :=
  rfl

end

/-- The span of a group of windows, with the keys of its first window. -/
def hull : List Window → Window
  | [] => ⟨0, 0, []⟩
  | first :: rest => rest.foldl Window.span first

@[simp]
theorem hull_singleton (w : Window) : hull [w] = w :=
  rfl

variable {group : List Window} {w : Window}

theorem hull_append_singleton (hne : group ≠ []) (w : Window) :
    hull (group ++ [w]) = (hull group).span w := by
  cases group with
  | nil => exact absurd rfl hne
  | cons => simp [hull]

open Window

theorem foldl_span_bounds (acc : Window) (ws : List Window) :
    (ws.foldl span acc).startTime ≤ acc.startTime ∧ acc.endTime ≤ (ws.foldl span acc).endTime ∧
      ∀ w ∈ ws, (ws.foldl span acc).startTime ≤ w.startTime ∧
        w.endTime ≤ (ws.foldl span acc).endTime := by
  induction ws generalizing acc with
  | nil => simp
  | cons v _ ih =>
    rcases ih (acc.span v) with ⟨hstart, hend, hmem⟩
    simp only [span_startTime, span_endTime, le_min_iff, max_le_iff] at hstart hend
    refine ⟨hstart.1, hend.1, ?_⟩
    intro w hw
    rcases mem_cons.mp hw with rfl | hw
    · exact ⟨hstart.2, hend.2⟩
    · exact hmem w hw

/-- Every window of a group lies within its span. -/
theorem hull_bounds (hw : w ∈ group) :
    (hull group).startTime ≤ w.startTime ∧ w.endTime ≤ (hull group).endTime := by
  cases group with
  | nil => simp at hw
  | cons first rest =>
    rcases foldl_span_bounds first rest with ⟨hstart, hend, hmem⟩
    rcases mem_cons.mp hw with rfl | hw
    · exact ⟨hstart, hend⟩
    · exact hmem w hw

variable {t : Int} {acc : Window} {ws : List Window}

/-- A time before the starts of all windows is before the start of their span. -/
theorem le_hull_startTime (hne : group ≠ []) (h : ∀ w ∈ group, t ≤ w.startTime) :
    t ≤ (hull group).startTime := by
  cases group with
  | nil => exact absurd rfl hne
  | cons first rest =>
    have hfold : ∀ (ws : List Window) (acc : Window), t ≤ acc.startTime →
        (∀ w ∈ ws, t ≤ w.startTime) → t ≤ (ws.foldl span acc).startTime := by
      intro ws
      induction ws with
      | nil => exact fun acc hacc _ => hacc
      | cons v _ ih =>
        intro acc hacc hws
        apply ih
        · exact le_min hacc (hws v mem_cons_self)
        · exact fun w hw => hws w (mem_cons_of_mem v hw)
    exact hfold rest first (h first mem_cons_self) fun w hw => h w (mem_cons_of_mem first hw)

/-- The span of a group ends where one of its windows ends. -/
theorem exists_hull_endTime (hne : group ≠ []) : ∃ w ∈ group, w.endTime = (hull group).endTime := by
  cases group with
  | nil => exact absurd rfl hne
  | cons first rest =>
    have hattained : ∀ (ws : List Window) (acc : Window),
        (ws.foldl span acc).endTime = acc.endTime ∨
          ∃ w ∈ ws, w.endTime = (ws.foldl span acc).endTime := by
      intro ws
      induction ws with
      | nil =>
        intro acc
        exact .inl rfl
      | cons v _ ih =>
        intro acc
        rw [foldl_cons]
        rcases ih (acc.span v) with hacc | ⟨w, hw, hend⟩
        · rw [hacc]
          rcases max_choice acc.endTime v.endTime with hmax | hmax
          · exact .inl hmax
          · exact .inr ⟨v, mem_cons_self, hmax.symm⟩
        · exact .inr ⟨w, mem_cons_of_mem v hw, hend⟩
    rcases hattained rest first with hfirst | ⟨w, hw, hend⟩
    · exact ⟨first, mem_cons_self, hfirst.symm⟩
    · exact ⟨w, mem_cons_of_mem first hw, hend⟩

/-- The span of a group carries the keys of its first window. -/
theorem exists_hull_keys (hne : group ≠ []) : ∃ w ∈ group, (hull group).keys = w.keys := by
  cases group with
  | nil => exact absurd rfl hne
  | cons first rest =>
    refine ⟨first, mem_cons_self, ?_⟩
    have hkeys : ∀ (ws : List Window) (acc : Window), (ws.foldl span acc).keys = acc.keys := by
      intro ws
      induction ws with
      | nil => exact fun _ => rfl
      | cons v _ ih => exact fun acc => ih (acc.span v)
    exact hkeys rest first

/-- The windows after `acc` overlap, one by one, the span of all before. -/
def ChainFrom (acc : Window) : List Window → Prop
  | [] => True
  | w :: ws => acc.Meets w ∧ ChainFrom (acc.span w) ws

/-- A nonempty group in which every window overlaps the span of those before. -/
def Chained : List Window → Prop
  | [] => False
  | first :: rest => ChainFrom first rest

theorem chained_singleton (w : Window) : Chained [w] :=
  trivial

theorem ChainFrom.append_singleton (h : ChainFrom acc ws) (hw : (ws.foldl span acc).Meets w) :
    ChainFrom acc (ws ++ [w]) := by
  induction ws generalizing acc with
  | nil => exact ⟨hw, trivial⟩
  | cons v _ ih => exact ⟨h.1, ih h.2 hw⟩

theorem Chained.append_singleton (h : Chained group) (hw : (hull group).Meets w) :
    Chained (group ++ [w]) := by
  cases group with
  | nil => exact absurd h id
  | cons => exact ChainFrom.append_singleton h hw

theorem Chained.ne_nil (h : Chained group) : group ≠ [] := by
  rintro rfl
  exact h

end Numaflow.Unaligned
