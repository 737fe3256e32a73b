import Numaflow.Lib.HashMap
import Numaflow.Lib.Run
import Numaflow.Reduce.Unaligned.Windower

/-!
# Accumulator window manager

Every combined key has at most one active accumulator window and at most one
closed one.  A window keeps the timestamps of its messages until they are
deleted, and the oldest timestamp over all windows bounds the watermark.

When a window is closed while an earlier instance of its key is still among the
closed windows, the earlier instance is overwritten together with its pending
timestamps.

Main results: `Mirrors.step`, `oldest_is_live_min`.
-/

namespace Numaflow.Unaligned

open Lib HashMap OrdSet

/-- Timestamps in ascending order. -/
abbrev TimestampSet := OrdSet (id : Int → Int)

/-- The latest point in time of the source's date type. -/
def maxUtc : Int := 8210266876799999999999

/-- State of an accumulator window. -/
structure WindowState where
  window : Window
  messageTimestamps : TimestampSet
  maxEventTime : Int

namespace WindowState

/-- A window without messages. -/
def new (window : Window) : WindowState :=
  ⟨window, OrdSet.empty, fromTimestampMillis 0⟩

section

variable (state : WindowState)

/-- Add the event time of a message. -/
def appendTimestamp (eventTime : Int) : WindowState :=
  { state with
    messageTimestamps := state.messageTimestamps.insert eventTime
    maxEventTime := if state.maxEventTime < eventTime then eventTime else state.maxEventTime }

/-- Delete the event times before the given end time. -/
def deleteTimestampsBefore (endTime : Int) : WindowState :=
  { state with
    messageTimestamps := state.messageTimestamps.filter fun ts => decide (endTime ≤ ts) }

/-- No timestamps are left. -/
def drained : Bool :=
  state.messageTimestamps.toList.isEmpty

/-- The oldest timestamp of the window. -/
def oldestTimestamp : Option Int :=
  state.messageTimestamps.first

end

end WindowState

/-- State of the accumulator window manager. -/
structure AccumulatorWindowManager where
  timeout : Nat
  activeWindows : HashMap String WindowState
  closedWindows : HashMap String WindowState

open WindowState

namespace AccumulatorWindowManager

/-- A manager without windows. -/
def new (timeout : Nat) : AccumulatorWindowManager :=
  ⟨timeout, ∅, ∅⟩

section

variable (m : AccumulatorWindowManager)

/-- Assign a message to the window of its key. -/
def assignWindows (msg : Message) :
    AccumulatorWindowManager × List UnalignedWindowMessage :=
  let combinedKey := combineKeys msg.keys
  match m.activeWindows.lookup combinedKey with
  | some state =>
    ({ m with activeWindows :=
        m.activeWindows.insert combinedKey (state.appendTimestamp msg.eventTime) },
      [onSharedSlot (.appendOp msg state.window)])
  | none =>
    let window : Window := ⟨msg.eventTime, maxUtc, msg.keys⟩
    let state := (WindowState.new window).appendTimestamp msg.eventTime
    ({ m with activeWindows := m.activeWindows.insert combinedKey state },
      [onSharedSlot (.openOp msg window)])

/-- The window has been inactive for longer than the timeout. -/
def expired (timeout : Nat) (watermark : Int) (state : WindowState) : Bool :=
  decide (state.maxEventTime + timeout < watermark)

/-- The active windows that expire. -/
def expiredWindows (watermark : Int) :
    HashMap String WindowState :=
  HashMap.filterMapVal
    (fun state => if expired m.timeout watermark state then some state else none)
    m.activeWindows

/-- The window of a close request, which carries the actual end time. -/
def closeWindow (timeout : Nat) (state : WindowState) : Window :=
  ⟨state.window.startTime, state.maxEventTime + timeout, state.window.keys⟩

/-- Close the windows that have been inactive for longer than the timeout; the
expired windows are visited in an unspecified order. -/
def closeWindows (order : List String) (watermark : Int) :
    AccumulatorWindowManager × List UnalignedWindowMessage :=
  let entries := HashMap.iterIn order (m.expiredWindows watermark)
  ({ m with
      activeWindows := HashMap.filterMapVal
        (fun state => if expired m.timeout watermark state then none else some state)
        m.activeWindows
      closedWindows := HashMap.insertAll m.closedWindows entries },
    entries.map fun e => onSharedSlot (.closeOp (closeWindow m.timeout e.2)))

/-- Delete the timestamps before the end of the window from both instances of its
key; a closed instance without timestamps is removed. -/
def deleteWindow (window : Window) : AccumulatorWindowManager :=
  let combinedKey := combineKeys window.keys
  { m with
    activeWindows :=
      match m.activeWindows.lookup combinedKey with
      | some state =>
        m.activeWindows.insert combinedKey (state.deleteTimestampsBefore window.endTime)
      | none => m.activeWindows
    closedWindows :=
      match m.closedWindows.lookup combinedKey with
      | some state =>
        let state := state.deleteTimestampsBefore window.endTime
        if state.drained then m.closedWindows.erase combinedKey
        else m.closedWindows.insert combinedKey state
      | none => m.closedWindows }

/-- The oldest event time over all active and closed windows. -/
def oldestWindowEndTime : Option Int :=
  ((HashMap.values m.activeWindows ++ HashMap.values m.closedWindows).filterMap
    WindowState.oldestTimestamp).min?

/-! ## The timestamps of a key -/

/-- The timestamps stored under a combined key. -/
def timestampsOf (windows : HashMap String WindowState) (key : String) : TimestampSet :=
  (windows.lookup key).elim OrdSet.empty WindowState.messageTimestamps

/-- A timestamp that one of the two instances of a key keeps. -/
def Keeps (key : String) (t : Int) : Prop :=
  t ∈ timestampsOf m.activeWindows key ∨ t ∈ timestampsOf m.closedWindows key

end

theorem timestampsOf_insert_self (windows : HashMap String WindowState) (key : String)
    (state : WindowState) :
    timestampsOf (windows.insert key state) key = state.messageTimestamps := by
  simp [timestampsOf]

variable {windows : HashMap String WindowState} {key key' : String} {t eventTime watermark : Int}
  {m : AccumulatorWindowManager} {state : WindowState} {msg : Message} {order : List String}

theorem timestampsOf_insert_ne (hne : key' ≠ key) (state : WindowState) :
    timestampsOf (windows.insert key state) key' = timestampsOf windows key' := by
  simp [timestampsOf, AList.lookup_insert_ne hne]

theorem timestampsOf_of_lookup (h : windows.lookup key = some state) :
    timestampsOf windows key = state.messageTimestamps := by
  simp [timestampsOf, h]

theorem timestampsOf_of_none (h : windows.lookup key = none) :
    timestampsOf windows key = empty := by
  simp [timestampsOf, h]

theorem mem_appendTimestamp :
    t ∈ (state.appendTimestamp eventTime).messageTimestamps ↔
      t ∈ state.messageTimestamps ∨ t = eventTime := by
  unfold appendTimestamp
  simp only [mem_insert, id_eq]
  constructor
  · intro h
    rcases h with h | ⟨h, -⟩
    · exact .inl h
    · exact .inr h
  · intro h
    rcases h with h | h
    · exact .inl h
    · by_cases hmem : t ∈ state.messageTimestamps
      · exact .inl hmem
      · refine .inr ⟨h, ?_⟩
        intro b hb heq
        rw [heq, ← h] at hb
        exact hmem hb

/-- Assigning a message adds its event time to the active window of its key. -/
theorem mem_timestampsOf_assign : t ∈ timestampsOf (m.assignWindows msg).1.activeWindows key ↔
      t ∈ timestampsOf m.activeWindows key ∨ (key = combineKeys msg.keys ∧ t = msg.eventTime) := by
  unfold assignWindows
  by_cases hkey : key = combineKeys msg.keys
  · subst hkey
    cases hlook : m.activeWindows.lookup (combineKeys msg.keys) with
    | none =>
      simp only [hlook, timestampsOf_insert_self, mem_appendTimestamp, timestampsOf_of_none hlook]
      simp [WindowState.new]
    | some =>
      simp only [hlook, timestampsOf_insert_self, mem_appendTimestamp,
        timestampsOf_of_lookup hlook, true_and]
  · cases hlook : m.activeWindows.lookup (combineKeys msg.keys) with
    | none | some => simp [hlook, timestampsOf_insert_ne hkey, hkey]

theorem keeps_assignWindows : (m.assignWindows msg).1.Keeps key t ↔
      m.Keeps key t ∨ (key = combineKeys msg.keys ∧ t = msg.eventTime) := by
  have hclosed : (m.assignWindows msg).1.closedWindows = m.closedWindows := by
    unfold assignWindows
    cases hlook : m.activeWindows.lookup (combineKeys msg.keys) <;> simp only [hlook]
  unfold Keeps
  rw [mem_timestampsOf_assign, hclosed]
  tauto

/-- The windows that expire do not overwrite a pending timestamp: what an earlier
closed instance of a key still keeps, the expiring instance keeps as well. -/
def NoOverwrite (m : AccumulatorWindowManager) (watermark : Int) : Prop :=
  ∀ e ∈ (m.expiredWindows watermark).entries,
    ∀ t ∈ (timestampsOf m.closedWindows e.1).toList, t ∈ e.2.messageTimestamps.toList
deriving Decidable

/-- Closing windows moves timestamps between the instances of a key. -/
theorem keeps_closeWindows (hkeep : m.NoOverwrite watermark) :
    (m.closeWindows order watermark).1.Keeps key t ↔ m.Keeps key t := by
  have hlookup : (m.expiredWindows watermark).lookup key = (m.activeWindows.lookup key).bind
        fun state => if expired m.timeout watermark state then some state else none :=
    lookup_filterMapVal _ _ _
  have hactive : (m.closeWindows order watermark).1.activeWindows.lookup key =
      (m.activeWindows.lookup key).bind
        fun state => if expired m.timeout watermark state then none else some state :=
    lookup_filterMapVal _ _ _
  -- a key that does not expire keeps both of its instances
  have hstay : (m.expiredWindows watermark).lookup key = none →
      (m.closeWindows order watermark).1.closedWindows.lookup key = m.closedWindows.lookup key := by
    intro hnone
    apply lookup_insertAll_of_not_mem
    intro e he heq
    have hlook := AList.mem_lookup_iff.mpr (mem_iterIn.mp he)
    rw [heq, hnone] at hlook
    cases hlook
  unfold Keeps
  cases hlook : m.activeWindows.lookup key with
  | none =>
    rw [hlook] at hlookup hactive
    simp [timestampsOf, hstay hlookup, hactive, hlook]
  | some state =>
    rw [hlook, Option.bind_some] at hlookup hactive
    by_cases hexp : expired m.timeout watermark state = true
    · rw [if_pos hexp] at hlookup hactive
      have hentry := AList.mem_lookup_iff.mp hlookup
      have hclosed : (m.closeWindows order watermark).1.closedWindows.lookup key =
          some state :=
        lookup_insertAll_of_mem (e := ⟨key, state⟩) (pairwise_iterIn _ _) (mem_iterIn.mpr hentry)
      rw [timestampsOf_of_none hactive, timestampsOf_of_lookup hclosed,
        timestampsOf_of_lookup hlook]
      have hsub := hkeep ⟨key, state⟩ hentry t
      simp only [not_mem_empty, false_or]
      constructor
      · exact .inl
      · intro h
        rcases h with h | h
        · exact h
        · exact hsub h
    · rw [if_neg hexp] at hlookup hactive
      simp [timestampsOf, hstay hlookup, hactive, hlook]

/-- Deleting a window keeps the timestamps of other keys and those at or after
its end. -/
theorem keeps_deleteWindow {window : Window} : (m.deleteWindow window).Keeps key t ↔
      m.Keeps key t ∧ (key = combineKeys window.keys → window.endTime ≤ t) := by
  have hactive : t ∈ timestampsOf (m.deleteWindow window).activeWindows key ↔
      t ∈ timestampsOf m.activeWindows key ∧
        (key = combineKeys window.keys → window.endTime ≤ t) := by
    unfold deleteWindow
    by_cases hkey : key = combineKeys window.keys
    · subst hkey
      cases hlook : m.activeWindows.lookup (combineKeys window.keys) with
      | none => simp [hlook, timestampsOf_of_none hlook]
      | some =>
        simp only [hlook, timestampsOf_insert_self, timestampsOf_of_lookup hlook]
        simp [deleteTimestampsBefore]
    · cases hlook : m.activeWindows.lookup (combineKeys window.keys) with
      | none => simp [hlook, hkey]
      | some => simp [hlook, timestampsOf_insert_ne hkey, hkey]
  have hclosed : t ∈ timestampsOf (m.deleteWindow window).closedWindows key ↔
      t ∈ timestampsOf m.closedWindows key ∧
        (key = combineKeys window.keys → window.endTime ≤ t) := by
    unfold deleteWindow
    by_cases hkey : key = combineKeys window.keys
    · subst hkey
      cases hlook : m.closedWindows.lookup (combineKeys window.keys) with
      | none => simp [hlook, timestampsOf_of_none hlook]
      | some state =>
        simp only [hlook, timestampsOf_of_lookup hlook]
        split_ifs with hdrained
        · -- a drained instance keeps no timestamp at or after the end
          have hnone : ∀ t, t ∉
              (state.deleteTimestampsBefore window.endTime).messageTimestamps := by
            intro t ht
            rw [drained, List.isEmpty_iff] at hdrained
            rw [← mem_toList, hdrained] at ht
            exact absurd ht List.not_mem_nil
          have hgone := hnone t
          simp only [deleteTimestampsBefore, mem_filter, decide_eq_true_eq] at hgone
          simp only [timestampsOf, AList.lookup_erase, Option.elim_none,
            not_mem_empty, false_iff, forall_const]
          exact hgone
        · simp only [timestampsOf_insert_self]
          simp [deleteTimestampsBefore]
    · cases hlook : m.closedWindows.lookup (combineKeys window.keys) with
      | none => simp [hlook, hkey]
      | some =>
        simp only [hlook]
        split_ifs with hdrained
        · simp [timestampsOf, AList.lookup_erase_ne hkey, hkey]
        · simp [timestampsOf_insert_ne hkey, hkey]
  unfold Keeps
  rw [hactive]
  tauto

/-- Lists with a common lower part have the same minimum. -/
theorem min?_eq_of_mem_of_le {l l' : List Int} (hmem : ∀ x ∈ l, x ∈ l')
    (hle : ∀ y ∈ l', ∃ x ∈ l, x ≤ y) : l.min? = l'.min? := by
  cases hmin : l.min? with
  | none =>
    rw [List.min?_eq_none_iff] at hmin
    subst hmin
    have hnil : l' = [] := by
      rw [List.eq_nil_iff_forall_not_mem]
      intro y hy
      rcases hle y hy with ⟨x, hx, -⟩
      exact absurd hx List.not_mem_nil
    rw [hnil]
    rfl
  | some a =>
    rcases List.min?_eq_some_iff.mp hmin with ⟨ha, hbound⟩
    symm
    apply List.min?_eq_some_iff.mpr
    refine ⟨hmem a ha, ?_⟩
    intro y hy
    rcases hle y hy with ⟨x, hx, hxy⟩
    exact (hbound x hx).trans hxy

theorem exists_mem_timestampsOf : (∃ key, t ∈ timestampsOf windows key) ↔
    ∃ state ∈ values windows, t ∈ state.messageTimestamps := by
  constructor
  · rintro ⟨key, ht⟩
    cases hlook : windows.lookup key with
    | none =>
      rw [timestampsOf_of_none hlook] at ht
      exact absurd ht (not_mem_empty t)
    | some state =>
      rw [timestampsOf_of_lookup hlook] at ht
      exact ⟨state, mem_values.mpr ⟨key, hlook⟩, ht⟩
  · rintro ⟨state, hmem, ht⟩
    obtain ⟨key, hlook⟩ := mem_values.mp hmem
    refine ⟨key, ?_⟩
    rw [timestampsOf_of_lookup hlook]
    exact ht

/-- The reported time is the least kept timestamp. -/
theorem oldestWindowEndTime_eq_min {live : List Int} (hlive : ∀ t, t ∈ live ↔ ∃ key, m.Keeps key t) :
    m.oldestWindowEndTime = live.min? := by
  have hstate : ∀ t, t ∈ live ↔ ∃ state ∈ values m.activeWindows ++ values m.closedWindows,
      t ∈ state.messageTimestamps := by
    intro t
    simp only [hlive, Keeps, exists_or, exists_mem_timestampsOf, List.mem_append, or_and_right]
  apply min?_eq_of_mem_of_le
  · intro x hx
    rcases List.mem_filterMap.mp hx with ⟨state, hmem, hfirst⟩
    exact (hstate x).mpr ⟨state, hmem, first_mem hfirst⟩
  · intro y hy
    rcases (hstate y).mp hy with ⟨state, hmem, hy⟩
    cases hfirst : state.messageTimestamps.first with
    | none => exact absurd hy (first_eq_none.mp hfirst y)
    | some x => exact ⟨x, List.mem_filterMap.mpr ⟨state, hmem, hfirst⟩, first_le hfirst hy⟩

end AccumulatorWindowManager

/-! ## Runs -/

open AccumulatorWindowManager

/-- The manager with the messages that are not deleted: those assigned since the
last deletion of their key with an end time after their event time. -/
structure AccumulatorRun where
  manager : AccumulatorWindowManager
  live : List Message
  last : Option Int

namespace AccumulatorRun

/-- Nothing has been assigned yet. -/
def init (timeout : Nat) : AccumulatorRun :=
  ⟨AccumulatorWindowManager.new timeout, [], none⟩

/-- A deletion of the window covers the message. -/
def covers (window : Window) (msg : Message) : Prop :=
  msg.keys = window.keys ∧ msg.eventTime < window.endTime
deriving Decidable

section

variable (s : AccumulatorRun)

/-- Perform a call. -/
def step : WindowCall → AccumulatorRun
  | .assign msg =>
    { s with manager := (s.manager.assignWindows msg).1, live := s.live ++ [msg] }
  | .close order watermark =>
    { s with manager := (s.manager.closeWindows order watermark).1, last := some watermark }
  | .delete window =>
    { s with
      manager := s.manager.deleteWindow window
      live := s.live.filter fun msg => decide (¬ covers window msg) }

/-- Watermarks do not decrease. -/
def Legal : WindowCall → Prop
  | .close _ watermark => ∀ l ∈ s.last, l ≤ watermark
  | _ => True

/-- No pending timestamp is overwritten, and a deletion meets no pending message
of another key vector with the same combined key. -/
def Clear : WindowCall → Prop
  | .assign _ => True
  | .close _ watermark => s.manager.NoOverwrite watermark
  | .delete window => ∀ msg ∈ s.live, combineKeys msg.keys = combineKeys window.keys →
      msg.eventTime < window.endTime → msg.keys = window.keys

/-- The reported time is the least event time of the messages not deleted. -/
def ReportsLive : Prop :=
  s.manager.oldestWindowEndTime = (s.live.map Message.eventTime).min?
deriving Decidable

instance (s : AccumulatorRun) : (c : WindowCall) → Decidable (s.Legal c) := fun _ => by
  unfold Legal
  split <;> infer_instance

instance (s : AccumulatorRun) : (c : WindowCall) → Decidable (s.Clear c) := fun _ => by
  unfold Clear
  split <;> infer_instance

/-- The kept timestamps are those of the messages that are not deleted. -/
def Mirrors : Prop :=
  ∀ key t, s.manager.Keeps key t ↔
    ∃ msg ∈ s.live, combineKeys msg.keys = key ∧ msg.eventTime = t

end

theorem Mirrors.init (timeout : Nat) : (init timeout).Mirrors := by
  intro key t
  simp [AccumulatorRun.init, AccumulatorWindowManager.new, Keeps, timestampsOf]

/-- A call keeps the timestamps of the messages that are not deleted. -/
theorem Mirrors.step {s : AccumulatorRun} (c : WindowCall) (h : s.Mirrors)
    (hclear : s.Clear c) : (s.step c).Mirrors := by
  intro key t
  cases c with
  | assign msg =>
    have hkeeps := h key t
    simp only [AccumulatorRun.step, keeps_assignWindows, hkeeps]
    constructor
    · intro hmem
      rcases hmem with ⟨n, hn, hkey, ht⟩ | ⟨hkey, ht⟩
      · exact ⟨n, List.mem_append_left _ hn, hkey, ht⟩
      · exact ⟨msg, by simp, hkey.symm, ht.symm⟩
    · intro hmem
      rcases hmem with ⟨n, hn, hkey, ht⟩
      rcases List.mem_append.mp hn with hn | hn
      · exact .inl ⟨n, hn, hkey, ht⟩
      · rw [List.mem_singleton] at hn
        subst hn
        exact .inr ⟨hkey.symm, ht.symm⟩
  | close =>
    simp only [AccumulatorRun.step, keeps_closeWindows hclear]
    exact h key t
  | delete window =>
    have hkeeps := h key t
    simp only [AccumulatorRun.step, keeps_deleteWindow, hkeeps]
    constructor
    · intro hmem
      rcases hmem with ⟨⟨n, hn, hkey, ht⟩, hend⟩
      refine ⟨n, List.mem_filter.mpr ⟨hn, ?_⟩, hkey, ht⟩
      apply decide_eq_true
      intro hcovers
      have hle := hend (by rw [← hkey, hcovers.1])
      have hlt := hcovers.2
      omega
    · intro hmem
      rcases hmem with ⟨n, hn, hkey, ht⟩
      rcases List.mem_filter.mp hn with ⟨hn, hcovers⟩
      refine ⟨⟨n, hn, hkey, ht⟩, ?_⟩
      intro hwindow
      -- a message before the end would have the key vector of the window
      by_contra hlt
      apply of_decide_eq_true hcovers
      have hbefore : n.eventTime < window.endTime := by omega
      exact ⟨hclear n hn (hkey.trans hwindow) hbefore, hbefore⟩

/-- The reported time is the least event time of the messages that are not
deleted, in every state of a run that overwrites no pending timestamp and whose
deletions meet no message of another key vector. -/
theorem oldest_is_live_min {timeout : Nat} {calls : List WindowCall}
    (hrun : Along (fun s c => s.Legal c ∧ s.Clear c) step (init timeout) calls) :
    (exec step (init timeout) calls).ReportsLive := by
  have hmirrors := exec_invariant (I := Mirrors) (fun s c h hok => h.step c hok.2)
    (Mirrors.init timeout) hrun
  apply oldestWindowEndTime_eq_min
  intro t
  simp only [hmirrors _ t, List.mem_map]
  constructor
  · intro h
    rcases h with ⟨n, hn, ht⟩
    exact ⟨combineKeys n.keys, n, hn, rfl, ht⟩
  · intro h
    rcases h with ⟨_, n, hn, -, ht⟩
    exact ⟨n, hn, ht⟩

/-- A key that is closed, deleted in part, opened again and closed again after
its first instance was deleted. -/
def reopenedCalls : List WindowCall :=
  [.assign { keys := ["a"], eventTime := 5000000 },
    .assign { keys := ["b"], eventTime := 7000000 },
    .close [] 16000000,
    .assign { keys := ["a"], eventTime := 30000000 },
    .delete ⟨5000000, 15000000, ["a"]⟩,
    .close ["b"] 50000000]

theorem reopenedCalls_reportsLive : (exec step (init 10000000) reopenedCalls).ReportsLive :=
  oldest_is_live_min (by decide)

/-- A key that is closed, opened again and closed again before its first instance
is deleted. -/
def overwrittenCalls : List WindowCall :=
  [.assign { keys := ["a"], eventTime := 5000000 },
    .close [] 20000000,
    .assign { keys := ["a"], eventTime := 30000000 },
    .close [] 50000000]

/-- The timestamp of the first instance is pending and not reported. -/
theorem overwrittenCalls_not_reportsLive : Along Legal step (init 10000000) overwrittenCalls ∧
      ¬ (exec step (init 10000000) overwrittenCalls).ReportsLive := by
  decide

end AccumulatorRun
end Numaflow.Unaligned
