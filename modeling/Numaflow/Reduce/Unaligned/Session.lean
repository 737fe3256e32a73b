import Numaflow.Lib.HashMap
import Numaflow.Lib.Run
import Numaflow.Reduce.Unaligned.Windower

/-!
# Session window manager

The manager keeps, for every combined key, the set of active session windows
and, for all keys together, the set of windows that were closed and not yet
collected.  Both kinds of set are ordered by the end time of the windows.

The hash map of expired windows is visited in an unspecified order; the order
is the argument `order` of `closeWindows`.

Main results: `mem_groups`, `groups_chained`, `groups_apart`,
`mergeable_groups`.
-/

namespace Numaflow.Unaligned

open Lib OrdSet

/-- Active session windows for every key combination. -/
abbrev ActiveWindowStore := HashMap String WindowSet

/-- State of the session window manager. -/
structure SessionWindowManager where
  timeout : Nat
  activeWindows : ActiveWindowStore
  closedWindows : WindowSet

namespace SessionWindowManager

/-- A manager without windows. -/
def new (timeout : Nat) : SessionWindowManager :=
  ⟨timeout, ∅, OrdSet.empty⟩

/-- The active windows of a combined key; a missing entry is an empty set. -/
def activeOf (active : ActiveWindowStore) (key : String) : WindowSet :=
  (active.lookup key).getD OrdSet.empty

/-- Store the active windows of a combined key. -/
def setActive (m : SessionWindowManager) (key : String) (windowSet : WindowSet) :
    SessionWindowManager :=
  { m with activeWindows := m.activeWindows.insert key windowSet }

section

variable (m : SessionWindowManager)

section

variable (key : String) (windowSet : WindowSet)

@[simp]
theorem setActive_activeWindows :
    (m.setActive key windowSet).activeWindows = m.activeWindows.insert key windowSet :=
  rfl

@[simp]
theorem setActive_closedWindows : (m.setActive key windowSet).closedWindows = m.closedWindows :=
  rfl

@[simp]
theorem setActive_timeout : (m.setActive key windowSet).timeout = m.timeout :=
  rfl

end

end

/-- The window of a single message, truncated to milliseconds. -/
def newWindow (timeout : Nat) (msg : Message) : Window :=
  let startTimeMillis := timestampMillis msg.eventTime
  ⟨fromTimestampMillis startTimeMillis,
    fromTimestampMillis (startTimeMillis + asMillis timeout), msg.keys⟩

/-- The first window of the set, by end time, that overlaps the given window. -/
def findWindowToMerge (windowSet : WindowSet) (window : Window) : Option Window :=
  windowSet.toList.find? fun existing => decide (window.Meets existing)

/-- The window that accommodates both, unless the windows do not overlap or the
new one is contained in the existing one. -/
def expandWindowIfNeeded (newWindow existingWindow : Window) : Option Window :=
  if ¬ newWindow.Meets existingWindow then none
  else if existingWindow.startTime ≤ newWindow.startTime ∧
      newWindow.endTime ≤ existingWindow.endTime then none
  else some (newWindow.span existingWindow)

section

variable (m : SessionWindowManager)

/-- Assign a message to a session window of its key. -/
def assignWindows (msg : Message) :
    SessionWindowManager × List UnalignedWindowMessage :=
  let combinedKey := combineKeys msg.keys
  let window := newWindow m.timeout msg
  let windowSet := activeOf m.activeWindows combinedKey
  match findWindowToMerge windowSet window with
  | some existing =>
    match expandWindowIfNeeded window existing with
    | some expanded =>
      (m.setActive combinedKey ((windowSet.remove existing).insert expanded),
        [onSharedSlot (.expandOp msg [existing, expanded])])
    | none =>
      (m.setActive combinedKey windowSet, [onSharedSlot (.appendOp msg existing)])
  | none =>
    (m.setActive combinedKey (windowSet.insert window),
      [onSharedSlot (.openOp msg window)])

/-! ## Closing windows -/

/-- Take the windows that end at or before the watermark out of every set and
drop the keys that have no window left. -/
def extractExpiredWindows (all : ActiveWindowStore) (watermark : Int) :
    ActiveWindowStore × HashMap String (List Window) :=
  let expired : Window → Bool := fun window => decide (window.endTime ≤ watermark)
  (HashMap.filterMapVal (fun windowSet =>
      let rest := (windowSet.extractIf expired).2
      if rest.toList = [] then none else some rest) all,
    HashMap.filterMapVal (fun windowSet =>
      let taken := (windowSet.extractIf expired).1
      if taken = [] then none else some taken) all)

/-- Grow the current group downwards through windows of descending end time;
`last` is the span of the group. -/
def groupFrom (last : Window) (group : List Window) : List Window → List (List Window)
  | [] => [group]
  | window :: windows =>
    if last.startTime < window.endTime then
      groupFrom (last.span window) (group ++ [window]) windows
    else
      group :: groupFrom window [window] windows

/-- Group windows that can be merged together.  The windows are sorted by
ascending end time. -/
def windowsThatCanBeMerged (windows : List Window) : List (List Window) :=
  match windows.reverse with
  | [] => []
  | window :: rest => (groupFrom window [window] rest).reverse

/-- Merge multiple windows into a single window. -/
def mergeWindows (first : Window) (rest : List Window) :
    Window × UnalignedWindowMessage :=
  let bounds := (first :: rest).foldl
    (fun acc window => (min acc.1 window.startTime, max acc.2 window.endTime))
    (first.startTime, first.endTime)
  (⟨bounds.1, bounds.2, first.keys⟩, onSharedSlot (.mergeOp (first :: rest)))

/-- Try to merge a window with an active window during the close operation. -/
def tryMergeWithActive (active : ActiveWindowStore) (key : String) (window : Window) :
    Option (ActiveWindowStore × Window × Window) := do
  let windowSet ← active.lookup key
  let activeWindow ← findWindowToMerge windowSet window
  let newMerged := window.span activeWindow
  let windowSet := (windowSet.remove activeWindow).insert newMerged
  return (active.insert key windowSet, activeWindow, newMerged)

/-- Move a window to the closed windows. -/
def moveToClosedWindows (window : Window) :
    SessionWindowManager :=
  { m with closedWindows := m.closedWindows.insert window }

/-- Merge one closing window into an active window, or close it. -/
def closeMergedWindow (key : String) (window : Window) :
    SessionWindowManager × UnalignedWindowMessage :=
  match tryMergeWithActive m.activeWindows key window with
  | some (active, oldActive, _) =>
    ({ m with activeWindows := active }, onSharedSlot (.mergeOp [window, oldActive]))
  | none => (m.moveToClosedWindows window, onSharedSlot (.closeOp window))

/-- Process one group of closing windows: merge them first, then attempt to
merge with an active window. -/
def processCloseWindowGroup (key : String) (m : SessionWindowManager) :
    List Window → SessionWindowManager × List UnalignedWindowMessage
  | [] => (m, [])
  | [window] =>
    let closed := m.closeMergedWindow key window
    (closed.1, [closed.2])
  | first :: rest =>
    let merged := mergeWindows first rest
    let closed := m.closeMergedWindow key merged.1
    (closed.1, [merged.2, closed.2])

/-- Process the closing windows of one key, group by group. -/
def processClosedWindows (entry : Σ _ : String, List Window) :
    SessionWindowManager × List UnalignedWindowMessage :=
  collect (processCloseWindowGroup entry.1) m (windowsThatCanBeMerged entry.2)

/-- Close the windows that the watermark has passed, merging overlapping ones. -/
def closeWindows (order : List String) (watermark : Int) :
    SessionWindowManager × List UnalignedWindowMessage :=
  let extracted := extractExpiredWindows m.activeWindows watermark
  collect processClosedWindows { m with activeWindows := extracted.1 }
    (HashMap.iterIn order extracted.2)

/-- Delete a window from the closed windows after garbage collection. -/
def deleteWindow (window : Window) : SessionWindowManager :=
  { m with closedWindows := m.closedWindows.remove window }

/-- The end time of the oldest window among the closed windows or, when there
are none, among the active windows. -/
def oldestWindowEndTime : Option Int :=
  match m.closedWindows.first with
  | some window => some window.endTime
  | none =>
    ((HashMap.values m.activeWindows).filterMap fun windowSet =>
      windowSet.first.map Window.endTime).min?

end

/-! ## Lookup of active windows -/

@[simp]
theorem activeOf_insert_self (active : ActiveWindowStore) (key : String)
    (windowSet : WindowSet) : activeOf (active.insert key windowSet) key = windowSet := by
  simp [activeOf]

variable {key key' : String} {P : String → Window → Prop} {m : SessionWindowManager}
  {windowSet : WindowSet} {window last existing w : Window} {watermark : Int}
  {windows group : List Window} {active all : ActiveWindowStore} {order : List String}

theorem activeOf_insert_ne (hne : key' ≠ key) (windowSet : WindowSet) :
    activeOf (active.insert key windowSet) key' = activeOf active key' := by
  simp [activeOf, AList.lookup_insert_ne hne]

section

variable (h : ∀ key, ∀ w ∈ activeOf m.activeWindows key, P key w)

include h

/-- What holds of the active windows and of a new set for one key holds of all active windows
after the set is stored. -/
theorem forall_active_setActive (hset : ∀ w ∈ windowSet, P key w) :
    ∀ key', ∀ w ∈ activeOf (m.setActive key windowSet).activeWindows key', P key' w := by
  intro key' w hw
  by_cases hkey : key' = key
  · subst hkey
    rw [setActive_activeWindows, activeOf_insert_self] at hw
    exact hset w hw
  · rw [setActive_activeWindows, activeOf_insert_ne hkey] at hw
    exact h key' w hw

/-- The same when one of the windows is exchanged for another one. -/
theorem forall_active_exchange {old new : Window} (hnew : P key new) :
    ∀ key', ∀ w ∈ activeOf (m.setActive key
      (((activeOf m.activeWindows key).remove old).insert new)).activeWindows key', P key' w := by
  refine forall_active_setActive h fun w hw => ?_
  rcases mem_insert.mp hw with hw | ⟨rfl, -⟩
  · exact h key w (mem_remove.mp hw).1
  · exact hnew

end

/-- The found window is stored, overlaps, and ends first among those that do. -/
theorem findWindowToMerge_some (h : findWindowToMerge windowSet window = some existing) :
    existing ∈ windowSet ∧ window.Meets existing ∧
      ∀ other ∈ windowSet, window.Meets other → existing.endTime ≤ other.endTime := by
  rw [findWindowToMerge, List.find?_eq_some_iff_append] at h
  obtain ⟨hmeets, before, after, hlist, hbefore⟩ := h
  have hmem : existing ∈ windowSet := by
    rw [← mem_toList, hlist]
    simp
  refine ⟨hmem, of_decide_eq_true hmeets, ?_⟩
  intro other hother hother'
  have hsorted := windowSet.sorted
  rw [← mem_toList, hlist] at hother
  rw [hlist, List.pairwise_append, List.pairwise_cons] at hsorted
  rcases List.mem_append.mp hother with h | h
  · have := hbefore other h
    simp [hother'] at this
  · rcases List.mem_cons.mp h with rfl | h
    · exact le_rfl
    · exact (hsorted.2.1.1 other h).le

theorem findWindowToMerge_none : findWindowToMerge windowSet window = none ↔
      ∀ other ∈ windowSet, ¬ window.Meets other := by
  simp [findWindowToMerge]

/-! ## Expired windows -/

/-- Extraction keeps exactly the active windows that end after the watermark. -/
theorem mem_activeOf_extract : window ∈ activeOf (extractExpiredWindows all watermark).1 key ↔
      window ∈ activeOf all key ∧ watermark < window.endTime := by
  unfold activeOf extractExpiredWindows
  simp only [HashMap.lookup_filterMapVal]
  cases hlook : all.lookup key with
  | none => simp
  | some windowSet =>
    simp only [Option.bind_some, Option.getD_some]
    split_ifs with hempty
    · simp only [Option.getD_none, not_mem_empty, false_iff]
      intro hmem
      have hrest : window ∈ (windowSet.extractIf fun w => decide (w.endTime ≤ watermark)).2 := by
        simpa [mem_extractIf_snd] using hmem
      rw [← mem_toList, hempty] at hrest
      exact absurd hrest List.not_mem_nil
    · simp [mem_extractIf_snd]

/-- The expired windows of a key are its active windows that end at or before
the watermark, in ascending order. -/
theorem mem_extract_iff : (⟨key, windows⟩ : Σ _ : String, List Window) ∈
        (extractExpiredWindows all watermark).2.entries ↔
      windows ≠ [] ∧
        windows = (activeOf all key).toList.filter fun w => decide (w.endTime ≤ watermark) := by
  unfold activeOf extractExpiredWindows
  simp only [HashMap.mem_entries_filterMapVal]
  constructor
  · rintro ⟨windowSet, hmem, htaken⟩
    have hlook := AList.mem_lookup_iff.mpr hmem
    split_ifs at htaken with hempty
    rw [Option.some.injEq] at htaken
    subst htaken
    refine ⟨hempty, ?_⟩
    rw [hlook]
    rfl
  · rintro ⟨hne, hwindows⟩
    cases hlook : all.lookup key with
    | none =>
      rw [hlook] at hwindows
      exact absurd hwindows hne
    | some windowSet =>
      rw [hlook, Option.getD_some] at hwindows
      refine ⟨windowSet, AList.mem_lookup_iff.mp hlook, ?_⟩
      rw [hwindows, ← extractIf_fst] at hne
      rw [if_neg hne, hwindows, extractIf_fst]

/-! ## Merge groups -/

theorem flatten_groupFrom (last : Window) (group windows : List Window) :
    (groupFrom last group windows).flatten = group ++ windows := by
  induction windows generalizing last group with
  | nil => simp [groupFrom]
  | cons _ _ ih =>
    unfold groupFrom
    split_ifs with hlt
    · rw [ih]
      simp
    · simp [ih]

/-- Windows of descending end time, none of which ends after `last`. -/
def Descending (last : Window) (windows : List Window) : Prop :=
  (∀ w ∈ windows, w.endTime ≤ last.endTime) ∧
    windows.Pairwise fun v w => w.endTime ≤ v.endTime

theorem Descending.tail (h : Descending last (window :: windows)) :
    Descending window windows ∧ Descending (last.span window) windows := by
  obtain ⟨hle, hsorted⟩ := h
  rw [List.pairwise_cons] at hsorted
  refine ⟨⟨hsorted.1, hsorted.2⟩, ⟨?_, hsorted.2⟩⟩
  intro w hw
  have := hle w (List.mem_cons_of_mem window hw)
  simp only [Window.span_endTime]
  omega

/-- What holds of single windows, and is kept when a window joins a group whose span it overlaps,
holds of all groups. -/
theorem groupFrom_induction {P : List Window → Prop} (hsingle : ∀ w, w.Proper → P [w])
    (hjoin : ∀ group w, group ≠ [] → P group → w.Proper → w.Meets (hull group) → P (group ++ [w]))
    (hne : group ≠ []) (hgroup : P group) (hlast : hull group = last)
    (hproper : ∀ w ∈ windows, w.Proper) (hdesc : Descending last windows) :
    ∀ g ∈ groupFrom last group windows, P g := by
  induction windows generalizing last group with
  | nil =>
    intro g hg
    simp only [groupFrom, List.mem_singleton] at hg
    subst hg
    exact hgroup
  | cons window _ ih =>
    obtain ⟨hwindow, hproper⟩ := List.forall_mem_cons.mp hproper
    have hend := hdesc.1 window List.mem_cons_self
    unfold groupFrom
    split_ifs with hlt
    · refine ih (by simp) (hjoin group window hne hgroup hwindow ?_) ?_ hproper hdesc.tail.2
      · rw [hlast]
        exact ⟨lt_of_lt_of_le hwindow hend, hlt⟩
      · rw [hull_append_singleton hne, hlast]
    · intro g hg
      rcases List.mem_cons.mp hg with rfl | hg
      · exact hgroup
      · exact ih (List.cons_ne_nil window []) (hsingle window hwindow) (hull_singleton window) hproper
          hdesc.tail.1 g hg

theorem groupFrom_endTime_le (hgroup : group ≠ []) (hlast : hull group = last)
    (hdesc : Descending last windows) :
    ∀ g ∈ groupFrom last group windows, (hull g).endTime ≤ last.endTime := by
  induction windows generalizing last group with
  | nil =>
    intro g hg
    simp only [groupFrom, List.mem_singleton] at hg
    subst hg
    rw [hlast]
  | cons window _ ih =>
    have hend := hdesc.1 window List.mem_cons_self
    unfold groupFrom
    split_ifs with hlt
    · intro g hg
      have hle := ih (by simp) (by rw [hull_append_singleton hgroup, hlast]) hdesc.tail.2 g hg
      rw [Window.span_endTime, max_eq_left hend] at hle
      exact hle
    · intro g hg
      rcases List.mem_cons.mp hg with rfl | hg
      · rw [hlast]
      · have hle := ih (List.cons_ne_nil window []) (hull_singleton window) hdesc.tail.1 g hg
        exact hle.trans hend

theorem groupFrom_apart (hgroup : group ≠ []) (hlast : hull group = last)
    (hdesc : Descending last windows) : (groupFrom last group windows).Pairwise
      fun g g' => (hull g').endTime ≤ (hull g).startTime := by
  induction windows generalizing last group with
  | nil => simp [groupFrom]
  | cons window _ ih =>
    unfold groupFrom
    split_ifs with hlt
    · exact ih (by simp) (by rw [hull_append_singleton hgroup, hlast]) hdesc.tail.2
    · rw [List.pairwise_cons]
      refine ⟨?_, ih (List.cons_ne_nil window []) (hull_singleton window) hdesc.tail.1⟩
      intro g hg
      rw [hlast]
      -- the next group ends where its first window ends, at or before this span
      have hend := groupFrom_endTime_le (List.cons_ne_nil window [])
        (hull_singleton window) hdesc.tail.1 g hg
      exact hend.trans (not_lt.mp hlt)

section

variable (hsorted : windows.Pairwise fun v w => v.endTime ≤ w.endTime)

include hsorted

variable {rest : List Window}

/-- The windows of a list sorted by ascending end time, seen from the back. -/
theorem descending_reverse (hrev : windows.reverse = window :: rest) : Descending window rest := by
  have hdesc := List.pairwise_reverse.mpr hsorted
  rw [hrev, List.pairwise_cons] at hdesc
  exact hdesc

omit hsorted in
/-- The merge groups hold the windows of the list, each as often as the list does. -/
theorem perm_groups (windows : List Window) :
    (windowsThatCanBeMerged windows).flatten.Perm windows := by
  unfold windowsThatCanBeMerged
  split
  · rename_i hrev
    rw [List.reverse_eq_nil_iff.mp hrev]
    exact List.Perm.nil
  · rename_i window rest hrev
    have hflat : (groupFrom window [window] rest).flatten = windows.reverse := by
      rw [flatten_groupFrom, hrev]
      rfl
    have hperm := (List.reverse_perm (groupFrom window [window] rest)).flatten
    rw [hflat] at hperm
    exact hperm.trans (List.reverse_perm windows)

omit hsorted in
/-- The merge groups hold exactly the windows of the list. -/
theorem mem_groups : w ∈ (windowsThatCanBeMerged windows).flatten ↔ w ∈ windows :=
  (perm_groups windows).mem_iff

theorem groups_induction {P : List Window → Prop}
    (hproper : ∀ w ∈ windows, w.Proper) (hsingle : ∀ w, w.Proper → P [w])
    (hjoin : ∀ group w, group ≠ [] → P group → w.Proper → w.Meets (hull group) → P (group ++ [w])) :
    ∀ g ∈ windowsThatCanBeMerged windows, P g := by
  unfold windowsThatCanBeMerged
  split
  · simp
  · rename_i window rest hrev
    intro g hg
    have hall : ∀ w ∈ window :: rest, w.Proper := by
      intro w hw
      rw [← hrev, List.mem_reverse] at hw
      exact hproper w hw
    obtain ⟨hwindow, hrest⟩ := List.forall_mem_cons.mp hall
    exact groupFrom_induction hsingle hjoin (List.cons_ne_nil window []) (hsingle window hwindow)
      (hull_singleton window) hrest (descending_reverse hsorted hrev) g (List.mem_reverse.mp hg)

/-- Every merge group is a chain of overlapping windows. -/
theorem groups_chained
    (hproper : ∀ w ∈ windows, w.Proper) : ∀ g ∈ windowsThatCanBeMerged windows, Chained g :=
  groups_induction hsorted hproper (fun w _ => chained_singleton w)
    fun _ _ _ hgroup _ hmeets => hgroup.append_singleton hmeets.symm

/-- The spans of the merge groups are disjoint and in ascending order. -/
theorem groups_apart : (windowsThatCanBeMerged windows).Pairwise
      fun g g' => (hull g).endTime ≤ (hull g').startTime := by
  unfold windowsThatCanBeMerged
  split
  · exact List.Pairwise.nil
  · rename_i window rest hrev
    exact List.pairwise_reverse.mpr
      (groupFrom_apart (List.cons_ne_nil window []) (hull_singleton window)
        (descending_reverse hsorted hrev))

end

/-- Merging a group yields its span. -/
theorem mergeWindows_fst (first : Window) (rest : List Window) :
    (mergeWindows first rest).1 = hull (first :: rest) := by
  have hfold : ∀ (ws : List Window) (w : Window),
      (⟨(ws.foldl (fun acc v => (min acc.1 v.startTime, max acc.2 v.endTime))
          (w.startTime, w.endTime)).1,
        (ws.foldl (fun acc v => (min acc.1 v.startTime, max acc.2 v.endTime))
          (w.startTime, w.endTime)).2, w.keys⟩ : Window) = ws.foldl Window.span w := by
    intro ws
    induction ws with
    | nil => intro w; rfl
    | cons v _ ih => intro w; exact ih (w.span v)
  simp only [mergeWindows, List.foldl_cons, min_self, max_self, hull]
  exact hfold rest first

/-- A group is merged, if it has several windows, and its span is closed. -/
theorem processCloseWindowGroup_eq (key : String) (m : SessionWindowManager) (hne : group ≠ []) :
    processCloseWindowGroup key m group = ((m.closeMergedWindow key (hull group)).1,
        (if group.length = 1 then [] else [onSharedSlot (.mergeOp group)]) ++
          [(m.closeMergedWindow key (hull group)).2]) := by
  match group with
  | [] => exact absurd rfl hne
  | [window] => rfl
  | first :: second :: rest =>
    simp only [processCloseWindowGroup, mergeWindows_fst]
    simp [mergeWindows]

/-! ## What the calls can do -/

section

variable (m : SessionWindowManager) (msg : Message)

/-- What `assignWindows` can do: append to an existing window, expand an
existing window, or open a new one. -/
theorem assignWindows_cases
    (hkey : key = combineKeys msg.keys) (hset : windowSet = activeOf m.activeWindows key)
    (hwindow : window = newWindow m.timeout msg) :
    (∃ existing, findWindowToMerge windowSet window = some existing ∧
      (existing.startTime ≤ window.startTime ∧ window.endTime ≤ existing.endTime) ∧
      m.assignWindows msg = (m.setActive key windowSet, [onSharedSlot (.appendOp msg existing)])) ∨
    (∃ existing, findWindowToMerge windowSet window = some existing ∧
      ¬ (existing.startTime ≤ window.startTime ∧ window.endTime ≤ existing.endTime) ∧
      m.assignWindows msg =
        (m.setActive key ((windowSet.remove existing).insert (window.span existing)),
          [onSharedSlot (.expandOp msg [existing, window.span existing])])) ∨
    (findWindowToMerge windowSet window = none ∧ m.assignWindows msg =
        (m.setActive key (windowSet.insert window), [onSharedSlot (.openOp msg window)])) := by
  subst hkey hset hwindow
  unfold assignWindows
  cases hfind : findWindowToMerge (activeOf m.activeWindows (combineKeys msg.keys))
      (newWindow m.timeout msg) with
  | none => exact .inr (.inr ⟨rfl, by simp only [hfind]⟩)
  | some existing =>
    have hmeets := (findWindowToMerge_some hfind).2.1
    by_cases hin : existing.startTime ≤ (newWindow m.timeout msg).startTime ∧
        (newWindow m.timeout msg).endTime ≤ existing.endTime
    · have hexpand : expandWindowIfNeeded (newWindow m.timeout msg) existing = none := by
        rw [expandWindowIfNeeded, if_neg (not_not.mpr hmeets), if_pos hin]
      refine .inl ⟨existing, rfl, hin, ?_⟩
      simp only [hfind, hexpand]
    · have hexpand : expandWindowIfNeeded (newWindow m.timeout msg) existing =
          some ((newWindow m.timeout msg).span existing) := by
        rw [expandWindowIfNeeded, if_neg (not_not.mpr hmeets), if_neg hin]
      refine .inr (.inl ⟨existing, rfl, hin, ?_⟩)
      simp only [hfind, hexpand]

/-- Assigning a message closes no window and leaves the closed ones alone. -/
@[simp]
theorem closedBy_assignWindows : closedBy (m.assignWindows msg).2 = [] := by
  rcases assignWindows_cases m msg rfl rfl rfl with ⟨_, _, _, heq⟩ | ⟨_, _, _, heq⟩ | ⟨_, heq⟩ <;>
    rw [heq] <;> rfl

@[simp]
theorem closedWindows_assignWindows : (m.assignWindows msg).1.closedWindows = m.closedWindows := by
  rcases assignWindows_cases m msg rfl rfl rfl with ⟨_, _, _, heq⟩ | ⟨_, _, _, heq⟩ | ⟨_, heq⟩ <;>
    rw [heq, setActive_closedWindows]

/-- What `closeMergedWindow` can do: close the window, when it overlaps no
active window of the key, or merge it into an active window. -/
theorem closeMergedWindow_cases (key : String) (window : Window) :
    ((∀ v ∈ activeOf m.activeWindows key, ¬ window.Meets v) ∧ m.closeMergedWindow key window =
        (m.moveToClosedWindows window, onSharedSlot (.closeOp window))) ∨
    (∃ active, active ∈ activeOf m.activeWindows key ∧ window.Meets active ∧
      m.closeMergedWindow key window =
        (m.setActive key (((activeOf m.activeWindows key).remove active).insert
          (window.span active)), onSharedSlot (.mergeOp [window, active]))) := by
  unfold closeMergedWindow tryMergeWithActive activeOf
  cases hlook : m.activeWindows.lookup key with
  | none => exact .inl ⟨by simp, rfl⟩
  | some windowSet =>
    cases hfind : findWindowToMerge windowSet window with
    | none =>
      refine .inl ⟨findWindowToMerge_none.mp hfind, ?_⟩
      simp [hfind]
    | some active =>
      rcases findWindowToMerge_some hfind with ⟨hmem, hmeets, -⟩
      refine .inr ⟨active, hmem, hmeets, ?_⟩
      simp [hfind, setActive]

end

/-- A group of active windows of one key that the watermark has passed. -/
def Expiring (m : SessionWindowManager) (watermark : Int) (key : String) (group : List Window) :
    Prop :=
  group ≠ [] ∧ ∀ w ∈ group, w ∈ activeOf m.activeWindows key ∧ w.endTime ≤ watermark

/-- The watermark has passed the span of an expiring group. -/
theorem Expiring.hull_le (h : m.Expiring watermark key group) :
    (hull group).endTime ≤ watermark := by
  rcases exists_hull_endTime h.1 with ⟨w, hw, hend⟩
  rw [← hend]
  exact (h.2 w hw).2

/-- The loops of `closeWindows`, seen by an observer of the emitted
operations: what merging a group and closing a merged window preserve holds after
all expired windows are processed. -/
theorem closeWindows_simulates {δ : Type} {g : δ → UnalignedWindowMessage → δ}
    {R : SessionWindowManager → δ → Prop} {d : δ} (order : List String) (watermark : Int)
    (hmerge : ∀ m' d key group, m.Expiring watermark key group → R m' d →
      R m' (g d (onSharedSlot (.mergeOp group))))
    (hclose : ∀ m' d key group, m.Expiring watermark key group → R m' d →
      R (m'.closeMergedWindow key (hull group)).1 (g d (m'.closeMergedWindow key (hull group)).2))
    (hextract : R { m with
      activeWindows := (extractExpiredWindows m.activeWindows watermark).1 } d) :
    R (m.closeWindows order watermark).1 ((m.closeWindows order watermark).2.foldl g d) := by
  have hgroup : ∀ key m' d group,
      (∀ w ∈ group, w ∈ activeOf m.activeWindows key ∧ w.endTime ≤ watermark) → R m' d →
      R (processCloseWindowGroup key m' group).1
        ((processCloseWindowGroup key m' group).2.foldl g d) := by
    intro key m' d group hmem hR
    by_cases hne : group = []
    · rw [hne]
      exact hR
    · rw [processCloseWindowGroup_eq key m' hne, List.foldl_append]
      apply hclose m' _ key group ⟨hne, hmem⟩
      split_ifs
      · exact hR
      · exact hmerge m' d key group ⟨hne, hmem⟩ hR
  have hentry : ∀ m' d (e : Σ _ : String, List Window),
      (∀ w ∈ e.2, w ∈ activeOf m.activeWindows e.1 ∧ w.endTime ≤ watermark) →
      R m' d → R (m'.processClosedWindows e).1 ((m'.processClosedWindows e).2.foldl g d) := by
    intro m' d e hmem hR
    have hloop := collect_simulates (f := processCloseWindowGroup e.1) (g := g)
      (R := fun groups m' d =>
        (∀ w ∈ groups.flatten, w ∈ activeOf m.activeWindows e.1 ∧ w.endTime ≤ watermark) ∧ R m' d)
      (fun group groups m' d h =>
        ⟨fun w hw => h.1 w (by simp only [List.flatten_cons]; exact List.mem_append_right _ hw),
          hgroup e.1 m' d group (fun w hw => h.1 w (by simp [hw])) h.2⟩)
      (l := windowsThatCanBeMerged e.2) ⟨fun w hw => hmem w (mem_groups.mp hw), hR⟩
    exact hloop.2
  have hloop := collect_simulates (f := processClosedWindows) (g := g) (R := fun entries m' d =>
      (∀ e ∈ entries, ∀ w ∈ e.2, w ∈ activeOf m.activeWindows e.1 ∧ w.endTime ≤ watermark) ∧ R m' d)
    (fun e entries m' d h =>
      ⟨fun e' he' => h.1 e' (List.mem_cons_of_mem e he'),
        hentry m' d e (h.1 e List.mem_cons_self) h.2⟩)
    (l := HashMap.iterIn order (extractExpiredWindows m.activeWindows watermark).2)
    ⟨?_, hextract⟩
  · exact hloop.2
  · intro e he w hw
    rw [(mem_extract_iff.mp (HashMap.mem_iterIn.mp he)).2] at hw
    simpa using hw

/-- Every new entry of the closed windows is a window that was closed. -/
theorem mem_closedWindows_closeWindows
    (hw : w ∈ (m.closeWindows order watermark).1.closedWindows) :
    w ∈ m.closedWindows ∨ w ∈ closedBy (m.closeWindows order watermark).2 := by
  have hsub := closeWindows_simulates (g := fun acc msg => acc ++ closedWindow msg)
    (R := fun m' acc => ∀ v ∈ m'.closedWindows, v ∈ m.closedWindows ∨ v ∈ acc)
    (m := m) (d := []) order watermark ?_ ?_ (fun v hv => .inl hv)
  · have hmem := hsub w hw
    rwa [foldl_closedWindow, List.nil_append] at hmem
  · intro m' acc _ group _ hR v hv
    exact (hR v hv).imp_right (List.mem_append_left _)
  · intro m' acc key group _ hR v hv
    rcases closeMergedWindow_cases m' key (hull group) with ⟨_, heq⟩ | ⟨_, _, _, heq⟩
    · rw [heq] at hv ⊢
      rcases mem_insert.mp hv with hv | ⟨rfl, -⟩
      · exact (hR v hv).imp_right (List.mem_append_left _)
      · exact .inr (List.mem_append_right _ List.mem_cons_self)
    · rw [heq] at hv ⊢
      exact (hR v hv).imp_right (List.mem_append_left _)

@[simp]
theorem assignWindows_timeout (m : SessionWindowManager) (msg : Message) :
    (m.assignWindows msg).1.timeout = m.timeout := by
  rcases assignWindows_cases m msg rfl rfl rfl with ⟨_, _, _, heq⟩ | ⟨_, _, _, heq⟩ | ⟨_, heq⟩ <;>
    rw [heq, setActive_timeout]

@[simp]
theorem closeWindows_timeout (m : SessionWindowManager) (order : List String)
    (watermark : Int) : (m.closeWindows order watermark).1.timeout = m.timeout := by
  refine closeWindows_simulates (δ := Unit) (g := fun d _ => d)
    (R := fun m' _ => m'.timeout = m.timeout) (d := ()) order watermark
    (fun _ _ _ _ _ h => h) ?_ rfl
  intro m' _ key group _ hm'
  rcases closeMergedWindow_cases m' key (hull group) with ⟨_, heq⟩ | ⟨_, _, _, heq⟩ <;>
    rw [heq] <;> exact hm'

/-! ## Components of overlapping windows -/

/-- The windows of the group overlap one after the other and cover their span. -/
def GroupCluster (group : List Window) : Prop :=
  IsCluster Window.startTime Window.endTime (hull group).startTime (hull group).endTime group

theorem GroupCluster.single (w : Window) : GroupCluster [w] :=
  IsCluster.single

/-- A window that overlaps the span of a group joins the group. -/
theorem GroupCluster.append_singleton (h : GroupCluster group) (hgroup : ∀ v ∈ group, v.Proper)
    (hw : w.Proper) (hmeets : w.Meets (hull group)) : GroupCluster (group ++ [w]) := by
  have hextend := IsCluster.extend h hgroup hw hmeets
  unfold GroupCluster
  rw [hull_append_singleton h.nonempty, Window.span_startTime, Window.span_endTime, min_comm,
    max_comm]
  exact hextend

section

variable (hsorted : windows.Pairwise fun v w => v.endTime ≤ w.endTime)

include hsorted

/-- Every merge group is a cluster that covers its span: the scan keeps a cluster in hand, and the
next window either overlaps its span or starts a cluster of its own. -/
theorem groups_clusters
    (hproper : ∀ w ∈ windows, w.Proper) : ∀ g ∈ windowsThatCanBeMerged windows, GroupCluster g := by
  have hclusters := groups_induction (P := fun g => GroupCluster g ∧ ∀ v ∈ g, v.Proper) hsorted
    hproper (fun w hw => ⟨.single w, List.forall_mem_singleton.mpr hw⟩) ?_
  · exact fun g hg => (hclusters g hg).1
  · rintro group w - ⟨hgroup, hall⟩ hw hmeets
    exact ⟨hgroup.append_singleton hall hw hmeets, forall_mem_concat.mpr ⟨hall, hw⟩⟩

/-- The merge groups are the connected components of the windows. -/
theorem groups_components (hproper : ∀ w ∈ windows, w.Proper) :
    Components Window.startTime Window.endTime windows (fun g => (hull g).startTime)
      (fun g => (hull g).endTime) id (windowsThatCanBeMerged windows) := by
  apply components_of_clusters hproper (groups_clusters hsorted hproper)
  · apply (groups_apart hsorted).imp
    intro g g' hle hover
    exact absurd hover.2 (not_lt.mpr hle)
  · simpa using perm_groups windows

end

/-- For windows sorted by ascending end time, each of which contains a point in time, the groups
divide the list, they are its connected components, every window is in one group only, and the
windows of a group end at or before the start of the windows of all later groups. -/
theorem mergeable_groups
    (hsorted : windows.Pairwise fun v w => v.endTime ≤ w.endTime)
    (hproper : ∀ w ∈ windows, w.Proper) :
    (windowsThatCanBeMerged windows).flatten.Perm windows ∧
    (∀ g ∈ windowsThatCanBeMerged windows, ∃ w ∈ windows, ∀ v,
      v ∈ g ↔ v ∈ windows ∧ Linked Window.startTime Window.endTime windows w v) ∧
    (∀ w ∈ windows, ∃ before g after,
      windowsThatCanBeMerged windows = before ++ g :: after ∧ w ∈ g ∧
        ∀ g' ∈ before ++ after, w ∉ g') ∧
    (windowsThatCanBeMerged windows).Pairwise
      fun g g' => ∀ v ∈ g, ∀ w ∈ g', v.endTime ≤ w.startTime := by
  have hcomponents := groups_components hsorted hproper
  refine ⟨perm_groups windows, hcomponents.component, hcomponents.once, ?_⟩
  apply (groups_apart hsorted).imp
  intro g g' hle v hv w hw
  calc v.endTime ≤ (hull g).endTime := (hull_bounds hv).2
    _ ≤ (hull g').startTime := hle
    _ ≤ w.startTime := (hull_bounds hw).1

/-- Windows of the source's own example: three overlap, the last one stands alone. -/
def exampleWindows : List Window :=
  [⟨75, 85, ["k"]⟩, ⟨60, 90, ["k"]⟩, ⟨80, 100, ["k"]⟩, ⟨110, 120, ["k"]⟩]

theorem mergeable_groups_example : windowsThatCanBeMerged exampleWindows =
        [[⟨80, 100, ["k"]⟩, ⟨60, 90, ["k"]⟩, ⟨75, 85, ["k"]⟩], [⟨110, 120, ["k"]⟩]] ∧
      (windowsThatCanBeMerged exampleWindows).flatten.Perm exampleWindows :=
  ⟨by decide, (mergeable_groups (by decide) (by simp [exampleWindows, Window.Proper])).1⟩

/-- A window without a point in time is put into the group of a window that it does not overlap:
the scan compares its end with the start of the group only. -/
def emptyAndProper : List Window :=
  [⟨5, 5, ["k"]⟩, ⟨3, 5, ["k"]⟩]

theorem empty_window_merged : (emptyAndProper.Pairwise fun v w => v.endTime ≤ w.endTime) ∧
      windowsThatCanBeMerged emptyAndProper = [[⟨3, 5, ["k"]⟩, ⟨5, 5, ["k"]⟩]] ∧
      ¬ Linked Window.startTime Window.endTime emptyAndProper ⟨3, 5, ["k"]⟩ ⟨5, 5, ["k"]⟩ := by
  refine ⟨by decide, by decide, ?_⟩
  intro hlinked
  have hsame := Linked.mem_of_closed (P := fun w => w = _) ?_ rfl hlinked
  · revert hsame
    decide
  · rintro a b rfl ⟨-, hb, hover⟩
    simp only [emptyAndProper, List.mem_cons, List.not_mem_nil, or_false] at hb
    rcases hb with rfl | rfl
    · exact absurd hover.2 (by decide)
    · rfl

end SessionWindowManager
end Numaflow.Unaligned
