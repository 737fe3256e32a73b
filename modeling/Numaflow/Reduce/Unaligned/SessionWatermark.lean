import Numaflow.Reduce.Unaligned.Session

/-!
# The watermark bound of the session manager

The reducer publishes no watermark beyond `oldestWindowEndTime`, so this
time has to bound the end of every window that is active, or closed and not yet
deleted.  The set of closed windows is shared by all keys and ordered by the end
time, hence windows of different keys with equal end times share one entry, and
the first of them that is deleted takes the entry along.

Main results: `Bounded.close`, `oldestWindowEndTime_bounds`.
-/

namespace Numaflow.Unaligned

open Lib SessionWindowManager OrdSet List

/-- The manager with the windows that were closed and not yet deleted, and the
last watermark used. -/
structure PendingRun where
  manager : SessionWindowManager
  pending : List Window
  last : Option Int

namespace PendingRun

/-- Nothing has been assigned yet. -/
def init (timeout : Nat) : PendingRun :=
  ⟨SessionWindowManager.new timeout, [], none⟩

section

variable (s : PendingRun)

/-- Perform a call.  A window is deleted once for each time it was closed. -/
def step : WindowCall → PendingRun
  | .assign msg =>
    let result := s.manager.assignWindows msg
    { s with manager := result.1, pending := s.pending ++ closedBy result.2 }
  | .close order watermark =>
    let result := s.manager.closeWindows order watermark
    ⟨result.1, s.pending ++ closedBy result.2, some watermark⟩
  | .delete window =>
    if window ∈ s.pending then
      { s with manager := s.manager.deleteWindow window, pending := s.pending.erase window }
    else s

/-- Watermarks do not decrease. -/
def Legal : WindowCall → Prop
  | .close _ watermark => ∀ l ∈ s.last, l ≤ watermark
  | _ => True

/-- The window of a message ends after the last watermark or overlaps an active
window, and a deleted window shares its end time with no other pending window. -/
def Clear : WindowCall → Prop
  | .assign msg => ∀ l ∈ s.last, l < (newWindow s.manager.timeout msg).endTime ∨
      ∃ w ∈ (activeOf s.manager.activeWindows (combineKeys msg.keys)).toList,
        (newWindow s.manager.timeout msg).Meets w
  | .close _ _ => True
  | .delete window => ∀ w ∈ s.pending.erase window, w.endTime ≠ window.endTime

instance (s : PendingRun) : (c : WindowCall) → Decidable (s.Legal c)
  | .close .. => by dsimp only [Legal]; infer_instance
  | .assign _ | .delete _ => isTrue trivial

instance (s : PendingRun) : (c : WindowCall) → Decidable (s.Clear c)
  | .assign _ | .delete _ => by dsimp only [Clear]; infer_instance
  | .close .. => isTrue trivial

/-- A window that still holds back the watermark. -/
def Live (w : Window) : Prop :=
  (∃ key, w ∈ activeOf s.manager.activeWindows key) ∨ w ∈ s.pending

/-- The reported time bounds the end of every live window, and there is none only
when no window is live. -/
def BoundsLive : Prop :=
  (∀ e, s.manager.oldestWindowEndTime = some e → ∀ w, s.Live w → e ≤ w.endTime) ∧
    (s.manager.oldestWindowEndTime = none → ∀ w, ¬ s.Live w)

end

end PendingRun

/-! ## The reported time -/

variable {key : String} {active : ActiveWindowStore} {w : Window}

/-- The least end time of the active windows. -/
theorem active_min (hw : w ∈ activeOf active key) :
    ∃ e, ((HashMap.values active).filterMap fun windowSet =>
        windowSet.first.map Window.endTime).min? = some e ∧ e ≤ w.endTime := by
  unfold activeOf at hw
  cases hlook : active.lookup key with
  | none => simp [hlook] at hw
  | some windowSet =>
    rw [hlook] at hw
    cases hfirst : windowSet.first with
    | none => exact absurd hw (first_eq_none.mp hfirst w)
    | some v =>
      have hmem : v.endTime ∈ (HashMap.values active).filterMap fun windowSet =>
          windowSet.first.map Window.endTime := by
        refine mem_filterMap.mpr ⟨windowSet, HashMap.mem_values.mpr ⟨key, hlook⟩, ?_⟩
        simp [hfirst]
      have hle := first_le hfirst hw
      cases hmin : ((HashMap.values active).filterMap fun windowSet =>
          windowSet.first.map Window.endTime).min? with
      | none =>
        rw [min?_eq_none_iff] at hmin
        rw [hmin] at hmem
        exact absurd hmem not_mem_nil
      | some e => exact ⟨e, rfl, (min?_eq_some_iff.mp hmin).2 _ hmem |>.trans hle⟩

/-- The invariant of a run: active windows end after the last watermark, closed
ones do not, and every pending window is represented by an entry with its end. -/
structure Bounded (last : Option Int) (m : SessionWindowManager) (pending : List Window) :
    Prop where
  above : ∀ l ∈ last, ∀ key, ∀ w ∈ activeOf m.activeWindows key, l < w.endTime
  below : ∀ c ∈ m.closedWindows, ∃ l ∈ last, c.endTime ≤ l
  represented : ∀ p ∈ pending, ∃ c ∈ m.closedWindows, c.endTime = p.endTime

namespace Bounded

variable {last : Option Int} {m : SessionWindowManager} {pending : List Window}
  (h : Bounded last m pending)

include h

/-- The invariant gives the bound. -/
theorem boundsLive : (PendingRun.mk m pending last).BoundsLive := by
  unfold PendingRun.BoundsLive oldestWindowEndTime
  cases hfirst : m.closedWindows.first with
  | some c =>
    have hc := first_mem hfirst
    refine ⟨?_, by simp⟩
    intro e he w hw
    simp only [Option.some.injEq] at he
    rcases hw with ⟨key, hw⟩ | hw
    · rcases h.below c hc with ⟨l, hl, hle⟩
      have hlt := h.above l hl key w hw
      omega
    · rcases h.represented w hw with ⟨c', hc', heq⟩
      have hle := first_le hfirst hc'
      omega
  | none =>
    have hempty := first_eq_none.mp hfirst
    have hpending : ∀ w, w ∉ pending := by
      intro w hw
      rcases h.represented w hw with ⟨c, hc, -⟩
      exact hempty c hc
    refine ⟨?_, ?_⟩
    · intro e he w hw
      rcases hw with ⟨key, hw⟩ | hw
      · rcases active_min hw with ⟨e', he', hle⟩
        rw [he'] at he
        cases he
        exact hle
      · exact absurd hw (hpending w)
    · intro hnone w hw
      rcases hw with ⟨key, hw⟩ | hw
      · rcases active_min hw with ⟨e', he', -⟩
        rw [he'] at hnone
        cases hnone
      · exact hpending w hw

variable {windowSet : WindowSet} {msg : Message} {watermark : Int} {window : Window}

/-- Storing windows that end after the last watermark keeps the invariant. -/
theorem store (habove : ∀ l ∈ last, ∀ w ∈ windowSet, l < w.endTime) :
    Bounded last (m.setActive key windowSet) pending :=
  ⟨fun l hl => forall_active_setActive (h.above l hl) (habove l hl), h.below, h.represented⟩

/-- A stored window is exchanged for a span that ends after the last watermark. -/
theorem exchange {old new : Window} (hnew : ∀ l ∈ last, l < new.endTime) : Bounded last
      (m.setActive key (((activeOf m.activeWindows key).remove old).insert new)) pending :=
  ⟨fun l hl => forall_active_exchange (h.above l hl) (hnew l hl), h.below, h.represented⟩

/-- Assigning a message whose window ends after the last watermark or overlaps an
active window. -/
theorem assign (hend : ∀ l ∈ last, l < (newWindow m.timeout msg).endTime ∨
      ∃ w ∈ (activeOf m.activeWindows (combineKeys msg.keys)).toList,
        (newWindow m.timeout msg).Meets w) :
    Bounded last (m.assignWindows msg).1 (pending ++ closedBy (m.assignWindows msg).2) := by
  rw [closedBy_assignWindows, append_nil]
  rcases assignWindows_cases m msg rfl rfl rfl with
    ⟨existing, _, _, heq⟩ | ⟨existing, hfind, _, heq⟩ | ⟨hfind, heq⟩
  · rw [heq]
    apply h.store
    intro l hl w hw
    exact h.above l hl _ w hw
  · rw [heq]
    apply h.exchange
    intro l hl
    rw [Window.span_endTime, lt_max_iff]
    exact .inr (h.above l hl _ existing (findWindowToMerge_some hfind).1)
  · rw [heq]
    apply h.store
    intro l hl w hw
    rcases mem_insert.mp hw with hw | ⟨rfl, -⟩
    · exact h.above l hl _ w hw
    · rcases hend l hl with hlt | ⟨v, hv, hmeets⟩
      · exact hlt
      · exact absurd hmeets (findWindowToMerge_none.mp hfind v hv)

omit h in
/-- Closing one window: it is merged into an active window, or noted as pending
together with an entry that has its end time. -/
theorem closeMerged (h : Bounded (some watermark) m pending) (key : String)
    (hend : window.endTime ≤ watermark) :
    Bounded (some watermark) (m.closeMergedWindow key window).1
      (pending ++ closedWindow (m.closeMergedWindow key window).2) := by
  rcases closeMergedWindow_cases m key window with ⟨_, heq⟩ | ⟨active, hmem, _, heq⟩
  · rw [heq]
    refine ⟨h.above, ?_, ?_⟩
    · intro c hc
      rcases mem_insert.mp hc with hc | ⟨rfl, -⟩
      · exact h.below c hc
      · exact ⟨watermark, rfl, hend⟩
    · intro p hp
      rcases mem_append.mp hp with hp | hp
      · rcases h.represented p hp with ⟨c, hc, hceq⟩
        exact ⟨c, mem_insert.mpr (.inl hc), hceq⟩
      · have hp := mem_singleton.mp hp
        rw [hp]
        exact exists_key_insert m.closedWindows window
  · have hkeep : closedWindow (onSharedSlot (.mergeOp [window, active])) = [] := rfl
    rw [heq, hkeep, append_nil]
    apply h.exchange
    intro l hl
    rw [Window.span_endTime, lt_max_iff]
    exact .inr (h.above l hl key active hmem)

/-- Closing windows represents every closed window by an entry with its end. -/
theorem close (hlast : ∀ l ∈ last, l ≤ watermark)
    (order : List String) : Bounded (some watermark) (m.closeWindows order watermark).1
      (pending ++ closedBy (m.closeWindows order watermark).2) := by
  rw [← foldl_closedWindow]
  apply closeWindows_simulates (R := fun m pending => Bounded _ m pending)
  · intro m pending _ group _ hm
    have hkeep : closedWindow (onSharedSlot (.mergeOp group)) = [] := rfl
    rw [hkeep, append_nil]
    exact hm
  · intro m pending key group hexpiring hm
    exact hm.closeMerged key hexpiring.hull_le
  · refine ⟨?_, ?_, h.represented⟩
    · intro l hl key w hw
      cases hl
      exact (mem_activeOf_extract.mp hw).2
    · intro c hc
      rcases h.below c hc with ⟨l, hl, hle⟩
      exact ⟨watermark, rfl, hle.trans (hlast l hl)⟩

/-- Deleting a pending window that shares its end time with no other one. -/
theorem delete (hends : ∀ w ∈ pending.erase window, w.endTime ≠ window.endTime) :
    Bounded last (m.deleteWindow window) (pending.erase window) := by
  refine ⟨h.above, ?_, ?_⟩
  · intro c hc
    exact h.below c (mem_remove.mp hc).1
  · intro p hp
    rcases h.represented p (mem_of_mem_erase hp) with ⟨c, hc, heq⟩
    refine ⟨c, mem_remove.mpr ⟨hc, ?_⟩, heq⟩
    rw [heq]
    exact hends p hp

end Bounded

/-! ## Runs -/

namespace PendingRun

theorem bounded_step (s : PendingRun) (c : WindowCall)
    (h : Bounded s.last s.manager s.pending) (hok : s.Legal c ∧ s.Clear c) :
    Bounded (s.step c).last (s.step c).manager (s.step c).pending := by
  rcases hok with ⟨hlegal, hclear⟩
  cases c with
  | assign => exact h.assign hclear
  | close order => exact h.close hlegal order
  | delete window =>
    by_cases hmem : window ∈ s.pending
    · have hstep : s.step (.delete window) =
          { s with manager := s.manager.deleteWindow window
                   pending := s.pending.erase window } := if_pos hmem
      rw [hstep]
      exact h.delete hclear
    · have hstep : s.step (.delete window) = s := if_neg hmem
      rw [hstep]
      exact h

/-- The reported time bounds every window that is active or pending, in every
state of a run without late messages and without a deletion that meets another
pending window with the same end time. -/
theorem oldestWindowEndTime_bounds {timeout : Nat} {calls : List WindowCall}
    (hrun : Along (fun s c => s.Legal c ∧ s.Clear c) step (init timeout) calls) :
    (exec step (init timeout) calls).BoundsLive := by
  have hinit : Bounded none (SessionWindowManager.new timeout) [] := by
    refine ⟨by simp, ?_, by simp⟩
    intro c hc
    exact absurd hc (OrdSet.not_mem_empty c)
  have hinv := exec_invariant
    (I := fun s : PendingRun => Bounded s.last s.manager s.pending) bounded_step
    (s := init timeout) hinit hrun
  exact hinv.boundsLive

/-- Two keys whose windows end one after the other; the later one is deleted
first. -/
def deleteLaterFirst : List WindowCall :=
  [.assign { keys := ["a"], eventTime := 0 },
    .assign { keys := ["b"], eventTime := 5000000 },
    .assign { keys := ["b"], eventTime := 18000000 },
    .close [] 20000000,
    .delete ⟨5000000, 15000000, ["b"]⟩,
    .assign { keys := ["a"], eventTime := 30000000 }]

theorem deleteLaterFirst_bounds : (exec step (init 10000000) deleteLaterFirst).BoundsLive :=
  oldestWindowEndTime_bounds (by decide)

/-- Two keys whose windows end together; one of them is deleted. -/
def deleteShared : List WindowCall :=
  [.assign { keys := ["a"], eventTime := 0 },
    .assign { keys := ["b"], eventTime := 0 },
    .close [] 20000000,
    .delete ⟨0, 10000000, ["a"]⟩]

/-- The window of the other key is pending, and no time is reported. -/
theorem deleteShared_not_bounded : Along Legal step (init 10000000) deleteShared ∧
      ¬ (exec step (init 10000000) deleteShared).BoundsLive := by
  refine ⟨by decide, ?_⟩
  intro h
  have hnone : (exec step (init 10000000) deleteShared).manager.oldestWindowEndTime = none := by
    decide
  have hpending : (⟨0, 10000000, ["b"]⟩ : Window) ∈
      (exec step (init 10000000) deleteShared).pending := by
    decide
  exact h.2 hnone _ (Or.inr hpending)

end PendingRun
end Numaflow.Unaligned
