import Numaflow.Reduce.Aligned.Reducer

/-!
# What the aligned reducer sends

The reducer tells the actor about its windows over a channel.  This file states what
the actor can rely on: windows have the configured length, every window is opened at
most once, and whatever was sent to is either still active or closed.

Main results: `Flow.effect`, `Effect.closeSent_cases`.
-/

namespace Numaflow.Aligned.ReducerRun

open Lib AlignedWindowManager List

/-- A close of the window was sent. -/
def CloseSent (s : ReducerRun) (w : Window) : Prop :=
  ∃ x ∈ s.sent, x.operation = .closeOp w

/-- What holds of the messages sent so far. -/
structure Flow (s : ReducerRun) : Prop where
  fits_active : ∀ w ∈ s.active, s.manager.shape.Fits w
  fits_sent : ∀ x ∈ s.sent, s.manager.shape.Fits x.operation.window
  slots : ∀ x ∈ s.sent, x.pnfSlot = windowToPnfSlot x.operation.window
  holds : ∀ x ∈ s.sent, ∀ msg ∈ x.operation.message,
    x.operation.window.startTime ≤ msg.eventTime
  kept : ∀ x ∈ s.sent, x.operation.window ∈ s.active ∨ s.CloseSent x.operation.window
  opened : s.sent.Pairwise fun x y => y.operation.IsOpen →
    x.operation.window ≠ y.operation.window
  closed_sent : ∀ w ∈ s.closed, s.CloseSent w

variable {s s' : ReducerRun} {w : Window}

section

variable {new : List AlignedWindowMessage} {watermark : Int} {x : AlignedWindowMessage}

theorem CloseSent.mono (hsent : s'.sent = s.sent ++ new) (h : s.CloseSent w) : s'.CloseSent w := by
  rcases h with ⟨x, hx, hop⟩
  exact ⟨x, by rw [hsent]; exact mem_append_left new hx, hop⟩

theorem CloseSent.end_le (h : s.CloseSent w) (hsep : s.Separated) :
    ∃ b ∈ s.closedAt, w.endTime ≤ b := by
  rcases h with ⟨x, hx, hop⟩
  have hle := hsep.closes x hx (by rw [hop]; rfl)
  rw [hop] at hle
  exact hle

/-- The close messages of a close step are for active windows. -/
theorem mem_closeWindows_messages {m : AlignedWindowManager}
    (hx : x ∈ (m.closeWindows watermark).2) :
    ∃ w ∈ m.activeWindows, w.endTime ≤ watermark ∧ x = closeMessage w := by
  rw [closeWindows_messages, mem_map] at hx
  rcases hx with ⟨w, hw, rfl⟩
  rcases mem_filter.mp hw with ⟨hmem, hle⟩
  exact ⟨w, hmem, of_decide_eq_true hle, rfl⟩

/-- An active window stays active or its close is sent. -/
theorem active_or_closeSent (hmanager : s'.manager = (s.manager.closeWindows s.bound).1)
    (hsent : s'.sent = s.sent ++ (s.manager.closeWindows s.bound).2) (hw : w ∈ s.active) :
    w ∈ s'.active ∨ s'.CloseSent w := by
  by_cases hle : w.endTime ≤ s.bound
  · right
    refine ⟨closeMessage w, ?_, rfl⟩
    rw [hsent, closeWindows_messages]
    refine mem_append_right _ (mem_map_of_mem ?_)
    exact mem_filter.mpr ⟨hw, decide_eq_true hle⟩
  · left
    rw [active, hmanager, mem_active_closeWindows]
    exact ⟨hw, by omega⟩

end

variable {gc : Option Window}

namespace Flow

variable {m : AlignedWindowManager} {msg : Message}

theorem init (hfits : ∀ w ∈ m.activeWindows, m.shape.Fits w) (hclosed : ∀ w, w ∉ m.closedWindows)
    (allowedLateness : Nat) (keyed : Bool) : (init m allowedLateness keyed).Flow where
  fits_active := hfits
  fits_sent := by simp [ReducerRun.init]
  slots := by simp [ReducerRun.init]
  holds := by simp [ReducerRun.init]
  kept := by simp [ReducerRun.init]
  opened := List.Pairwise.nil
  closed_sent := fun w hw => absurd hw (hclosed w)

/-- A close is sent for each window that is no longer active. -/
theorem effect_closed (h : s.Flow) (hmanager : s'.manager = (s.manager.closeWindows s.bound).1)
    (hsent : s'.sent = s.sent ++ (s.manager.closeWindows s.bound).2) : s'.Flow := by
  have hshape : s'.manager.shape = s.manager.shape := by rw [hmanager, shape_closeWindows]
  refine ⟨?_, ?_, ?_, ?_, ?_, ?_, ?_⟩
  · intro w hw
    rw [active, hmanager, mem_active_closeWindows] at hw
    rw [hshape]
    exact h.fits_active w hw.1
  · intro x hx
    rw [hsent] at hx
    rw [hshape]
    rcases mem_append.mp hx with hx | hx
    · exact h.fits_sent x hx
    · rcases mem_closeWindows_messages hx with ⟨w, hw, -, rfl⟩
      exact h.fits_active w hw
  · intro x hx
    rw [hsent] at hx
    rcases mem_append.mp hx with hx | hx
    · exact h.slots x hx
    · rcases mem_closeWindows_messages hx with ⟨w, -, -, rfl⟩
      rfl
  · intro x hx msg hmsg
    rw [hsent] at hx
    rcases mem_append.mp hx with hx | hx
    · exact h.holds x hx msg hmsg
    · rcases mem_closeWindows_messages hx with ⟨w, -, -, rfl⟩
      cases hmsg
  · intro x hx
    have hx' := hx
    rw [hsent] at hx'
    rcases mem_append.mp hx' with hx' | hx'
    · rcases h.kept x hx' with hw | hw
      · exact active_or_closeSent hmanager hsent hw
      · exact .inr (hw.mono hsent)
    · rcases mem_closeWindows_messages hx' with ⟨w, -, -, rfl⟩
      exact .inr ⟨_, hx, rfl⟩
  · rw [hsent]
    have hnot : ∀ y ∈ (s.manager.closeWindows s.bound).2, ¬ y.operation.IsOpen := by
      intro y hy
      rcases mem_closeWindows_messages hy with ⟨w, -, -, rfl⟩
      exact id
    refine pairwise_append.mpr ⟨h.opened, ?_, ?_⟩
    · exact pairwise_of_forall_mem_list fun x _ y hy hopen => absurd hopen (hnot y hy)
    · exact fun x _ y hy hopen => absurd hopen (hnot y hy)
  · intro w hw
    rw [closed, hmanager] at hw
    rcases mem_closed_closeWindows hw with hw | ⟨hw, hle⟩
    · exact (h.closed_sent w hw).mono hsent
    · refine ⟨closeMessage w, ?_, rfl⟩
      rw [hsent, closeWindows_messages]
      refine mem_append_right _ (mem_map_of_mem ?_)
      exact mem_filter.mpr ⟨hw, decide_eq_true hle⟩

/-- What is sent for a message goes to windows that are active. -/
theorem effect_assigned (h : s.Flow) (hsep : s.Separated) (hclock : s.Clock)
    (hphase : s.phase = .assigning msg) (hmanager : s'.manager = (s.manager.assignWindows msg).1)
    (hsent : s'.sent = s.sent ++ (s.manager.assignWindows msg).2) : s'.Flow := by
  have hspec := s.manager.assignWindows_spec msg
  have hshape : s'.manager.shape = s.manager.shape := by rw [hmanager, shape_assignWindows]
  have hfits : ∀ w ∈ s'.active, s.manager.shape.Fits w := by
    intro w hw
    rw [active, hmanager] at hw
    rcases hspec.new w hw with hw | hw
    · exact h.fits_active w hw
    · exact windowsOf_fits hw
  refine ⟨?_, ?_, ?_, ?_, ?_, ?_, ?_⟩
  · rw [hshape]
    exact hfits
  · intro x hx
    rw [hsent] at hx
    rw [hshape]
    rcases mem_append.mp hx with hx | hx
    · exact h.fits_sent x hx
    · rcases hspec.sent x hx with ⟨w, hw, ⟨rfl, -⟩ | rfl, -⟩
      · exact windowsOf_fits hw
      · exact windowsOf_fits hw
  · intro x hx
    rw [hsent] at hx
    rcases mem_append.mp hx with hx | hx
    · exact h.slots x hx
    · rcases hspec.sent x hx with ⟨w, hw, ⟨rfl, -⟩ | rfl, -⟩
      · rfl
      · rfl
  · intro x hx n hn
    rw [hsent] at hx
    rcases mem_append.mp hx with hx | hx
    · exact h.holds x hx n hn
    · rcases hspec.sent x hx with ⟨w, hw, ⟨rfl, -⟩ | rfl, -⟩
      · cases hn
        exact (windowsOf_holds hsep.conf hw).1
      · cases hn
        exact (windowsOf_holds hsep.conf hw).1
  · intro x hx
    rw [hsent] at hx
    rcases mem_append.mp hx with hx | hx
    · rcases h.kept x hx with hw | hw
      · left
        rw [active, hmanager]
        exact hspec.keep _ hw
      · exact .inr (hw.mono hsent)
    · left
      rcases hspec.sent x hx with ⟨w, hw, hop, v, hv, hend⟩
      have hxw : x.operation.window = w := by
        rcases hop with ⟨rfl, -⟩ | rfl
        · rfl
        · rfl
      have hv' : v ∈ s'.active := by
        rw [active, hmanager]
        exact hv
      have heq := (hfits v hv').eq_of_end_eq (windowsOf_fits hw) hend
      rw [hxw, ← heq]
      exact hv'
  · rw [hsent]
    refine pairwise_append.mpr ⟨h.opened, ?_, ?_⟩
    · refine hspec.fresh.imp ?_
      intro x y hne hopen heq
      exact hne hopen (by rw [heq])
    · intro x hx y hy hopen heq
      -- a window that was sent to is active or closed, so it is not opened again
      rcases hspec.sent y hy with ⟨w, hw, ⟨rfl, hnone⟩ | rfl, -⟩
      · have hxw : x.operation.window = w := heq
        rcases h.kept x hx with hactive | hclose
        · exact hnone _ hactive (by rw [hxw])
        · rcases hclose.end_le hsep with ⟨b, hb, hle⟩
          have hlt := lt_end_of_windowsOf hclock hsep.conf hphase hw b hb
          rw [hxw] at hle
          omega
      · exact hopen
  · intro w hw
    rw [closed, hmanager, assignWindows_closed] at hw
    exact (h.closed_sent w hw).mono hsent

/-- Every step keeps what holds of the messages sent. -/
theorem effect (h : s.Flow) (hsep : s.Separated) (hclock : s.Clock) (heffect : Effect gc s s') :
    s'.Flow := by
  cases heffect with
  | closed hmanager hsent => exact h.effect_closed hmanager hsent
  | assigned _ hphase hmanager hsent =>
    exact h.effect_assigned hsep hclock hphase hmanager hsent
  | quiet hmanager hsent =>
    refine ⟨?_, ?_, ?_, ?_, ?_, ?_, ?_⟩
    · rw [active, hmanager]
      exact h.fits_active
    · rw [hsent, hmanager]
      exact h.fits_sent
    · rw [hsent]
      exact h.slots
    · rw [hsent]
      exact h.holds
    · unfold CloseSent
      rw [hsent, active, hmanager]
      exact h.kept
    · rw [hsent]
      exact h.opened
    · unfold CloseSent
      rw [hsent, closed, hmanager]
      exact h.closed_sent
  | deleted _ _ hmanager hsent =>
    refine ⟨?_, ?_, ?_, ?_, ?_, ?_, ?_⟩
    · rw [active, hmanager, gcWindow_active, shape_gcWindow]
      exact h.fits_active
    · rw [hsent, hmanager, shape_gcWindow]
      exact h.fits_sent
    · rw [hsent]
      exact h.slots
    · rw [hsent]
      exact h.holds
    · unfold CloseSent
      rw [hsent, active, hmanager, gcWindow_active]
      exact h.kept
    · rw [hsent]
      exact h.opened
    · intro w hw
      rw [closed, hmanager, gcWindow_closed] at hw
      rcases h.closed_sent w (OrdSet.mem_remove.mp hw).1 with ⟨x, hx, hop⟩
      exact ⟨x, by rw [hsent]; exact hx, hop⟩

/-- The windows whose close was sent have the configured length. -/
theorem fits_closeSent (h : s.Flow) (hw : s.CloseSent w) : s.manager.shape.Fits w := by
  rcases hw with ⟨x, hx, hop⟩
  have hfits := h.fits_sent x hx
  rw [hop] at hfits
  exact hfits

end Flow

/-- In every run an open is the first operation of its window, and after a close only windows that
end later get operations. -/
theorem open_first_close_last {m : AlignedWindowManager} (hconf : m.Configured)
    (hfits : ∀ w ∈ m.activeWindows, m.shape.Fits w) (hclosed : ∀ w, w ∉ m.closedWindows)
    (allowedLateness : Nat) (keyed : Bool) (actions : List ReducerAction) :
    (exec step (init m allowedLateness keyed) actions).sent.Pairwise fun x y =>
      (y.operation.IsOpen → x.operation.window ≠ y.operation.window) ∧
        (x.operation.message = none → x.operation.window.endTime < y.operation.window.endTime) := by
  refine (exec_invariant_all (I := fun s : ReducerRun => s.Clock ∧ s.Separated ∧ s.Flow) ?_
    ⟨.init .., .init hconf hclosed .., .init hfits hclosed ..⟩).2.elim fun hsep hflow =>
      hflow.opened.and hsep.ordered
  rintro s a ⟨hclock, hsep, hflow⟩
  have heffect := step_effect hclock a
  exact ⟨hclock.step a, hsep.effect hclock heffect, hflow.effect hsep hclock heffect⟩

theorem open_first_close_last_sliding :
    (exec step (init (.sliding (.new 10000000 5000000)) 0 true) slidingActions).sent.Pairwise
      fun x y => x.operation.message = none →
        x.operation.window.endTime < y.operation.window.endTime :=
  (open_first_close_last (by decide) (by simp [activeWindows, SlidingWindowManager.new])
    (by simp [closedWindows, SlidingWindowManager.new]) 0 true slidingActions).imp And.right

namespace Effect

variable (h : Effect gc s s')

include h

/-- A step only appends to what was sent. -/
theorem sent_append : ∃ new, s'.sent = s.sent ++ new := by
  cases h with
  | quiet _ hsent | deleted _ _ _ hsent => exact ⟨[], by rw [hsent, append_nil]⟩
  | closed _ hsent | assigned _ _ _ hsent => exact ⟨_, hsent⟩

theorem shape_eq : s'.manager.shape = s.manager.shape := by
  cases h with
  | quiet hmanager => rw [hmanager]
  | closed hmanager => rw [hmanager, shape_closeWindows]
  | assigned _ _ hmanager => rw [hmanager, shape_assignWindows]
  | deleted _ _ hmanager => rw [hmanager, shape_gcWindow]

variable {b : Int}

/-- The watermark used to close windows does not decrease. -/
theorem closedAt_le (hclock : s.Clock) (hb : b ∈ s.closedAt) : ∃ b' ∈ s'.closedAt, b ≤ b' := by
  cases h with
  | quiet _ _ hclosedAt | assigned _ _ _ _ hclosedAt | deleted _ _ _ _ hclosedAt =>
    exact ⟨b, by rw [hclosedAt]; exact hb, le_rfl⟩
  | closed _ _ hclosedAt => exact ⟨s.bound, by rw [hclosedAt]; rfl, hclock.bounded b hb⟩

/-- A close that was just sent is for a window that was active and is closed now. -/
theorem closeSent_cases (hflow : s'.Flow) (hw : s'.CloseSent w) :
    s.CloseSent w ∨ (w ∈ s.active ∧ w ∈ s'.closed) := by
  cases h with
  | quiet _ hsent | deleted _ _ _ hsent =>
    unfold CloseSent at hw
    rw [hsent] at hw
    exact .inl hw
  | assigned msg _ _ hsent =>
    rcases hw with ⟨x, hx, hop⟩
    rw [hsent] at hx
    rcases mem_append.mp hx with hx | hx
    · exact .inl ⟨x, hx, hop⟩
    · rcases (s.manager.assignWindows_spec msg).sent x hx with ⟨v, -, ⟨rfl, -⟩ | rfl, -⟩
      · cases hop
      · cases hop
  | closed hmanager hsent =>
    rcases hw with ⟨x, hx, hop⟩
    have hx' := hx
    rw [hsent] at hx'
    rcases mem_append.mp hx' with hx' | hx'
    · exact .inl ⟨x, hx', hop⟩
    · rcases mem_closeWindows_messages hx' with ⟨u, hu, hle, rfl⟩
      cases hop
      rcases exists_closed_closeWindows hu hle with ⟨v, hv, hend⟩
      rw [← hmanager] at hv
      have heq := (hflow.fits_closeSent (hflow.closed_sent v hv)).eq_of_end_eq
        (hflow.fits_sent _ hx) hend
      rw [heq] at hv
      exact .inr ⟨hu, hv⟩

/-- Closed windows stay closed unless they end with the deleted window. -/
theorem closed_subset (hw : w ∈ s.closed) :
    w ∈ s'.closed ∨ ∃ window ∈ gc, w.endTime = window.endTime := by
  cases h with
  | quiet hmanager =>
    left
    rw [ReducerRun.closed, hmanager]
    exact hw
  | closed hmanager =>
    left
    rw [ReducerRun.closed, hmanager]
    exact closed_subset_closeWindows hw
  | assigned _ _ hmanager =>
    left
    rw [ReducerRun.closed, hmanager, assignWindows_closed]
    exact hw
  | deleted window hgc hmanager =>
    rw [ReducerRun.closed, hmanager, gcWindow_closed, OrdSet.mem_remove]
    by_cases hend : w.endTime = window.endTime
    · exact .inr ⟨window, hgc, hend⟩
    · exact .inl ⟨hw, hend⟩

end Effect

end Numaflow.Aligned.ReducerRun
