import Numaflow.Reduce.Aligned.Reducer
import Numaflow.Reduce.Aligned.Restart
import Numaflow.Reduce.Unaligned.Vertex

/-!
# Allowed lateness

A late message is to be assigned to its windows as long as its event time is not below
the watermark less the allowed lateness.  The reducers check this, and then drop every
message, late or not, whose event time the watermark has passed.

While a reducer works on a message, reduce tasks delete closed windows.  A sliding window
manager that was restarted also knows windows that were deleted before.

Main results: `Reducer.read_late`, `Aligned.ReducerRun.honours_iff`,
`Unaligned.VertexRun.honours_iff`.
-/

namespace Numaflow

open Lib List Unaligned AccumulatorWindowManager

/-! ## Reading -/

variable {watermark : Int} {msg : Message}

namespace Reducer

variable {μ : Type} {r : Reducer μ}

/-- A message that is late but within the allowed lateness of a known watermark. -/
structure LateWithin (r : Reducer μ) (msg : Message) : Prop where
  running : r.shuttingDownOnErr = false
  data : msg.typ = .data
  late : msg.isLate = true
  known : timestampMillis (advanceWatermark r.currentWatermark msg) ≠ -1
  within : advanceWatermark r.currentWatermark msg - r.allowedLateness ≤ msg.eventTime

/-- The watermark after reading the message has not passed its event time. -/
def NotPassed (r : Reducer μ) (msg : Message) : Prop :=
  advanceWatermark r.currentWatermark msg ≤ msg.eventTime
deriving Decidable

theorem advanceWatermark_rekey (keyed : Bool) (watermark : Int) (msg : Message) :
    advanceWatermark watermark (rekey keyed msg) = advanceWatermark watermark msg := by
  rw [advanceWatermark, rekey_watermark, advanceWatermark]

/-- The check of the event time decides alone about a message within the lateness. -/
theorem dropReason_within {lateness : Nat} (hknown : timestampMillis watermark ≠ -1)
    (hwithin : watermark - lateness ≤ msg.eventTime) : dropReason watermark lateness msg =
      if msg.eventTime < watermark then some "old-message-popped-up" else none := by
  unfold dropReason
  rw [if_neg (fun h => hknown h.2), if_neg (fun h => absurd h.2 (not_lt.mpr hwithin))]

/-- A late message within the allowed lateness goes on to be assigned exactly when the watermark has
not passed its event time. -/
theorem read_late (h : r.LateWithin msg) :
    (r.read msg).2 = if r.NotPassed msg then .closing (some (rekey r.keyed msg)) else .idle := by
  have hwithin : advanceWatermark r.currentWatermark msg - r.allowedLateness ≤
      (rekey r.keyed msg).eventTime := by
    rw [rekey_eventTime]
    exact h.within
  simp only [read, h.running, h.data, Bool.false_eq_true, if_false]
  rw [advanceWatermark_rekey, dropReason_within h.known hwithin, rekey_eventTime]
  by_cases hpassed : msg.eventTime < advanceWatermark r.currentWatermark msg
  · simp only [if_pos hpassed, if_neg (show ¬ r.NotPassed msg from not_le.mpr hpassed)]
  · simp only [if_neg hpassed, if_pos (show r.NotPassed msg from not_lt.mp hpassed)]

theorem read_late_eq_closing (h : r.LateWithin msg) :
    (r.read msg).2 = .closing (some (rekey r.keyed msg)) ↔ r.NotPassed msg := by
  rw [read_late h]
  by_cases hpassed : r.NotPassed msg
  · simp [hpassed]
  · simp [hpassed]

end Reducer

/-! ## Aligned windows -/

namespace Aligned

variable {m : AlignedWindowManager}

namespace AlignedWindowManager

/-- A sliding window manager does not open the window again: it is not active, and no
later than the latest one deleted. -/
def Deleted : AlignedWindowManager → Window → Prop
  | .fixed _, _ => False
  | .sliding m, w => (∀ v ∈ m.activeWindows.toList, v.endTime ≠ w.endTime) ∧
      timestampMillis w.endTime ≤ m.maxDeletedWindowEndTime

instance (w : Window) : DecidablePred fun m : AlignedWindowManager => m.Deleted w
  | .fixed _ => inferInstanceAs (Decidable False)
  | .sliding m => inferInstanceAs (Decidable ((∀ v ∈ m.activeWindows.toList, _) ∧ _ ≤ _))

/-- One of the operations gives the message to the window. -/
def Gives (ops : List AlignedWindowMessage) (msg : Message) (w : Window) : Prop :=
  ∃ x ∈ ops, x.operation.message = some msg ∧ x.operation.window = w

variable {w v : Window} {ops : List AlignedWindowMessage}

/-- Close operations give no messages. -/
theorem gives_append_closes (windows : List Window) :
    Gives (windows.map closeMessage ++ ops) msg w ↔ Gives ops msg w := by
  constructor
  · rintro ⟨x, hx, hmsg, hwindow⟩
    rcases mem_append.mp hx with hx | hx
    · rcases mem_map.mp hx with ⟨v, -, rfl⟩
      cases hmsg
    · exact ⟨x, hx, hmsg, hwindow⟩
  · rintro ⟨x, hx, hop⟩
    exact ⟨x, mem_append_right _ hx, hop⟩

/-- An assignment gives the message to those of its windows that are not deleted. -/
theorem gives_assignWindows (hw : w ∈ m.windowsOf msg) :
    Gives (m.assignWindows msg).2 msg w ↔ ¬ m.Deleted w := by
  cases m with
  | fixed =>
    rw [windowsOf, mem_singleton] at hw
    subst hw
    refine iff_of_true ?_ id
    simp only [assignWindows, FixedWindowManager.assignWindows]
    split_ifs
    · exact ⟨_, mem_singleton_self _, rfl, rfl⟩
    · exact ⟨_, mem_singleton_self _, rfl, rfl⟩
  | sliding =>
    constructor
    · rintro ⟨x, hx, -, rfl⟩ ⟨hnone, hle⟩
      rcases SlidingWindowManager.mem_collect hx with hlt | ⟨⟨v, hv, hend⟩, -⟩
      · omega
      · exact hnone v hv hend
    · intro hdeleted
      refine SlidingWindowManager.exists_mem_collect hw ?_
      by_contra hdue
      rw [not_or, not_lt] at hdue
      exact hdeleted ⟨fun v hv hend => hdue.1 ⟨v, hv, hend⟩, hdue.2⟩

theorem deleted_closeWindows (hw : watermark < w.endTime) :
    (m.closeWindows watermark).1.Deleted w ↔ m.Deleted w := by
  cases m with
  | fixed => exact Iff.rfl
  | sliding m =>
    refine and_congr_left fun _ => ?_
    constructor
    · intro h v hv hend
      have hkept : v ∈ (closeExpired m.activeWindows m.closedWindows watermark).1 :=
        mem_closeExpired_active.mpr ⟨hv, by omega⟩
      exact h v hkept hend
    · intro h v hv
      have hkept : v ∈ (closeExpired m.activeWindows m.closedWindows watermark).1 := hv
      exact h v (mem_closeExpired_active.mp hkept).1

/-- Deleting a window leaves later windows alone. -/
theorem deleted_gcWindow {shape : WindowShape} (hfits : shape.Fits w) (hv : v.endTime < w.endTime) :
    (m.gcWindow v).Deleted w ↔ m.Deleted w := by
  cases m with
  | fixed => exact Iff.rfl
  | sliding =>
    refine and_congr_right fun _ => ?_
    have hlt := (SlidingRun.lt_endTime_iff hfits v.endTime).mpr hv
    simp only [SlidingWindowManager.gcWindow, le_max_iff]
    omega

end AlignedWindowManager

namespace ReducerRun

open AlignedWindowManager (Gives)

/-- The steps of a call for a message.  Reduce tasks delete closed windows before and
after windows are closed. -/
def assignAndCloseWindows (msg : Message) (before after : List Window) : List ReducerAction :=
  .read msg :: (before.map .gc ++ .close :: (after.map .gc ++ [.assign]))

/-- The call does not drop the message, and gives it to all of its windows. -/
def Honours (s : ReducerRun) (msg : Message) (before after : List Window) : Prop :=
  (s.step (.read msg)).phase = .closing (some (rekey s.reducer.keyed msg)) ∧
    ∃ ops, (exec step s (assignAndCloseWindows msg before after)).sent = s.sent ++ ops ∧
      ∀ w ∈ s.manager.windowsOf msg, Gives ops (rekey s.reducer.keyed msg) w

/-- Invariant of the watermarks and of the windows. -/
structure Ordered (s : ReducerRun) : Prop where
  clock : s.Clock
  separated : s.Separated

/-- What deleting windows leaves as it is. -/
structure Kept (s s' : ReducerRun) : Prop where
  phase : s'.phase = s.phase
  bound : s'.bound = s.bound
  sent : s'.sent = s.sent
  windowsOf : ∀ msg, s'.manager.windowsOf msg = s.manager.windowsOf msg
  deleted : ∀ shape : WindowShape, ∀ w, shape.Fits w → s.bound < w.endTime →
    (s'.manager.Deleted w ↔ s.manager.Deleted w)

section

variable {s s' s'' : ReducerRun}

theorem Ordered.step (h : s.Ordered) (a : ReducerAction) : (s.step a).Ordered :=
  ⟨h.clock.step a, h.separated.effect h.clock (step_effect h.clock a)⟩

variable {n : Message}

theorem Ordered.exec_init (hconf : m.Configured) (hclosed : ∀ w, w ∉ m.closedWindows)
    (allowedLateness : Nat) (keyed : Bool) (actions : List ReducerAction) :
    (exec ReducerRun.step (init m allowedLateness keyed) actions).Ordered :=
  exec_invariant_all (fun _ a h => h.step a)
    ⟨Clock.init m allowedLateness keyed, Separated.init hconf hclosed allowedLateness keyed⟩

theorem Kept.refl (s : ReducerRun) : Kept s s :=
  ⟨rfl, rfl, rfl, fun _ => rfl, fun _ _ _ _ => Iff.rfl⟩

theorem Kept.trans (h : Kept s s') (h' : Kept s' s'') : Kept s s'' where
  phase := h'.phase.trans h.phase
  bound := h'.bound.trans h.bound
  sent := h'.sent.trans h.sent
  windowsOf := fun n => (h'.windowsOf n).trans (h.windowsOf n)
  deleted := by
    intro shape w hfits hw
    rw [← h.deleted shape w hfits hw]
    apply h'.deleted shape w hfits
    rw [h.bound]
    exact hw

theorem kept_gc (h : s.Ordered) (v : Window) : Kept s (s.step (.gc v)) := by
  by_cases hv : v ∈ s.closed.toList
  · rw [step, if_pos hv]
    refine ⟨rfl, rfl, rfl, fun _ => AlignedWindowManager.windowsOf_gcWindow, ?_⟩
    intro shape w hfits hw
    apply AlignedWindowManager.deleted_gcWindow hfits
    exact (h.clock.le_bound (h.separated.below v hv)).trans_lt hw
  · rw [step, if_neg hv]
    exact Kept.refl s

/-- Deleting windows, one after the other. -/
theorem kept_gcs (h : s.Ordered) (windows : List Window) :
    (exec step s (windows.map .gc)).Ordered ∧ Kept s (exec step s (windows.map .gc)) := by
  induction windows generalizing s with
  | nil => exact ⟨h, Kept.refl s⟩
  | cons v _ ih =>
    rcases ih (h.step (.gc v)) with ⟨hordered, hkept⟩
    exact ⟨hordered, (kept_gc h v).trans hkept⟩

/-- The rest of a call that does not drop its message. -/
theorem sent_of_closing (h : s.Ordered) (hphase : s.phase = .closing (some n))
    (before after : List Window) : ∃ (windows : List Window) (ops : List AlignedWindowMessage),
      (exec step s (before.map .gc ++ .close :: (after.map .gc ++ [.assign]))).sent =
        s.sent ++ (windows.map closeMessage ++ ops) ∧
      ∀ w ∈ s.manager.windowsOf n, Gives ops n w ↔ ¬ s.manager.Deleted w := by
  rcases kept_gcs h before with ⟨hordered₁, hkept₁⟩
  set s₁ := exec step s (before.map .gc) with hs₁
  have hphase₁ := hkept₁.phase.trans hphase
  have hclose : s₁.step .close = { s₁.withManager (s₁.manager.closeWindows s₁.bound).1 with
      sent := s₁.sent ++ (s₁.manager.closeWindows s₁.bound).2
      closedAt := some s₁.bound
      swept := true
      phase := .assigning n } := by
    simp only [step, hphase₁, hordered₁.clock.closeWatermark]
    rfl
  rcases kept_gcs (hordered₁.step .close) after with ⟨-, hkept₂⟩
  rw [hclose] at hkept₂
  set s₂ := exec step _ (after.map .gc) with hs₂
  have hassign : (s₂.step .assign).sent = s₂.sent ++ (s₂.manager.assignWindows n).2 := by
    have hphase₂ := hkept₂.phase
    simp only [step, hphase₂]
  refine ⟨s₁.manager.activeWindows.toList.filter fun w => decide (w.endTime ≤ s₁.bound),
    (s₂.manager.assignWindows n).2, ?_, ?_⟩
  · rw [exec_append, ← hs₁, exec, hclose, exec_append, ← hs₂, exec, exec, hassign, hkept₂.sent,
      AlignedWindowManager.closeWindows_messages, hkept₁.sent, append_assoc]
  · intro w hw
    have hw₁ : w ∈ s₁.manager.windowsOf n := by
      rw [hkept₁.windowsOf]
      exact hw
    have hw₂ : w ∈ s₂.manager.windowsOf n := by
      rw [hkept₂.windowsOf]
      show w ∈ (s₁.manager.closeWindows s₁.bound).1.windowsOf n
      rw [AlignedWindowManager.windowsOf_closeWindows]
      exact hw₁
    -- the window ends after the event time, which the bound has not passed
    have hend : s.bound < w.endTime := by
      have hholds := (AlignedWindowManager.windowsOf_holds h.separated.conf hw).2
      have hle := h.clock.closing n hphase
      unfold bound
      omega
    have hend₁ : s₁.bound < w.endTime := by
      rw [hkept₁.bound]
      exact hend
    have hfits := AlignedWindowManager.windowsOf_fits hw
    rw [AlignedWindowManager.gives_assignWindows hw₂, hkept₂.deleted _ w hfits hend₁,
      ← hkept₁.deleted _ w hfits hend]
    exact not_congr (AlignedWindowManager.deleted_closeWindows hend₁)

theorem windowsOf_rekey (m : AlignedWindowManager) (keyed : Bool) (msg : Message) :
    m.windowsOf (rekey keyed msg) = m.windowsOf msg := by
  rw [m.windowsOf_eventTime, rekey_eventTime, ← m.windowsOf_eventTime]

/-- The aligned reducer assigns a late message within the allowed lateness exactly when
the watermark has not passed its event time, and none of its windows is deleted. -/
theorem honours_iff (h : s.Ordered) (hidle : s.phase = .idle) (hlate : s.reducer.LateWithin msg)
    (before after : List Window) :
    s.Honours msg before after ↔
      s.reducer.NotPassed msg ∧ ∀ w ∈ s.manager.windowsOf msg, ¬ s.manager.Deleted w := by
  have hread : (s.step (.read msg)).phase = (s.reducer.read msg).2 := by rw [step, if_pos hidle]
  have hmanager : (s.step (.read msg)).manager = s.manager := by
    rw [step, if_pos hidle]
    exact (s.reducer.read_windowManager msg).1
  have hsent : (s.step (.read msg)).sent = s.sent := by rw [step, if_pos hidle]
  unfold Honours
  rw [hread, Reducer.read_late_eq_closing hlate]
  refine and_congr_right fun hpassed => ?_
  have hphase := hread.trans ((Reducer.read_late_eq_closing hlate).mpr hpassed)
  rcases sent_of_closing (h.step (.read msg)) hphase before after with
    ⟨windows, ops, hcall, hgives⟩
  rw [hmanager, windowsOf_rekey] at hgives
  rw [hsent] at hcall
  constructor
  · rintro ⟨ops', hops', hall⟩ w hw
    rw [assignAndCloseWindows, exec, hcall] at hops'
    rw [← hgives w hw, ← AlignedWindowManager.gives_append_closes windows, append_cancel_left hops']
    exact hall w hw
  · intro hdeleted
    refine ⟨windows.map closeMessage ++ ops, hcall, ?_⟩
    intro w hw
    rw [AlignedWindowManager.gives_append_closes, hgives w hw]
    exact hdeleted w hw

end

end ReducerRun
end Aligned

/-! ## Unaligned windows -/

namespace Unaligned

/-- The operation gives the message to the window. -/
def UnalignedWindowOperation.Gives (op : UnalignedWindowOperation) (msg : Message) (w : Window) :
    Prop :=
  op = .openOp msg w ∨ op = .appendOp msg w ∨ ∃ old, op = .expandOp msg [old, w]

namespace UnalignedWindowManager

/-- The window is one for the message: a session around its event time and the timeout
after it, or the accumulator window of its keys, which has its event time. -/
def Belongs : UnalignedWindowManager → Message → Window → Prop
  | .accumulator m, msg, w => ∃ state, m.activeWindows.lookup (combineKeys msg.keys) = some state ∧
      state.window = w ∧ msg.eventTime ∈ state.messageTimestamps
  | .session m, msg, w =>
    w.startTime ≤ (SessionWindowManager.newWindow m.timeout msg).startTime ∧
      (SessionWindowManager.newWindow m.timeout msg).endTime ≤ w.endTime

/-- Every assignment gives the message to a window of its own. -/
theorem gives_assignWindows (m : UnalignedWindowManager) (msg : Message) :
    ∃ x ∈ (m.assignWindows msg).2, ∃ w, x.operation.Gives msg w ∧
      (m.assignWindows msg).1.Belongs msg w := by
  cases m with
  | accumulator m =>
    rw [assignWindows_accumulator]
    unfold AccumulatorWindowManager.assignWindows
    cases hlookup : m.activeWindows.lookup (combineKeys msg.keys) with
    | some state =>
      simp only [hlookup]
      refine ⟨_, mem_singleton_self _, state.window, .inr (.inl rfl), _,
        AList.lookup_insert _, rfl, ?_⟩
      exact mem_appendTimestamp.mpr (.inr rfl)
    | none =>
      simp only [hlookup]
      refine ⟨_, mem_singleton_self _, _, .inl rfl, _, AList.lookup_insert _, rfl, ?_⟩
      exact mem_appendTimestamp.mpr (.inr rfl)
  | session m =>
    rw [assignWindows_session]
    rcases m.assignWindows_cases msg rfl rfl rfl with
      ⟨existing, -, hinside, heq⟩ | ⟨existing, -, -, heq⟩ | ⟨-, heq⟩
    · rw [heq]
      exact ⟨_, mem_singleton_self _, existing, .inr (.inl rfl), hinside⟩
    · rw [heq]
      refine ⟨_, mem_singleton_self _, _, .inr (.inr ⟨existing, rfl⟩), ?_, ?_⟩
      · exact min_le_left _ _
      · exact le_max_left _ _
    · rw [heq]
      exact ⟨_, mem_singleton_self _, _, .inl rfl, le_rfl, le_rfl⟩

end UnalignedWindowManager

/-- A step of the SDK or of the reduce task. -/
def VertexAction.ofTask : VertexAction → Bool
  | .response _ _ => true
  | .tick _ _ => true
  | _ => false

namespace VertexRun

/-- The steps of a call for a message.  The SDK answers and the reduce task deletes
windows before and after windows are closed. -/
def assignAndCloseWindows (msg : Message) (order : List String)
    (before after : List VertexAction) : List VertexAction :=
  .read msg :: (before.filter VertexAction.ofTask ++
    .close order :: (after.filter VertexAction.ofTask ++ [.assign]))

/-- The call does not drop the message, and gives it to a window of its own. -/
def Honours (s : VertexRun) (msg : Message) (order : List String)
    (before after : List VertexAction) : Prop :=
  let s' := exec step s (assignAndCloseWindows msg order before after)
  (s.step (.read msg)).phase = .closing (some (rekey s.reducer.keyed msg)) ∧
    ∃ ops, s'.sent = s.sent ++ ops ∧ ∃ x ∈ ops, ∃ w,
      x.operation.Gives (rekey s.reducer.keyed msg) w ∧
        s'.manager.Belongs (rekey s.reducer.keyed msg) w

variable {s : VertexRun} {a : VertexAction}

theorem step_ofTask (h : a.ofTask = true) :
    (s.step a).phase = s.phase ∧ (s.step a).sent = s.sent := by
  cases a with
  | response =>
    simp only [step]
    split_ifs
    · exact ⟨rfl, rfl⟩
    · exact ⟨rfl, rfl⟩
  | tick => exact ⟨rfl, rfl⟩
  | read | close | assign | error => cases h

/-- The SDK and the reduce task leave the reducer where it is and send nothing for it. -/
theorem exec_ofTask (s : VertexRun) (actions : List VertexAction) :
    (exec step s (actions.filter VertexAction.ofTask)).phase = s.phase ∧
      (exec step s (actions.filter VertexAction.ofTask)).sent = s.sent := by
  induction actions generalizing s with
  | nil => exact ⟨rfl, rfl⟩
  | cons a _ ih =>
    by_cases htask : a.ofTask = true
    · rw [filter_cons_of_pos htask]
      rcases ih (s.step a) with ⟨hphase, hsent⟩
      rcases step_ofTask (s := s) htask with ⟨hphase', hsent'⟩
      exact ⟨hphase.trans hphase', hsent.trans hsent'⟩
    · rw [filter_cons_of_neg htask]
      exact ih s

/-- The unaligned reducer assigns a late message within the allowed lateness exactly when
the watermark has not passed its event time. -/
theorem honours_iff (hidle : s.phase = .idle) (hlate : s.reducer.LateWithin msg)
    (order : List String) (before after : List VertexAction) :
    s.Honours msg order before after ↔ s.reducer.NotPassed msg := by
  have hread : s.step (.read msg) = s.readMessage msg := if_pos hidle
  have hphase : (s.readMessage msg).phase = (s.reducer.read msg).2 := rfl
  unfold Honours
  rw [hread, hphase, Reducer.read_late_eq_closing hlate]
  refine and_iff_left_of_imp fun hpassed => ?_
  rw [assignAndCloseWindows, exec, hread, exec_append]
  rcases exec_ofTask (s.readMessage msg) before with ⟨hphase₁, hsent₁⟩
  rw [hphase, (Reducer.read_late_eq_closing hlate).mpr hpassed] at hphase₁
  set s₁ := exec step (s.readMessage msg) (before.filter VertexAction.ofTask)
  have hclose : s₁.step (.close order) =
      s₁.closeWindowsByWm order (some (rekey s.reducer.keyed msg)) := by
    simp only [step, hphase₁]
  rw [exec, hclose, exec_append]
  rcases exec_ofTask (s₁.closeWindowsByWm order (some (rekey s.reducer.keyed msg))) after with
    ⟨hphase₂, hsent₂⟩
  set s₂ := exec step (s₁.closeWindowsByWm order (some (rekey s.reducer.keyed msg)))
    (after.filter VertexAction.ofTask)
  have hassign : s₂.step .assign = s₂.assignMessage (rekey s.reducer.keyed msg) := by
    have hassigning : s₂.phase = .assigning (rekey s.reducer.keyed msg) := hphase₂
    simp only [step, hassigning]
  rw [exec, exec, hassign, assignMessage_sent, hsent₂, closeWindowsByWm_sent, hsent₁, append_assoc]
  rcases s₂.manager.gives_assignWindows (rekey s.reducer.keyed msg) with ⟨x, hx, hgives⟩
  exact ⟨_, rfl, x, mem_append_right _ hx, hgives⟩

end VertexRun
end Unaligned

/-! ## Both reducers -/

/-- Late messages within the allowed lateness are assigned to their windows exactly when
the watermark has not passed their event time.  A sliding window manager that was
restarted, in addition, gives none to a window that was deleted before. -/
theorem late_message_assigned_iff (allowedLateness : Nat) (keyed : Bool) (msg : Message) :
    (∀ (m : Aligned.AlignedWindowManager) (actions : List Aligned.ReducerAction)
      (before after : List Aligned.Window),
      m.Configured → (∀ w, w ∉ m.closedWindows) →
      let s := exec Aligned.ReducerRun.step (.init m allowedLateness keyed) actions
      s.phase = .idle → s.reducer.LateWithin msg →
      (s.Honours msg before after ↔
        s.reducer.NotPassed msg ∧ ∀ w ∈ s.manager.windowsOf msg, ¬ s.manager.Deleted w)) ∧
    (∀ (m : UnalignedWindowManager) (hasGcWal : Bool)
      (actions : List VertexAction) (order : List String)
      (before after : List VertexAction),
      let s := exec VertexRun.step (.init m allowedLateness keyed hasGcWal) actions
      s.phase = .idle → s.reducer.LateWithin msg →
      (s.Honours msg order before after ↔ s.reducer.NotPassed msg)) := by
  constructor
  · intro m actions before after hconf hclosed s hidle hlate
    have hordered : s.Ordered :=
      Aligned.ReducerRun.Ordered.exec_init hconf hclosed allowedLateness keyed actions
    exact Aligned.ReducerRun.honours_iff hordered hidle hlate before after
  · intro m hasGcWal actions order before after s hidle hlate
    exact VertexRun.honours_iff hidle hlate order before after

/-- A message on time, with which the watermark reaches 16 seconds. -/
def onTimeMessage : Message :=
  { eventTime := 18000000000, watermark := some 16000000000 }

/-- A late message from the given time. -/
def lateMessage (eventTime : Int) : Message :=
  { eventTime := eventTime, watermark := some 16000000000, isLate := true }

/-- An aligned reducer with overlapping windows that has read one message; messages may
be late by 5 seconds. -/
def alignedAtWork : Aligned.ReducerRun :=
  exec Aligned.ReducerRun.step (.init (.sliding (.new 10000000000 5000000000)) 5000000000 true)
    [.read onTimeMessage, .close, .assign]

/-- An unaligned reducer with sessions that has read the same message. -/
def unalignedAtWork : Unaligned.VertexRun :=
  exec Unaligned.VertexRun.step (.init (.session (.new 10000000000)) 5000000000 true true)
    [.read onTimeMessage, .close [], .assign]

theorem late_message_assigned_example : alignedAtWork.Honours (lateMessage 17000000000) [] [] ∧
      unalignedAtWork.Honours (lateMessage 17000000000) [] [] [] := by
  constructor
  · have hiff := (late_message_assigned_iff 5000000000 true (lateMessage 17000000000)).1
      (.sliding (.new 10000000000 5000000000)) [.read onTimeMessage, .close, .assign] [] []
      (by decide)
      (by simp [Aligned.AlignedWindowManager.closedWindows, Aligned.SlidingWindowManager.new])
      (by decide +kernel) ⟨by decide +kernel, rfl, rfl, by decide +kernel, by decide +kernel⟩
    exact hiff.mpr (by decide +kernel)
  · have hiff := (late_message_assigned_iff 5000000000 true (lateMessage 17000000000)).2
      (.session (.new 10000000000)) true [.read onTimeMessage, .close [], .assign] [] [] []
      (by decide +kernel) ⟨by decide +kernel, rfl, rfl, by decide +kernel, by decide +kernel⟩
    exact hiff.mpr (by decide +kernel)

/-- A message that is late by 4 of the 5 seconds allowed is dropped. -/
theorem late_message_dropped : alignedAtWork.reducer.LateWithin (lateMessage 12000000000) ∧
      ¬ alignedAtWork.Honours (lateMessage 12000000000) [] [] ∧
      unalignedAtWork.reducer.LateWithin (lateMessage 12000000000) ∧
      ¬ unalignedAtWork.Honours (lateMessage 12000000000) [] [] [] := by
  refine ⟨?_, ?_, ?_, ?_⟩
  · exact ⟨by decide +kernel, rfl, rfl, by decide +kernel, by decide +kernel⟩
  · intro h
    exact absurd h.1 (by decide +kernel)
  · exact ⟨by decide +kernel, rfl, rfl, by decide +kernel, by decide +kernel⟩
  · intro h
    exact absurd h.1 (by decide +kernel)

end Numaflow
