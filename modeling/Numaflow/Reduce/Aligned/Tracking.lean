import Numaflow.Reduce.Aligned.Actor

/-!
# The actor follows the reducer

A time is passed when no window that is still due starts before it, now or later.
There is one task per window, the tasks end in the order of the end times of their
windows, and the times of all GC events are passed.

Main results: `Passed.effect`, `Tracked.passed_end`, `Tracked.passed_oldest`,
`Tracked.receive_open`, `Tracked.receive_close`, `Tracked.setPhase`.
-/

namespace Numaflow.Aligned.ActorRun

open Lib ReduceTask List

/-! ## Passed times -/

/-- No window that is still due starts before the time: neither one that ends after
the last watermark used to close windows, nor one that is closed and not done. -/
structure Passed (r : ReducerRun) (done : Window → Prop) (t : Int) : Prop where
  ahead : ∃ b ∈ r.closedAt, ∀ w, r.manager.shape.Fits w → b < w.endTime → t ≤ w.startTime
  behind : ∀ x ∈ r.sent, x.operation.message ≠ none → r.CloseSent x.operation.window →
    ¬ done x.operation.window → t ≤ x.operation.window.startTime

variable {r' : ReducerRun} {gc : Option Window}

namespace Passed

variable {r : ReducerRun} {done done' : Window → Prop} {t : Int}

theorem mono (h : Passed r done t) (hdone : ∀ w, done w → done' w) : Passed r done' t :=
  ⟨h.ahead, fun x hx hdata hclose hnot =>
    h.behind x hx hdata hclose fun hd => hnot (hdone _ hd)⟩

/-- A step of the reducer keeps passed times passed. -/
theorem effect (h : Passed r done t) (hclock : r.Clock) (hsep : r.Separated) (hflow : r.Flow)
    (heffect : ReducerRun.Effect gc r r') : Passed r' done t := by
  have hsep' := hsep.effect hclock heffect
  have hflow' := hflow.effect hsep hclock heffect
  rcases h.ahead with ⟨b, hb, hahead⟩
  constructor
  · rcases heffect.closedAt_le hclock hb with ⟨b', hb', hle⟩
    refine ⟨b', hb', ?_⟩
    intro w hw hlt
    rw [heffect.shape_eq] at hw
    exact hahead w hw (by omega)
  · intro x hx hdata hclose hnot
    rcases heffect.closeSent_cases hflow' hclose with hclose | ⟨hactive, -⟩
    · rcases heffect.sent_append with ⟨new, hsent⟩
      have hordered := hsep'.ordered
      rw [hsent] at hx hordered
      rcases mem_append.mp hx with hx | hx
      · exact h.behind x hx hdata hclose hnot
      · -- nothing is sent to a window after its close
        rcases hclose with ⟨y, hy, hop⟩
        have hlt := (pairwise_append.mp hordered).2.2 y hy x hx (by rw [hop]; rfl)
        rw [hop] at hlt
        exact absurd hlt (lt_irrefl _)
    · exact hahead _ (hflow.fits_active _ hactive) (hsep.above b hb _ hactive)

end Passed

/-! ## The invariant -/

/-- The actor has received the close of the window. -/
def CloseHandled (s : ActorRun) (w : Window) : Prop :=
  ∃ x ∈ s.handled, x.operation = .closeOp w

/-- The actor and its tasks follow what the reducer has sent: there is one task per
window, the senders are dropped one after the other in the order of the end times,
and the times of all GC events are passed. -/
structure Tracked (s : ActorRun) : Prop where
  slot : ∀ t ∈ s.tasks, t.slot = windowToPnfSlot t.window
  data : ∀ t ∈ s.tasks, ∃ x ∈ s.handled, x.operation.message ≠ none ∧
    x.operation.window = t.window
  sender : ∀ t ∈ s.tasks, (t.sender = .held ∧ ¬ s.CloseHandled t.window) ∨
    (t.sender = .dropped ∧ s.CloseHandled t.window)
  unique : (s.tasks.map ReduceTask.window).Nodup
  started : ∀ x ∈ s.handled, x.operation.message ≠ none →
    ∃ t ∈ s.tasks, t.window = x.operation.window
  ended : ∀ t ∈ s.tasks, ∀ u ∈ s.tasks, t.sender = .dropped → u.sender = .dropped →
    t.window.endTime < u.window.endTime → t.phase.ended = true
  completed : ∀ t ∈ s.tasks, t.phase.completed = true → t.sender = .dropped
  serial : s.reducer.manager.shape.sliding = false → ∀ t ∈ s.tasks, ∀ u ∈ s.tasks,
    u.phase.completed = true → t.window.endTime < u.window.endTime → t.phase.completed = true
  closed : ∀ w, s.reducer.CloseSent w → w ∈ s.reducer.closed ∨
    ∃ t ∈ s.tasks, t.window = w ∧ t.phase.removed = true
  pending : ∀ t ∈ s.tasks, ∀ oldest, t.phase = .oldestRead oldest ∨ t.phase = .deleted oldest →
    Passed s.reducer s.Completed oldest.startTime
  events : ∀ event ∈ s.gcEvents, ∃ gc ∈ event.toEntry,
    Passed s.reducer s.Completed gc.endTime

variable {s : ActorRun} {w : Window} {x : AlignedWindowMessage}

section

theorem mem_sent_of_handled (hx : x ∈ s.handled) : x ∈ s.reducer.sent :=
  mem_of_mem_take hx

theorem CloseHandled.closeSent (h : s.CloseHandled w) : s.reducer.CloseSent w := by
  rcases h with ⟨y, hy, hop⟩
  exact ⟨y, mem_sent_of_handled hy, hop⟩

/-- What the actor has not received is for windows that end after those whose close
it has received. -/
theorem CloseHandled.lt_queued (h : s.CloseHandled w) (hsep : s.reducer.Separated)
    (hx : x ∈ s.reducer.sent.drop s.received) : w.endTime < x.operation.window.endTime := by
  rcases h with ⟨y, hy, hop⟩
  have hordered := hsep.ordered
  rw [← take_append_drop s.received s.reducer.sent] at hordered
  have hlt := (pairwise_append.mp hordered).2.2 y hy x hx (by rw [hop]; rfl)
  rw [hop] at hlt
  exact hlt

theorem handled_or_queued (hx : x ∈ s.reducer.sent) :
    x ∈ s.handled ∨ x ∈ s.reducer.sent.drop s.received := by
  rw [← take_append_drop s.received s.reducer.sent] at hx
  exact mem_append.mp hx

end

variable {u : ReduceTask}

namespace Tracked

variable {t : ReduceTask} (h : s.Tracked) (hflow : s.reducer.Flow) (ht : t ∈ s.tasks)

include h hflow ht

theorem fits : s.reducer.manager.shape.Fits t.window := by
  rcases h.data t ht with ⟨x, hx, -, hw⟩
  rw [← hw]
  exact hflow.fits_sent x (mem_sent_of_handled hx)

omit hflow in
theorem closeHandled (hdropped : t.sender = .dropped) : s.CloseHandled t.window := by
  rcases h.sender t ht with ⟨hheld, -⟩ | ⟨-, hclose⟩
  · rw [hheld] at hdropped
    cases hdropped
  · exact hclose

variable (hsep : s.reducer.Separated)

include hsep

/-- A task whose sender is held is for a window that ends after those of all tasks
whose sender is dropped. -/
theorem dropped_lt_held (hu : u ∈ s.tasks) (hheld : t.sender = .held)
    (hdropped : u.sender = .dropped) : u.window.endTime < t.window.endTime := by
  have hclose := h.closeHandled hu hdropped
  have hopen : ¬ s.CloseHandled t.window := by
    rcases h.sender t ht with ⟨-, hnot⟩ | ⟨hd, -⟩
    · exact hnot
    · rw [hheld] at hd
      cases hd
  rcases h.data t ht with ⟨x, hx, -, hw⟩
  rcases hflow.kept x (mem_sent_of_handled hx) with hactive | ⟨y, hy, hop⟩
  · rcases hclose.closeSent.end_le hsep with ⟨b, hb, hle⟩
    have hlt := hsep.above b hb _ hactive
    rw [hw] at hlt
    omega
  · rcases handled_or_queued hy with hy | hy
    · exact absurd ⟨y, hy, by rw [hop, hw]⟩ hopen
    · have hlt := hclose.lt_queued hsep hy
      rw [hop, ← hw] at *
      exact hlt

omit hflow in
omit hsep in
/-- A task of a window is determined by the window. -/
theorem eq_of_window_eq (hu : u ∈ s.tasks) (hw : t.window = u.window) : t = u :=
  inj_on_of_nodup_map h.unique ht hu hw

/-! ## Times of the GC events -/

/-- The end of a completed fixed window is passed. -/
theorem passed_end (hfixed : s.reducer.manager.shape.sliding = false)
    (hcompleted : t.phase.completed = true) : Passed s.reducer s.Completed t.window.endTime := by
  have hclose := h.closeHandled ht (h.completed t ht hcompleted)
  constructor
  · rcases hclose.closeSent.end_le hsep with ⟨b, hb, hle⟩
    refine ⟨b, hb, ?_⟩
    intro w hw hlt
    exact (h.fits hflow ht).end_le_start hw hfixed (by omega)
  · intro x hx hdata hsent hnot
    have hfits := hflow.fits_sent x hx
    apply (h.fits hflow ht).end_le_start hfits hfixed
    by_contra hle
    have hne : x.operation.window.endTime ≠ t.window.endTime := by
      intro heq
      exact hnot ⟨t, ht, ((hfits.eq_of_end_eq (h.fits hflow ht)) heq).symm, hcompleted⟩
    -- its close and its messages were received, so its task completed first
    rcases hsent with ⟨y, hy, hop⟩
    rcases handled_or_queued hy with hy | hy
    · rcases handled_or_queued hx with hx | hx
      · rcases h.started x hx hdata with ⟨u, hu, hw⟩
        have hearlier : u.window.endTime < t.window.endTime := by
          rw [hw]
          omega
        exact hnot ⟨u, hu, hw, h.serial hfixed u hu t ht hcompleted hearlier⟩
      · have hlt := CloseHandled.lt_queued ⟨y, hy, hop⟩ hsep hx
        exact absurd hlt (lt_irrefl _)
    · have hlt := hclose.lt_queued hsep hy
      rw [hop] at hlt
      exact hle hlt

/-- A task that has written its results and not deleted its window finds an oldest
window, and the start of that window is passed. -/
theorem passed_oldest (hcompleted : t.phase.completed = true) (hkept : t.phase.removed = false) :
    ∃ oldest, s.reducer.manager.oldestWindow = some oldest ∧
      Passed s.reducer s.Completed oldest.startTime := by
  have hclose := (h.closeHandled ht (h.completed t ht hcompleted)).closeSent
  have hclosed : t.window ∈ s.reducer.closed := by
    rcases h.closed t.window hclose with hclosed | ⟨u, hu, hw, hremoved⟩
    · exact hclosed
    · rw [h.eq_of_window_eq hu ht hw, hkept] at hremoved
      cases hremoved
  cases holdest : s.reducer.manager.oldestWindow with
  | none => exact absurd hclosed (AlignedWindowManager.oldestWindow_none holdest t.window).2
  | some oldest =>
    have horder : ∀ c ∈ s.reducer.closed, ∀ a ∈ s.reducer.active, c.endTime ≤ a.endTime := by
      intro c hc a ha
      rcases hsep.below c hc with ⟨b, hb, hle⟩
      have hlt := hsep.above b hb a ha
      omega
    rcases AlignedWindowManager.oldestWindow_least horder holdest with ⟨hmem, hleast⟩
    have hfits : s.reducer.manager.shape.Fits oldest := by
      rcases hmem with hmem | hmem
      · exact hflow.fits_active oldest hmem
      · exact hflow.fits_closeSent (hflow.closed_sent oldest hmem)
    have hbefore := hleast t.window (.inr hclosed)
    refine ⟨oldest, rfl, ?_, ?_⟩
    · rcases hclose.end_le hsep with ⟨b, hb, hle⟩
      refine ⟨b, hb, ?_⟩
      intro w hw hlt
      exact hfits.start_le hw (by omega)
    · intro x hx _ hsent hnot
      apply hfits.start_le (hflow.fits_sent x hx)
      apply hleast
      right
      rcases h.closed _ hsent with hmem | ⟨u, hu, hw, hremoved⟩
      · exact hmem
      · exact absurd ⟨u, hu, hw, TaskPhase.completed_of_removed hremoved⟩ hnot

/-! ## Steps of the reducer -/

omit ht in
/-- A step of the reducer, or the deletion of a window by its task. -/
theorem effect (hclock : s.reducer.Clock) (hreceived : s.received ≤ s.reducer.sent.length)
    (heffect : ReducerRun.Effect gc s.reducer r')
    (hgc : ∀ window ∈ gc, ∃ t ∈ s.tasks, t.window = window ∧ t.phase.removed = true) :
    ({ s with reducer := r' } : ActorRun).Tracked := by
  have hhandled : ({ s with reducer := r' } : ActorRun).handled = s.handled := by
    rcases heffect.sent_append with ⟨new, hsent⟩
    unfold handled
    rw [hsent, take_append_of_le_length hreceived]
  have hpassed : ∀ t, Passed s.reducer s.Completed t → Passed r' s.Completed t :=
    fun t ht => ht.effect hclock hsep hflow heffect
  refine ⟨h.slot, ?_, ?_, h.unique, ?_, h.ended, h.completed, ?_, ?_, ?_, ?_⟩
  · rw [hhandled]
    exact h.data
  · unfold CloseHandled
    rw [hhandled]
    exact h.sender
  · rw [hhandled]
    exact h.started
  · rw [heffect.shape_eq]
    exact h.serial
  · intro w hw
    rcases heffect.closeSent_cases (hflow.effect hsep hclock heffect) hw with hw | ⟨-, hw⟩
    · rcases h.closed w hw with hclosed | hremoved
      · rcases heffect.closed_subset hclosed with hclosed | ⟨window, hwindow, hend⟩
        · exact .inl hclosed
        · rcases hgc window hwindow with ⟨t, ht, rfl, hremoved⟩
          have heq := (hflow.fits_closeSent hw).eq_of_end_eq (h.fits hflow ht) hend
          exact .inr ⟨t, ht, heq.symm, hremoved⟩
      · exact .inr hremoved
    · exact .inl hw
  · intro t ht oldest hphase
    exact hpassed _ (h.pending t ht oldest hphase)
  · intro event hevent
    rcases h.events event hevent with ⟨gc, hgc, htime⟩
    exact ⟨gc, hgc, hpassed _ htime⟩

end Tracked

/-! ## Steps of the actor -/

/-- The actor has received one more operation, which leaves it with the given tasks. -/
def accepted (s : ActorRun) (tasks : List ReduceTask) : ActorRun :=
  { s with tasks := tasks, received := s.received + 1 }

namespace Tracked

variable {tasks : List ReduceTask} {t : ReduceTask} {i : Nat} {event : Wal.GcEvent}

section

variable (hx : s.reducer.sent[s.received]? = some x)

include hx

theorem mem_queued : x ∈ s.reducer.sent.drop s.received := by
  rw [mem_iff_getElem?]
  exact ⟨0, by rw [List.getElem?_drop, Nat.add_zero, hx]⟩

theorem handled_accepted : (s.accepted tasks).handled = s.handled ++ [x] := by
  unfold handled accepted
  rw [take_add_one, hx]
  rfl

variable {y : AlignedWindowMessage}

theorem mem_handled_accepted : y ∈ (s.accepted tasks).handled ↔ y ∈ s.handled ∨ y = x := by
  rw [handled_accepted hx, mem_append, mem_singleton]

theorem closeHandled_accepted :
    (s.accepted tasks).CloseHandled w ↔ s.CloseHandled w ∨ x.operation = .closeOp w := by
  unfold CloseHandled
  simp only [mem_handled_accepted hx, or_and_right, exists_or, exists_eq_left]

end

/-- Receiving a message of a window that has no task starts one. -/
theorem receive_open (h : s.Tracked) (hflow : s.reducer.Flow) (hsep : s.reducer.Separated)
    (hx : s.reducer.sent[s.received]? = some x) (hdata : x.operation.message ≠ none)
    (hnew : ∀ t ∈ s.tasks, t.window ≠ x.operation.window) :
    (s.accepted (s.tasks ++ [⟨x.pnfSlot, x.operation.window, .held, .running⟩])).Tracked := by
  have hnotclose : ∀ w, x.operation ≠ .closeOp w := by
    intro w hop
    rw [hop] at hdata
    exact hdata rfl
  have hcompleted : ∀ w, s.Completed w →
      (s.accepted (s.tasks ++ [⟨x.pnfSlot, x.operation.window, .held, .running⟩])).Completed w := by
    intro w hw
    rcases hw with ⟨t, ht, hw⟩
    exact ⟨t, mem_append_left _ ht, hw⟩
  refine ⟨forall_mem_concat.mpr ⟨h.slot, hflow.slots x (mem_of_getElem? hx)⟩, ?_, ?_, ?_, ?_, ?_,
    forall_mem_concat.mpr ⟨h.completed, nofun⟩, ?_, ?_, ?_, ?_⟩
  · refine forall_mem_concat.mpr
      ⟨fun t ht => ?_, x, (mem_handled_accepted hx).mpr (.inr rfl), hdata, rfl⟩
    rcases h.data t ht with ⟨y, hy, hw⟩
    exact ⟨y, (mem_handled_accepted hx).mpr (.inl hy), hw⟩
  · simp only [closeHandled_accepted hx, hnotclose, or_false]
    refine forall_mem_concat.mpr ⟨h.sender, .inl ⟨rfl, fun hclose => ?_⟩⟩
    exact absurd (hclose.lt_queued hsep (mem_queued hx)) (lt_irrefl _)
  · show ((s.tasks ++ [_]).map window).Nodup
    rw [map_append, nodup_append]
    refine ⟨h.unique, nodup_singleton _, ?_⟩
    intro v hv w hw
    rcases mem_map.mp hv with ⟨t, ht, rfl⟩
    rw [mem_singleton.mp hw]
    exact hnew t ht
  · intro y hy hmessage
    rcases (mem_handled_accepted hx).mp hy with hy | rfl
    · rcases h.started y hy hmessage with ⟨t, ht, hw⟩
      exact ⟨t, mem_append_left _ ht, hw⟩
    · exact ⟨_, mem_append_right _ (mem_singleton_self _), rfl⟩
  · exact forall_mem_concat.mpr
      ⟨fun t ht => forall_mem_concat.mpr ⟨h.ended t ht, nofun⟩, fun _ _ => nofun⟩
  · intro hfixed t ht u hu hdone hlt
    rcases mem_append.mp hu with hu | hu
    · rcases mem_append.mp ht with ht | ht
      · exact h.serial hfixed t ht u hu hdone hlt
      · -- the new window ends after every completed one
        have hclose := h.closeHandled hu (h.completed u hu hdone)
        have hlt' := hclose.lt_queued hsep (mem_queued hx)
        rw [mem_singleton.mp ht] at hlt
        exact absurd (hlt.trans hlt') (lt_irrefl _)
    · rw [mem_singleton.mp hu] at hdone
      cases hdone
  · intro w hw
    rcases h.closed w hw with hclosed | ⟨t, ht, hremoved⟩
    · exact .inl hclosed
    · exact .inr ⟨t, mem_append_left _ ht, hremoved⟩
  · exact forall_mem_concat.mpr
      ⟨fun t ht oldest hphase => (h.pending t ht oldest hphase).mono hcompleted, nofun⟩
  · intro event hevent
    rcases h.events event hevent with ⟨gc, hgc, htime⟩
    exact ⟨gc, hgc, htime.mono hcompleted⟩

/-- Receiving a message of a window that has a task changes no task. -/
theorem receive_append (h : s.Tracked) (hx : s.reducer.sent[s.received]? = some x)
    (hdata : x.operation.message ≠ none)
    (htask : ∃ t ∈ s.tasks, t.window = x.operation.window) :
    (s.accepted s.tasks).Tracked := by
  have hnotclose : ∀ w, x.operation ≠ .closeOp w := by
    intro w hop
    rw [hop] at hdata
    exact hdata rfl
  refine ⟨h.slot, ?_, ?_, h.unique, ?_, h.ended, h.completed, h.serial, h.closed, h.pending,
    h.events⟩
  · intro t ht
    rcases h.data t ht with ⟨y, hy, hw⟩
    exact ⟨y, (mem_handled_accepted hx).mpr (.inl hy), hw⟩
  · intro t ht
    simp only [closeHandled_accepted hx, hnotclose, or_false]
    exact h.sender t ht
  · intro y hy hmessage
    rcases (mem_handled_accepted hx).mp hy with hy | rfl
    · exact h.started y hy hmessage
    · exact htask

variable {slot : String} {sender : Sender}

/-- A task after a sender was released. -/
theorem mem_release (ht : t ∈ release slot sender tasks) :
    ∃ u ∈ tasks, t.slot = u.slot ∧ t.window = u.window ∧ t.phase = u.phase ∧
      ((u.slot = slot ∧ u.sender = .held ∧ t.sender = sender) ∨
        (¬ (u.slot = slot ∧ u.sender = .held) ∧ t.sender = u.sender)) := by
  rcases mem_map.mp ht with ⟨u, hu, rfl⟩
  by_cases hslot : u.slot = slot ∧ u.sender = .held
  · rw [if_pos hslot]
    exact ⟨u, hu, rfl, rfl, rfl, .inl ⟨hslot.1, hslot.2, rfl⟩⟩
  · rw [if_neg hslot]
    exact ⟨u, hu, rfl, rfl, rfl, .inr ⟨hslot, rfl⟩⟩

theorem release_of_mem (hu : u ∈ tasks) :
    ∃ t ∈ release slot sender tasks, t.window = u.window ∧ t.phase = u.phase := by
  refine ⟨_, mem_map_of_mem hu, ?_, ?_⟩
  · split_ifs <;> rfl
  · split_ifs <;> rfl

theorem map_window_release (slot : String) (sender : Sender) (tasks : List ReduceTask) :
    (release slot sender tasks).map window = tasks.map window := by
  unfold release
  rw [map_map]
  apply map_congr_left
  intro t _
  simp only [Function.comp_apply]
  split_ifs <;> rfl

/-- Receiving the close of a window drops the sender of its task. -/
theorem receive_close (h : s.Tracked) (hflow : s.reducer.Flow) (hsep : s.reducer.Separated)
    (hx : s.reducer.sent[s.received]? = some x) (hop : x.operation = .closeOp w)
    (hready : s.ready = true) : (s.accepted (release x.pnfSlot .dropped s.tasks)).Tracked := by
  have hsent := mem_of_getElem? hx
  have hfits := hflow.fits_sent x hsent
  have hslot := hflow.slots x hsent
  rw [hop] at hfits hslot
  have hwindow : ∀ t ∈ s.tasks, t.slot = x.pnfSlot ↔ t.window = w := by
    intro t ht
    rw [h.slot t ht, hslot]
    constructor
    · exact (h.fits hflow ht).eq_of_slot_eq hfits
    · intro heq
      rw [heq]
      rfl
  have hended : ∀ t ∈ s.tasks, t.sender = .dropped → t.phase.ended = true := by
    intro t ht
    exact of_decide_eq_true (all_eq_true.mp hready t ht)
  have hcompleted : ∀ v, s.Completed v →
      (s.accepted (release x.pnfSlot .dropped s.tasks)).Completed v := by
    intro v hv
    rcases hv with ⟨u, hu, rfl, hdone⟩
    rcases release_of_mem hu with ⟨t, ht, hw, hphase⟩
    exact ⟨t, ht, hw, by rw [hphase]; exact hdone⟩
  refine ⟨?_, ?_, ?_, ?_, ?_, ?_, ?_, ?_, ?_, ?_, ?_⟩
  · intro t ht
    rcases mem_release ht with ⟨u, hu, hs, hw, -, -⟩
    rw [hs, hw]
    exact h.slot u hu
  · intro t ht
    rcases mem_release ht with ⟨u, hu, -, hw, -, -⟩
    rcases h.data u hu with ⟨y, hy, hmessage, hy'⟩
    exact ⟨y, (mem_handled_accepted hx).mpr (.inl hy), hmessage, by rw [hw]; exact hy'⟩
  · intro t ht
    rw [closeHandled_accepted hx, hop, AlignedWindowOperation.closeOp.injEq]
    rcases mem_release ht with ⟨u, hu, -, hw, -, ⟨hslot, -, hdropped⟩ | ⟨hnot, hsame⟩⟩
    · right
      rw [hw]
      exact ⟨hdropped, .inr ((hwindow u hu).mp hslot).symm⟩
    · rw [hsame, hw]
      rcases h.sender u hu with ⟨hheld, hopen⟩ | ⟨hdropped, hclose⟩
      · left
        refine ⟨hheld, ?_⟩
        intro hclose
        rcases hclose with hclose | heq
        · exact hopen hclose
        · exact hnot ⟨(hwindow u hu).mpr heq.symm, hheld⟩
      · exact .inr ⟨hdropped, .inl hclose⟩
  · show ((release x.pnfSlot .dropped s.tasks).map window).Nodup
    rw [map_window_release]
    exact h.unique
  · intro y hy hmessage
    rcases (mem_handled_accepted hx).mp hy with hy | rfl
    · rcases h.started y hy hmessage with ⟨u, hu, hw⟩
      rcases release_of_mem hu with ⟨t, ht, htw, -⟩
      exact ⟨t, ht, htw.trans hw⟩
    · rw [hop] at hmessage
      exact absurd rfl hmessage
  · intro t ht t' ht' htd htd' hlt
    rcases mem_release ht with ⟨u, hu, -, hw, hphase, ⟨hslot, -, -⟩ | ⟨-, hsame⟩⟩
    · -- a task that was dropped earlier ends earlier
      rcases mem_release ht' with ⟨u', hu', -, hw', -, ⟨hslot', -, -⟩ | ⟨-, hsame'⟩⟩
      · rw [hw, hw', (hwindow u hu).mp hslot, (hwindow u' hu').mp hslot'] at hlt
        exact absurd hlt (lt_irrefl _)
      · rw [hsame'] at htd'
        have hlt' := (h.closeHandled hu' htd').lt_queued hsep (mem_queued hx)
        rw [hop] at hlt'
        rw [hw, hw', (hwindow u hu).mp hslot] at hlt
        exact absurd (hlt.trans hlt') (lt_irrefl _)
    · rw [hsame] at htd
      rw [hphase]
      exact hended u hu htd
  · intro t ht hdone
    rcases mem_release ht with ⟨u, hu, -, -, hphase, ⟨-, hheld, -⟩ | ⟨-, hsame⟩⟩
    · rw [hphase] at hdone
      rw [h.completed u hu hdone] at hheld
      cases hheld
    · rw [hphase] at hdone
      rw [hsame]
      exact h.completed u hu hdone
  · intro hfixed t ht t' ht' hdone hlt
    rcases mem_release ht with ⟨u, hu, -, hw, hphase, -⟩
    rcases mem_release ht' with ⟨u', hu', -, hw', hphase', -⟩
    rw [hphase'] at hdone
    rw [hw, hw'] at hlt
    rw [hphase]
    exact h.serial hfixed u hu u' hu' hdone hlt
  · intro v hv
    rcases h.closed v hv with hclosed | ⟨u, hu, hw, hremoved⟩
    · exact .inl hclosed
    · rcases release_of_mem hu with ⟨t, ht, htw, hphase⟩
      exact .inr ⟨t, ht, htw.trans hw, by rw [hphase]; exact hremoved⟩
  · intro t ht oldest hread
    rcases mem_release ht with ⟨u, hu, -, -, hphase, -⟩
    rw [hphase] at hread
    exact (h.pending u hu oldest hread).mono hcompleted
  · intro event hevent
    rcases h.events event hevent with ⟨gc, hgc, htime⟩
    exact ⟨gc, hgc, htime.mono hcompleted⟩

theorem release_eq_self (h : ∀ t ∈ tasks, ¬ (t.slot = slot ∧ t.sender = .held)) :
    release slot sender tasks = tasks := by
  unfold release
  rw [map_congr_left (g := id), map_id]
  intro t ht
  rw [if_neg (h t ht)]
  rfl

/-! ## Steps of a task -/

/-- The list around the position of a task. -/
theorem exists_split {α : Type} {l : List α} {a : α} (h : l[i]? = some a) :
    ∃ pre post, l = pre ++ a :: post ∧ ∀ b, l.set i b = pre ++ b :: post := by
  induction l generalizing i with
  | nil => cases h
  | cons c l ih =>
    cases i with
    | zero =>
      cases h
      exact ⟨[], l, rfl, fun _ => rfl⟩
    | succ =>
      rcases ih h with ⟨pre, post, hl, hset⟩
      refine ⟨c :: pre, post, by rw [hl, cons_append], ?_⟩
      intro b
      rw [set_cons_succ, hset, cons_append]

section

variable {p : TaskPhase}

section

variable (ht : s.tasks[i]? = some t)

include ht

variable {u' : ReduceTask}

/-- Every task was there before, and only the moved one has another phase. -/
theorem setPhase_from (hu' : u' ∈ (s.setPhase i t p).tasks) :
    ∃ u ∈ s.tasks, u'.slot = u.slot ∧ u'.window = u.window ∧ u'.sender = u.sender ∧
      (u'.phase = u.phase ∨ (u = t ∧ u'.phase = p)) := by
  rcases mem_or_eq_of_mem_set hu' with hu' | rfl
  · exact ⟨u', hu', rfl, rfl, rfl, .inl rfl⟩
  · exact ⟨t, mem_of_getElem? ht, rfl, rfl, rfl, .inr ⟨rfl, rfl⟩⟩

/-- Every task is still there, and only the moved one has another phase. -/
theorem setPhase_to (hu : u ∈ s.tasks) : ∃ u' ∈ (s.setPhase i t p).tasks, u'.window = u.window ∧
      (u'.phase = u.phase ∨ (u = t ∧ u'.phase = p)) := by
  rcases exists_split ht with ⟨pre, post, hl, hset⟩
  have htasks : (s.setPhase i t p).tasks = pre ++ { t with phase := p } :: post := hset _
  rw [hl, mem_append, mem_cons] at hu
  rw [htasks]
  rcases hu with hu | rfl | hu
  · exact ⟨u, mem_append_left _ hu, rfl, .inl rfl⟩
  · exact ⟨_, mem_append_right _ mem_cons_self, rfl, .inr ⟨rfl, rfl⟩⟩
  · exact ⟨u, mem_append_right _ (mem_cons_of_mem _ hu), rfl, .inl rfl⟩

theorem completed_setPhase
    (hcompleted : t.phase.completed = true → p.completed = true) (hw : s.Completed w) :
    (s.setPhase i t p).Completed w := by
  rcases hw with ⟨u, hu, rfl, hphase⟩
  rcases setPhase_to (p := p) ht hu with ⟨u', hu', hw, heq | ⟨rfl, heq⟩⟩
  · exact ⟨u', hu', hw, by rw [heq]; exact hphase⟩
  · exact ⟨u', hu', hw, by rw [heq]; exact hcompleted hphase⟩

theorem map_window_setPhase : (s.setPhase i t p).tasks.map window = s.tasks.map window := by
  rcases exists_split ht with ⟨pre, post, hl, hset⟩
  have htasks : (s.setPhase i t p).tasks = pre ++ { t with phase := p } :: post := hset _
  rw [htasks, hl, map_append, map_append, map_cons, map_cons]

end

/-- A task moves to another phase. -/
theorem setPhase (h : s.Tracked) (ht : s.tasks[i]? = some t)
    (hcompleted : t.phase.completed = true → p.completed = true)
    (hended : t.phase.ended = true → p.ended = true)
    (hremoved : t.phase.removed = true → p.removed = true)
    (hdropped : p.completed = true → t.sender = .dropped)
    (hserial : s.reducer.manager.shape.sliding = false → p.completed = true →
      ∀ u ∈ s.tasks, u.window.endTime < t.window.endTime → u.phase.completed = true)
    (hpending : ∀ oldest, p = .oldestRead oldest ∨ p = .deleted oldest →
      Passed s.reducer s.Completed oldest.startTime) : (s.setPhase i t p).Tracked := by
  have hdone : ∀ w, s.Completed w → (s.setPhase i t p).Completed w :=
    fun w hw => completed_setPhase ht hcompleted hw
  refine ⟨?_, ?_, ?_, ?_, ?_, ?_, ?_, ?_, ?_, ?_, ?_⟩
  · intro u' hu'
    rcases setPhase_from ht hu' with ⟨u, hu, hslot, hw, -, -⟩
    rw [hslot, hw]
    exact h.slot u hu
  · intro u' hu'
    rcases setPhase_from ht hu' with ⟨u, hu, -, hw, -, -⟩
    rw [hw]
    exact h.data u hu
  · intro u' hu'
    rcases setPhase_from ht hu' with ⟨u, hu, -, hw, hsender, -⟩
    rw [hsender, hw]
    exact h.sender u hu
  · rw [map_window_setPhase ht]
    exact h.unique
  · intro x hx hdata
    rcases h.started x hx hdata with ⟨u, hu, hw⟩
    rcases setPhase_to (p := p) ht hu with ⟨u', hu', hw', -⟩
    exact ⟨u', hu', hw'.trans hw⟩
  · intro u' hu' v' hv' hud hvd hlt
    rcases setPhase_from ht hu' with ⟨u, hu, -, hw, hsender, hphase⟩
    rcases setPhase_from ht hv' with ⟨v, hv, -, hw', hsender', -⟩
    rw [hsender] at hud
    rw [hsender'] at hvd
    rw [hw, hw'] at hlt
    have hend := h.ended u hu v hv hud hvd hlt
    rcases hphase with heq | ⟨rfl, heq⟩
    · rw [heq]
      exact hend
    · rw [heq]
      exact hended hend
  · intro u' hu' hdone'
    rcases setPhase_from ht hu' with ⟨u, hu, -, -, hsender, heq | ⟨rfl, heq⟩⟩
    · rw [heq] at hdone'
      rw [hsender]
      exact h.completed u hu hdone'
    · rw [heq] at hdone'
      rw [hsender]
      exact hdropped hdone'
  · intro hfixed u' hu' v' hv' hdone' hlt
    rcases setPhase_from ht hu' with ⟨u, hu, -, hw, -, hphase⟩
    rcases setPhase_from ht hv' with ⟨v, hv, -, hw', -, hphase'⟩
    rw [hw, hw'] at hlt
    have hearlier : u.phase.completed = true := by
      rcases hphase' with heq | ⟨rfl, heq⟩
      · rw [heq] at hdone'
        exact h.serial hfixed u hu v hv hdone' hlt
      · rw [heq] at hdone'
        exact hserial hfixed hdone' u hu hlt
    rcases hphase with heq | ⟨rfl, heq⟩
    · rw [heq]
      exact hearlier
    · rw [heq]
      exact hcompleted hearlier
  · intro w hw
    rcases h.closed w hw with hclosed | ⟨u, hu, rfl, hgone⟩
    · exact .inl hclosed
    · right
      rcases setPhase_to (p := p) ht hu with ⟨u', hu', hw', heq | ⟨rfl, heq⟩⟩
      · exact ⟨u', hu', hw', by rw [heq]; exact hgone⟩
      · exact ⟨u', hu', hw', by rw [heq]; exact hremoved hgone⟩
  · intro u' hu' oldest hread
    rcases setPhase_from ht hu' with ⟨u, hu, -, -, -, heq | ⟨-, heq⟩⟩
    · rw [heq] at hread
      exact (h.pending u hu oldest hread).mono hdone
    · rw [heq] at hread
      exact (hpending oldest hread).mono hdone
  · intro event hevent
    rcases h.events event hevent with ⟨gc, hgc, htime⟩
    exact ⟨gc, hgc, htime.mono hdone⟩

/-- A task that has written its results moves on. -/
theorem setPhase_completed (h : s.Tracked) (ht : s.tasks[i]? = some t)
    (hcompleted : t.phase.completed = true)
    (hended : t.phase.ended = false) (hp : p.completed = true)
    (hremoved : t.phase.removed = true → p.removed = true)
    (hpending : ∀ oldest, p = .oldestRead oldest ∨ p = .deleted oldest →
      Passed s.reducer s.Completed oldest.startTime) : (s.setPhase i t p).Tracked := by
  have hmem := mem_of_getElem? ht
  apply h.setPhase ht
  · exact fun _ => hp
  · intro hend
    rw [hended] at hend
    cases hend
  · exact hremoved
  · exact fun _ => h.completed t hmem hcompleted
  · exact fun hfixed _ u hu hlt => h.serial hfixed u hu t hmem hcompleted hlt
  · exact hpending

end

/-- An event with a passed time is emitted. -/
theorem emit (h : s.Tracked)
    (hevent : ∃ gc ∈ event.toEntry, Passed s.reducer s.Completed gc.endTime) :
    ({ s with gcEvents := s.gcEvents ++ [event] } : ActorRun).Tracked := by
  exact ⟨h.slot, h.data, h.sender, h.unique, h.started, h.ended, h.completed, h.serial, h.closed,
    h.pending, forall_mem_concat.mpr ⟨h.events, hevent⟩⟩

end Tracked

end Numaflow.Aligned.ActorRun
