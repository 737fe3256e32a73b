import Numaflow.Reduce.Aligned.Tracking

/-!
# Garbage collection of aligned windows keeps live data

The end of a completed fixed window and the start of the oldest window are passed
times, so compaction with the latest of them drops no live message.

Main results: `Inv.step`, `keepsLive_exec`.
-/

namespace Numaflow.Aligned.ActorRun

open Lib Wal TaskPhase List ReducerRun AlignedWindowManager

/-! ## The invariant -/

/-- The invariant of the whole system. -/
structure Inv (s : ActorRun) : Prop where
  clock : s.reducer.Clock
  separated : s.reducer.Separated
  flow : s.reducer.Flow
  epoch : ∀ x ∈ s.reducer.sent, ∀ msg ∈ x.operation.message, 0 ≤ msg.eventTime
  received : s.received ≤ s.reducer.sent.length
  tracked : s.Tracked

/-- The end time of a GC event. -/
theorem exists_gcEvent_entry (m : AlignedWindowManager) (window oldest : Window) :
    ∃ gc ∈ (m.gcEvent window oldest).toEntry,
      gc.endTime = if m.shape.sliding then oldest.startTime else window.endTime := by
  cases m with
  | fixed => exact ⟨⟨window.startTime, window.endTime, some []⟩,
      by simp [gcEvent, Window.gcEvent, GcEvent.toEntry], rfl⟩
  | sliding => exact ⟨⟨oldest.startTime, oldest.startTime, some []⟩,
      by simp [gcEvent, Window.gcEvent, GcEvent.toEntry], rfl⟩

variable {msg : Message} {compaction : AlignedCompaction} {x : AlignedWindowMessage}

namespace Inv

variable {s : ActorRun} {m : AlignedWindowManager} {a : ReducerAction} {r' : ReducerRun}

theorem init (hconf : m.Configured) (hfits : ∀ w ∈ m.activeWindows, m.shape.Fits w)
    (hclosed : ∀ w, w ∉ m.closedWindows) (allowedLateness : Nat) (keyed hasGcWal : Bool) :
    (init m allowedLateness keyed hasGcWal).Inv := by
  refine ⟨.init m allowedLateness keyed, .init hconf hclosed allowedLateness keyed,
    .init hfits hclosed allowedLateness keyed, ?_, ?_, ?_⟩
  · simp [ActorRun.init, ReducerRun.init]
  · simp [ActorRun.init]
  · constructor <;> simp [ActorRun.init, ReducerRun.init, handled, ReducerRun.CloseSent]

/-- While a message is to be assigned, the reducer does nothing else. -/
theorem step_assigning {r : ReducerRun} (hphase : r.phase = .assigning msg) (ha : a ≠ .assign)
    (hgc : a.deletes = none) : r.step a = r := by
  cases a with
  | assign => exact absurd rfl ha
  | gc => cases hgc
  | read | close | error => simp [ReducerRun.step, hphase]

variable (h : s.Inv)

include h

/-- A step of the reducer that assigns no message from before the epoch. -/
theorem effect (heffect : ReducerRun.Effect none s.reducer r') (hclock : r'.Clock)
    (hepoch : ∀ msg, s.reducer.phase = .assigning msg → 0 ≤ msg.eventTime) :
    ({ s with reducer := r' } : ActorRun).Inv := by
  refine ⟨hclock, h.separated.effect h.clock heffect, h.flow.effect h.separated h.clock heffect,
    ?_, ?_, ?_⟩
  · intro x hx msg hmsg
    cases heffect with
    | quiet _ hsent =>
      rw [hsent] at hx
      exact h.epoch x hx msg hmsg
    | closed _ hsent =>
      rw [hsent] at hx
      rcases mem_append.mp hx with hx | hx
      · exact h.epoch x hx msg hmsg
      · rcases mem_closeWindows_messages hx with ⟨w, -, -, rfl⟩
        cases hmsg
    | assigned n hphase _ hsent =>
      rw [hsent] at hx
      rcases mem_append.mp hx with hx | hx
      · exact h.epoch x hx msg hmsg
      · rcases (s.reducer.manager.assignWindows_spec n).sent x hx with
          ⟨w, -, ⟨rfl, -⟩ | rfl, -⟩
        · cases hmsg
          exact hepoch msg hphase
        · cases hmsg
          exact hepoch msg hphase
    | deleted _ hgc => cases hgc
  · rcases heffect.sent_append with ⟨new, hsent⟩
    rw [hsent, length_append]
    exact h.received.trans (Nat.le_add_right _ _)
  · exact h.tracked.effect h.flow h.separated h.clock h.received heffect (by simp)

/-- A step of the reducer keeps the invariant. -/
theorem reducer_step (a : ReducerAction) (ha : s.Orderly (.reducer a)) :
    (s.step (.reducer a)).Inv := by
  by_cases hgc : a.deletes = none
  · have hstep : s.step (.reducer a) = { s with reducer := s.reducer.step a } := by
      cases a with
      | gc => cases hgc
      | read | close | assign | error => rfl
    rw [hstep]
    have heffect := step_effect h.clock a
    rw [hgc] at heffect
    by_cases hassign : a = .assign
    · refine h.effect heffect (h.clock.step a) ?_
      intro msg hphase
      rw [hassign] at ha
      apply ha
      rw [hphase]
      rfl
    · cases hphase : s.reducer.phase with
      | assigning =>
        rw [step_assigning hphase hassign hgc]
        exact h
      | idle | closing => exact h.effect heffect (h.clock.step a) (by simp [hphase])
  · cases a with
    | gc => exact h
    | read | close | assign | error => exact absurd rfl hgc

/-- Only the tasks change. -/
theorem of_tracked {tasks : List ReduceTask} {received : Nat}
    {gcEvents : List GcEvent} (hreceived : received ≤ s.reducer.sent.length)
    (htracked : ({ s with tasks := tasks, received := received, gcEvents := gcEvents } :
      ActorRun).Tracked) :
    ({ s with tasks := tasks, received := received, gcEvents := gcEvents } : ActorRun).Inv :=
  ⟨h.clock, h.separated, h.flow, h.epoch, hreceived, htracked⟩

/-- Receiving an operation keeps the invariant. -/
theorem receive : (s.step .receive).Inv := by
  by_cases hready : s.ready = true
  · cases hx : s.reducer.sent[s.received]? with
    | none =>
      simp only [step, hready, hx, if_true]
      exact h
    | some x =>
      have hreceived := (List.getElem?_eq_some_iff.mp hx).1
      have hsent := mem_of_getElem? hx
      have hsame : ∀ t ∈ s.tasks, t.slot = x.pnfSlot ↔ t.window = x.operation.window := by
        intro t ht
        rw [h.tracked.slot t ht, h.flow.slots x hsent]
        have hfits := h.tracked.fits h.flow ht
        exact ⟨hfits.eq_of_slot_eq (h.flow.fits_sent x hsent), fun heq => by rw [heq]⟩
      simp only [step, hready, hx, if_true]
      cases hop : x.operation with
      | closeOp =>
        simp only [handleWindowMessage, hop]
        exact h.of_tracked hreceived (h.tracked.receive_close h.flow h.separated hx hop hready)
      | openOp =>
        -- nothing was sent to the window before it is opened
        have hnew : ∀ t ∈ s.tasks, t.window ≠ x.operation.window := by
          intro t ht heq
          rcases h.tracked.data t ht with ⟨y, hy, -, hw⟩
          have hopened := h.flow.opened
          rw [← take_append_drop s.received s.reducer.sent] at hopened
          refine (pairwise_append.mp hopened).2.2 y hy x (Tracked.mem_queued hx) ?_ (hw.trans heq)
          rw [hop]
          trivial
        have hnone : ∀ t ∈ s.tasks, ¬ (t.slot = x.pnfSlot ∧ t.sender = .held) :=
          fun t ht hheld => hnew t ht ((hsame t ht).mp hheld.1)
        have htracked := h.tracked.receive_open h.flow h.separated hx (by rw [hop]; simp
          [AlignedWindowOperation.message]) hnew
        simp only [handleWindowMessage, hop, windowOpen, Tracked.release_eq_self hnone]
        rw [hop] at htracked
        exact h.of_tracked hreceived htracked
      | appendOp =>
        have hdata : x.operation.message ≠ none := by
          rw [hop]
          simp [AlignedWindowOperation.message]
        by_cases hstream : s.hasStream x.pnfSlot = true
        · have htask : ∃ t ∈ s.tasks, t.window = x.operation.window := by
            rcases any_eq_true.mp hstream with ⟨t, ht, hheld⟩
            exact ⟨t, ht, (hsame t ht).mp (of_decide_eq_true hheld).1⟩
          simp only [handleWindowMessage, hop, windowAppend, hstream, if_true]
          exact h.of_tracked hreceived (h.tracked.receive_append hx hdata htask)
        · have hnone : ∀ t ∈ s.tasks, ¬ (t.slot = x.pnfSlot ∧ t.sender = .held) := by
            intro t ht hheld
            exact hstream (any_eq_true.mpr ⟨t, ht, decide_eq_true hheld⟩)
          -- a task without a stream would mean that the window is closed
          have hnew : ∀ t ∈ s.tasks, t.window ≠ x.operation.window := by
            intro t ht heq
            rcases h.tracked.sender t ht with ⟨hheld, -⟩ | ⟨-, hclose⟩
            · exact hnone t ht ⟨(hsame t ht).mpr heq, hheld⟩
            · rw [heq] at hclose
              exact absurd (hclose.lt_queued h.separated (Tracked.mem_queued hx)) (lt_irrefl _)
          have htracked := h.tracked.receive_open h.flow h.separated hx hdata hnew
          simp only [handleWindowMessage, hop, windowAppend, hstream, windowOpen,
            Tracked.release_eq_self hnone]
          rw [hop] at htracked
          exact h.of_tracked hreceived htracked
  · simp only [step, hready]
    exact h

section

variable {i : Nat} {t : ReduceTask} {oldest : Window} (ht : s.tasks[i]? = some t)

include ht

/-- The results of a window are written. -/
theorem complete (hphase : t.phase = .running)
    (hsender : t.sender ≠ .held) (hok : s.Orderly (.task i .complete)) :
    (s.setPhase i t .written).Inv := by
  have hmem := mem_of_getElem? ht
  have hdropped : t.sender = .dropped := by
    rcases h.tracked.sender t hmem with ⟨hheld, -⟩ | ⟨hdropped, -⟩
    · exact absurd hheld hsender
    · exact hdropped
  refine h.of_tracked h.received (h.tracked.setPhase ht ?_ ?_ ?_ ?_ ?_ ?_)
  · exact fun _ => rfl
  · simp [hphase, ended]
  · simp [hphase, removed]
  · exact fun _ => hdropped
  · intro hfixed _ u hu hlt
    rcases h.tracked.sender u hu with ⟨hheld, -⟩ | ⟨hudropped, -⟩
    · have hlt' := h.tracked.dropped_lt_held h.flow hu h.separated hmem hheld hdropped
      exact absurd (hlt.trans hlt') (lt_irrefl _)
    · apply completed_of_ended (h.tracked.ended u hu t hmem hudropped hdropped hlt)
      intro hfailed
      have hle := hok t ht hfixed u hu hfailed
      omega
  · simp

theorem fail (hphase : t.phase = .running) : (s.setPhase i t .failed).Inv := by
  refine h.of_tracked h.received (h.tracked.setPhase ht ?_ ?_ ?_ ?_ ?_ ?_)
  · simp [hphase, completed]
  · exact fun _ => rfl
  · simp [hphase, removed]
  · simp [completed]
  · simp [completed]
  · simp

theorem oldestRead (hphase : t.phase = .written)
    (hpassed : Passed s.reducer s.Completed oldest.startTime) :
    (s.setPhase i t (.oldestRead oldest)).Inv := by
  refine h.of_tracked h.received (h.tracked.setPhase_completed ht ?_ ?_ rfl ?_ ?_)
  · rw [hphase]
    rfl
  · rw [hphase]
    rfl
  · simp [hphase, removed]
  · intro o ho
    rcases ho with ho | ho
    · cases ho
      exact hpassed
    · cases ho

/-- A task deletes its window after it has read the oldest one. -/
theorem gcWindow (hphase : t.phase = .oldestRead oldest) : ({ s.setPhase i t (.deleted oldest) with
      reducer := s.reducer.withManager (s.reducer.manager.gcWindow t.window) } : ActorRun).Inv := by
  have hmem := mem_of_getElem? ht
  have htracked : (s.setPhase i t (.deleted oldest)).Tracked := by
    apply h.tracked.setPhase_completed ht
    · rw [hphase]
      rfl
    · rw [hphase]
      rfl
    · rfl
    · exact fun _ => rfl
    · intro o ho
      rcases ho with ho | ho
      · cases ho
      · cases ho
        exact h.tracked.pending t hmem oldest (.inl hphase)
  have heffect : Effect (some t.window) s.reducer
      (s.reducer.withManager (s.reducer.manager.gcWindow t.window)) :=
    .deleted t.window rfl rfl rfl rfl
  refine ⟨h.clock.withManager _, h.separated.effect h.clock heffect,
    h.flow.effect h.separated h.clock heffect, h.epoch, h.received, ?_⟩
  apply htracked.effect h.flow h.separated h.clock h.received heffect
  intro window hwindow
  cases hwindow
  exact ⟨{ t with phase := .deleted oldest },
    mem_set (List.getElem?_eq_some_iff.mp ht).1 _, rfl, rfl⟩

theorem finish (hphase : t.phase = .deleted oldest) : (s.setPhase i t .finished).Inv := by
  refine h.of_tracked h.received (h.tracked.setPhase_completed ht ?_ ?_ rfl ?_ ?_)
  · rw [hphase]
    rfl
  · rw [hphase]
    rfl
  · exact fun _ => rfl
  · simp

/-- The time of an emitted GC event is passed. -/
theorem emit (hphase : t.phase = .deleted oldest) : ({ s.setPhase i t .finished with
      gcEvents := s.gcEvents ++ [s.reducer.manager.gcEvent t.window oldest] } : ActorRun).Inv := by
  have hfinish := h.finish ht hphase
  have hmem := mem_of_getElem? ht
  refine hfinish.of_tracked h.received (hfinish.tracked.emit ?_)
  rcases exists_gcEvent_entry s.reducer.manager t.window oldest with ⟨gc, hgc, hend⟩
  refine ⟨gc, hgc, ?_⟩
  rw [hend]
  split_ifs with hsliding
  · exact (h.tracked.pending t hmem oldest (.inr hphase)).mono
      fun w hw => Tracked.completed_setPhase ht (fun _ => rfl) hw
  · have hfixed : s.reducer.manager.shape.sliding = false := by simpa using hsliding
    have hmem' : { t with phase := .finished } ∈ (s.setPhase i t .finished).tasks :=
      mem_set (List.getElem?_eq_some_iff.mp ht).1 _
    have hpassed := hfinish.tracked.passed_end hfinish.flow hmem' hfinish.separated hfixed rfl
    exact hpassed

end

/-- A step of a task keeps the invariant. -/
theorem task_step (i : Nat) (event : TaskEvent) (hok : s.Orderly (.task i event)) :
    (s.step (.task i event)).Inv := by
  cases ht : s.tasks[i]? with
  | none =>
    simp only [step, ht]
    exact h
  | some =>
    simp only [step, ht]
    unfold taskStep
    split
    · rename_i hphase
      split_ifs with hsender
      · exact h
      · exact h.complete ht hphase hsender hok
    · rename_i hphase
      exact h.fail ht hphase
    · rename_i hphase
      rcases h.tracked.passed_oldest h.flow (mem_of_getElem? ht) h.separated
        (by rw [hphase]; rfl) (by rw [hphase]; rfl) with ⟨oldest, holdest, hpassed⟩
      simp only [holdest]
      exact h.oldestRead ht hphase hpassed
    · rename_i oldest hphase
      exact h.gcWindow ht hphase
    · rename_i oldest hphase
      split_ifs
      · exact h.emit ht hphase
      · exact h.finish ht hphase
    · rename_i oldest hphase
      exact h.finish ht hphase
    · exact h

/-- Every orderly step keeps the invariant. -/
theorem step (a : ActorAction) (hok : s.Orderly a) : (s.step a).Inv := by
  cases a with
  | reducer action => exact h.reducer_step action hok
  | receive => exact h.receive
  | task i event => exact h.task_step i event hok

/-- The invariant makes compaction safe. -/
theorem keepsLive : s.KeepsLive := by
  have hentry : ∀ event ∈ s.gcEvents, event.toEntry.isSome = true := by
    intro event hevent
    rcases h.tracked.events event hevent with ⟨gc, hgc, -⟩
    exact Option.isSome_of_mem hgc
  rcases Option.isSome_iff_exists.mp (buildAlignedCompaction_isSome hentry) with
    ⟨compaction, hbuild⟩
  refine ⟨compaction, hbuild, ?_⟩
  intro x hx msg hmsg hlive keys
  rw [buildAlignedCompaction_retains hbuild]
  refine ⟨h.epoch x hx msg hmsg, ?_⟩
  intro event hevent gc hgc
  have hstart := h.flow.holds x hx msg hmsg
  rcases h.tracked.events event hevent with ⟨gc', hgc', hpassed⟩
  cases Option.mem_unique hgc hgc'
  have hle : gc.endTime ≤ x.operation.window.startTime := by
    rcases hlive with hactive | ⟨hclose, hnot⟩
    · rcases hpassed.ahead with ⟨b, hb, hahead⟩
      exact hahead _ (h.flow.fits_active _ hactive) (h.separated.above b hb _ hactive)
    · refine hpassed.behind x hx ?_ hclose hnot
      rw [Option.mem_def.mp hmsg]
      simp
  exact hle.trans hstart

end Inv

/-- In every state of an orderly run compaction retains the messages of all live
windows, with a fixed or a sliding window manager that starts without closed windows
and with active windows of its own kind. -/
theorem keepsLive_exec {m : AlignedWindowManager} (hconf : m.Configured)
    (hfits : ∀ w ∈ m.activeWindows, m.shape.Fits w) (hclosed : ∀ w, w ∉ m.closedWindows)
    {allowedLateness : Nat} {keyed hasGcWal : Bool} {actions : List ActorAction}
    (hrun : Along Orderly step (init m allowedLateness keyed hasGcWal) actions) :
    (exec step (init m allowedLateness keyed hasGcWal) actions).KeepsLive := by
  have hinv := exec_invariant (I := Inv) (fun s a h hok => h.step a hok)
    (Inv.init hconf hfits hclosed allowedLateness keyed hasGcWal) hrun
  exact hinv.keepsLive

/-- Two fixed windows that are closed together; the second one is completed after the
first one is collected. -/
def serialActions : List ActorAction :=
  [.reducer (.read { eventTime := 5000000 }), .reducer .close, .reducer .assign,
    .reducer (.read { eventTime := 15000000 }), .reducer .close, .reducer .assign,
    .reducer (.read { typ := .wmb, eventTime := 0, watermark := some 25000000 }),
    .reducer .close, .receive, .receive, .receive,
    .task 0 .complete, .task 0 .readOldest, .task 0 .gcWindow, .task 0 .emit, .receive]

theorem serialActions_keepsLive :
    (exec step (init (.fixed (.new 10000000)) 0 true true) serialActions).gcEvents.length = 1 ∧
      (exec step (init (.fixed (.new 10000000)) 0 true true) serialActions).KeepsLive := by
  refine ⟨by decide, keepsLive_exec (by decide) ?_ ?_ (by decide)⟩
  · simp [activeWindows, FixedWindowManager.new]
  · simp [closedWindows, FixedWindowManager.new]

/-- Two fixed windows that are closed together; the task of the first one fails and
the second one is completed and collected. -/
def failedActions : List ActorAction :=
  [.reducer (.read { eventTime := 5000000 }), .reducer .close, .reducer .assign,
    .reducer (.read { eventTime := 15000000 }), .reducer .close, .reducer .assign,
    .reducer (.read { typ := .wmb, eventTime := 0, watermark := some 25000000 }),
    .reducer .close, .receive, .receive, .receive, .task 0 .fail, .receive,
    .task 1 .complete, .task 1 .readOldest, .task 1 .gcWindow, .task 1 .emit]

/-- A message of a live window that compaction drops. -/
theorem not_keepsLive {s : ActorRun} (hbuild : buildAlignedCompaction s.gcEvents = some compaction)
    (hx : x ∈ s.reducer.sent) (hmsg : x.operation.message = some msg)
    (hlive : s.Live x.operation.window)
    (hdrop : compaction.shouldRetainMessage (isbMessage { msg with keys := [] }) = .ok false) :
    ¬ s.KeepsLive := by
  intro h
  rcases h with ⟨compaction', hbuild', hkeeps⟩
  rw [hbuild] at hbuild'
  cases hbuild'
  have hretain := hkeeps x hx msg hmsg hlive []
  rw [hdrop] at hretain
  cases hretain

/-- The end of the second window drops the message of the first one, whose results
are not written. -/
theorem failedActions_not_keepsLive :
    ¬ (exec step (init (.fixed (.new 10000000)) 0 true true) failedActions).KeepsLive := by
  refine not_keepsLive (x := openMessage { eventTime := 5000000 } ⟨0, 10000000⟩) rfl (by decide)
    rfl (Or.inr ⟨⟨closeMessage ⟨0, 10000000⟩, by decide, rfl⟩, ?_⟩) (by decide)
  unfold Completed
  decide

end Numaflow.Aligned.ActorRun
