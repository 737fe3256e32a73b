import Numaflow.Reduce.Unaligned.SessionSpec
import Numaflow.Reduce.Unaligned.Vertex

/-!
# Compaction keeps the data of live sessions

Compaction drops the messages of a key that are older than the end of the latest
collected window of that key.  A session that is closed waits for the SDK to end it,
and the SDK may end the sessions of a key in any order.  When a later session ends
first, its GC event covers the messages of the earlier one as well.

The messages of live sessions are retained as long as the sessions of a key end in the
order of their end times, and no session is lost by the window order.

Main results: `Ended.receive`, `keepsSessions_exec`.
-/

namespace Numaflow.Unaligned

open Lib Wal SessionWindowManager List

/-! ## Ended sessions -/

namespace Sdk

/-- Closed sessions stay closed, in the order in which they were closed. -/
theorem closed_prefix_receive (d : Sdk) (x : UnalignedWindowMessage) :
    d.closed <+: (d.receive x).closed := by
  unfold receive apply
  split <;> simp

theorem closed_prefix_foldl (d : Sdk) (xs : List UnalignedWindowMessage) :
    d.closed <+: (xs.foldl receive d).closed := by
  induction xs generalizing d with
  | nil => exact prefix_refl _
  | cons x _ ih => exact (d.closed_prefix_receive x).trans (ih (d.receive x))

end Sdk

/-- The windows `received` belong to closed sessions and end before the other
closed sessions of their key start. -/
structure Ended (closed : List Session) (received : List Window) : Prop where
  mem : ∀ v ∈ received, ∃ c ∈ closed, c.window = v
  ordered : ∀ v ∈ received, ∀ c ∈ closed, c.window ∉ received → v.SameKey c.window →
    v.endTime ≤ c.window.startTime

namespace Ended

variable {closed closed' : List Session} {received : List Window} {s : Session}

/-- Later sessions start after the ended ones. -/
theorem grow (h : Ended closed received) (hgrow : closed <+: closed')
    (hapart : closed'.Pairwise fun c c' => c.window.SameKey c'.window →
      c.window.endTime ≤ c'.window.startTime) : Ended closed' received := by
  rcases hgrow with ⟨more, rfl⟩
  refine ⟨?_, ?_⟩
  · intro v hv
    rcases h.mem v hv with ⟨c, hc, rfl⟩
    exact ⟨c, mem_append_left _ hc, rfl⟩
  · intro v hv c hc hnew hsame
    rcases mem_append.mp hc with hc | hc
    · exact h.ordered v hv c hc hnew hsame
    · rcases h.mem v hv with ⟨c', hc', rfl⟩
      exact (pairwise_append.mp hapart).2.2 c' hc' c hc hsame

/-- A session ends that does not end after another one of its key. -/
theorem receive (h : Ended closed received)
    (hapart : closed.Pairwise fun c c' => c.window.SameKey c'.window →
      c.window.endTime ≤ c'.window.startTime) (hproper : ∀ c ∈ closed, c.window.Proper)
    (hs : s ∈ closed) (horder : ∀ c ∈ closed, c.window ∉ received → c.window.SameKey s.window →
      s.window.endTime ≤ c.window.endTime) : Ended closed (received ++ [s.window]) := by
  refine ⟨forall_mem_concat.mpr ⟨h.mem, s, hs, rfl⟩, ?_⟩
  · intro v hv c hc hnew hsame
    rw [mem_append, mem_singleton, not_or] at hnew
    rcases mem_append.mp hv with hv | hv
    · exact h.ordered v hv c hc hnew.1 hsame
    · rw [mem_singleton] at hv
      subst hv
      have hle := horder c hc hnew.1 hsame.symm
      rcases append_of_mem hs with ⟨before, after, rfl⟩
      rw [pairwise_append, pairwise_cons] at hapart
      rcases mem_append.mp hc with hbefore | hafter
      · -- a session closed before ends before, which the order of the ends excludes
        have hback := hapart.2.2 c hbefore s mem_cons_self hsame.symm
        have hlt : s.window.startTime < s.window.endTime := hproper s hs
        omega
      · rcases mem_cons.mp hafter with rfl | hafter
        · exact absurd rfl hnew.2
        · exact hapart.2.1.1 c hafter hsame

end Ended

namespace VertexRun

/-- The sessions that are open, or closed and not yet ended. -/
def liveSessions (s : VertexRun) : List Session :=
  s.sdk.opened ++ s.sdk.closed.filter fun c => decide (c.window ∉ s.received)

/-- The compaction built from the GC events retains every message that a live session
holds.  The log stores messages under their original keys. -/
def KeepsSessions (s : VertexRun) : Prop :=
  ∃ compaction, buildUnalignedCompaction s.gcEvents = some compaction ∧
    ∀ c ∈ s.liveSessions, ∀ n ∈ c.contents,
      (∃ msg ∈ s.wal, rekey s.reducer.keyed msg = n) ∧
        ∀ msg ∈ s.wal, rekey s.reducer.keyed msg = n →
          compaction.shouldRetainMessage (isbMessage msg) = .ok true

/-- No window is lost, and no session ends before an earlier one of its key. -/
def EndsInOrder (s : VertexRun) : VertexAction → Prop
  | .assign => ∀ msg ∈ s.phase.toAssign, ∀ m ∈ s.manager.session?,
      ¬ EndCollision (activeOf m.activeWindows (combineKeys msg.keys)) (newWindow m.timeout msg)
  | .response window true => ∀ c ∈ s.sdk.closed, c.window ∉ s.received →
      c.window.SameKey window → window.endTime ≤ c.window.endTime
  | _ => True

instance (v w : Window) : Decidable (v.SameKey w) :=
  inferInstanceAs (Decidable (combineKeys v.keys = combineKeys w.keys))

instance (s : VertexRun) : DecidablePred s.EndsInOrder := fun _ => by
  unfold EndsInOrder
  split <;> infer_instance

/-! ## Runs -/

/-- Manager and SDK agree on the sessions, and ended sessions precede the others. -/
structure Sessions (timeout : Nat) (m : SessionWindowManager) (s : VertexRun) : Prop where
  manager : s.manager = .session m
  timeout_eq : m.timeout = timeout
  tracks : Tracks timeout combineKeys s.assigned s.closedAt m.activeWindows [] s.sdk
  ended : Ended s.sdk.closed s.received

namespace Sessions

variable {timeout : Nat} {m : SessionWindowManager} {s s' : VertexRun} {a : VertexAction}

theorem init (timeout allowedLateness : Nat) (keyed hasGcWal : Bool) :
    (init (.session (.new timeout)) allowedLateness keyed hasGcWal).Sessions timeout
      (.new timeout) where
  manager := rfl
  timeout_eq := rfl
  tracks := Tracks.init
  ended := ⟨nofun, nofun⟩

variable (h : s.Sessions timeout m)

include h

variable {m' : SessionWindowManager} {xs : List UnalignedWindowMessage} {msg : Message}
  {window v : Window} {eof : Bool} {c : Session}

/-- New operations of the manager. -/
theorem send (hmanager : s'.manager = .session m')
    (htimeout : m'.timeout = timeout) (hsent : s'.sent = s.sent ++ xs)
    (hreceived : s'.received = s.received)
    (htracks : Tracks timeout combineKeys s'.assigned s'.closedAt m'.activeWindows []
      (xs.foldl Sdk.receive s.sdk)) : s'.Sessions timeout m' := by
  have hsdk := s.sdk_of_sent hsent
  refine ⟨hmanager, htimeout, ?_, ?_⟩
  · rw [hsdk]
    exact htracks
  · rw [hsdk, hreceived]
    exact h.ended.grow (s.sdk.closed_prefix_foldl xs) htracks.sound.apart

variable (ht : 1000000 ≤ timeout)

include ht

theorem close (hclock : s.Clock) (order : List String) (next : Option Message) :
    (s.closeWindowsByWm order next).Sessions timeout
      (m.closeWindows order s.reducer.closeWatermark).1 := by
  refine h.send ?_ ?_ ?_ rfl (h.tracks.close ht hclock.bounded order)
  · rw [closeWindowsByWm_manager, h.manager, UnalignedWindowManager.closeWindows_session]
  · rw [closeWindows_timeout, h.timeout_eq]
  · rw [closeWindowsByWm_sent, h.manager, UnalignedWindowManager.closeWindows_session]

theorem assign (hclock : s.Clock)
    (hphase : s.phase = .assigning msg) (hok : s.EndsInOrder .assign) :
    (s.assignMessage msg).Sessions timeout (m.assignWindows msg).1 := by
  have hclear : ¬ EndCollision (activeOf m.activeWindows (combineKeys msg.keys))
      (newWindow m.timeout msg) := by
    refine hok msg ?_ m ?_
    · rw [hphase]
      rfl
    · rw [h.manager]
      rfl
  have htimeout := h.timeout_eq
  subst htimeout
  refine h.send ?_ (assignWindows_timeout m msg) ?_ rfl
    (h.tracks.assign ht (hclock.le_eventTime hphase) (h.tracks.keyed _) hclear)
  · rw [assignMessage_manager, h.manager, UnalignedWindowManager.assignWindows_session]
  · rw [assignMessage_sent, h.manager, UnalignedWindowManager.assignWindows_session]

/-- The task ends a closed session. -/
theorem response (hanswers : s.answers window = true) (htracked : s.tracked eof = true)
    (hok : s.EndsInOrder (.response window eof)) : (s.track window).Sessions timeout m := by
  have hclosed : ∃ c ∈ s.sdk.closed, c.window = window := by
    rw [answers, h.manager] at hanswers
    simpa using hanswers
  have heof : eof = true := by
    rw [tracked, h.manager] at htracked
    exact htracked
  subst heof
  rcases hclosed with ⟨c, hc, rfl⟩
  refine ⟨h.manager, h.timeout_eq, h.tracks, ?_⟩
  apply h.ended.receive h.tracks.sound.apart ?_ hc hok
  intro c' hc'
  exact (h.tracks.sound.cluster c' (mem_append_right _ hc')).lt
    fun m _ => sessionStart_lt_sessionEnd ht m

omit ht in
/-- Deleting windows does not touch the active ones. -/
theorem flush (gcOrder drainOrder : List (List String)) :
    (s.flush gcOrder drainOrder).Sessions timeout
      ((s.task.drained drainOrder).foldl deleteWindow m) := by
  have hdelete : ∀ (windows : List Window) (m : SessionWindowManager),
      windows.foldl UnalignedWindowManager.deleteWindow (.session m) =
          .session (windows.foldl deleteWindow m) ∧
        (windows.foldl deleteWindow m).activeWindows = m.activeWindows ∧
        (windows.foldl deleteWindow m).timeout = m.timeout := by
    intro windows
    induction windows with
    | nil => exact fun m => ⟨rfl, rfl, rfl⟩
    | cons w _ ih => exact fun m => ih (m.deleteWindow w)
  rcases hdelete _ m with ⟨hmanager, hactive, htimeout⟩
  refine ⟨?_, ?_, ?_, h.ended⟩
  · rw [flush_manager, h.manager, hmanager]
  · rw [htimeout, h.timeout_eq]
  · rw [hactive]
    exact h.tracks

/-- Every orderly step keeps manager and SDK in agreement. -/
theorem effect (hclock : s.Clock)
    (heffect : Effect s a s') (hok : s.EndsInOrder a) : ∃ m', s'.Sessions timeout m' := by
  cases heffect with
  | none => exact ⟨m, h⟩
  | read msg =>
    refine ⟨m, ?_, h.timeout_eq, h.tracks, h.ended⟩
    rw [← h.manager]
    exact (s.reducer.read_windowManager msg).1
  | close order next => exact ⟨_, h.close ht hclock order next⟩
  | assign _ hphase => exact ⟨_, h.assign ht hclock hphase hok⟩
  | error => exact ⟨m, h.manager, h.timeout_eq, h.tracks, h.ended⟩
  | response _ _ hanswers htracked => exact ⟨m, h.response ht hanswers htracked hok⟩
  | tick gcOrder drainOrder => exact ⟨_, h.flush gcOrder drainOrder⟩

omit ht in
/-- A received window that the compactor matches with a message of a session belongs
to the key of the session. -/
theorem sameKey_of_joinKeys (hstored : s.Stored) (hv : v ∈ s.received)
    (hc : c ∈ s.sdk.opened ++ s.sdk.closed) (hmsg : rekey s.reducer.keyed msg ∈ c.contents)
    (hjoin : joinKeys v.keys = joinKeys msg.keys) : v.SameKey c.window := by
  have hkeys := h.tracks.sound.keys c hc _ hmsg
  unfold Window.SameKey
  rw [← hkeys]
  cases hkeyed : s.reducer.keyed with
  | true => exact hjoin
  | false =>
    -- every message that is assigned has the default key
    rcases h.ended.mem v hv with ⟨c', hc', rfl⟩
    have hmem := mem_append_right s.sdk.opened hc'
    have hcluster := h.tracks.sound.cluster c' hmem
    rcases exists_mem_of_ne_nil _ hcluster.nonempty with ⟨n, hn⟩
    have hassigned := h.tracks.sound.exhaust.subset (mem_flatMap.mpr ⟨c', hmem, hn⟩)
    rcases hstored.assigned n hassigned with ⟨msg', -, rfl⟩
    rw [← h.tracks.sound.keys c' hmem _ hn, hkeyed]
    rfl

omit ht in
/-- A received window ends before a live session of its key starts. -/
theorem end_le_start (hv : v ∈ s.received) (hc : c ∈ s.liveSessions)
    (hsame : v.SameKey c.window) : v.endTime ≤ c.window.startTime := by
  rcases mem_append.mp hc with hopened | hclosed
  · rcases h.ended.mem v hv with ⟨c', hc', rfl⟩
    exact h.tracks.sound.apartOpen c' hc' c hopened hsame
  · rcases mem_filter.mp hclosed with ⟨hclosed, hnew⟩
    exact h.ended.ordered v hv c hclosed (of_decide_eq_true hnew) hsame

/-- Compaction retains the messages of live sessions. -/
theorem keepsSessions (hstored : s.Stored) (hcollecting : s.Collecting) : s.KeepsSessions := by
  rcases hcollecting.exists_compaction with ⟨compaction, hbuild⟩
  refine ⟨compaction, hbuild, ?_⟩
  intro c hc n hn
  have hmem : c ∈ s.sdk.opened ++ s.sdk.closed := by
    rcases mem_append.mp hc with hc | hc
    · exact mem_append_left _ hc
    · exact mem_append_right _ (mem_filter.mp hc).1
  have hassigned := h.tracks.sound.exhaust.subset (mem_flatMap.mpr ⟨c, hmem, hn⟩)
  refine ⟨hstored.assigned n hassigned, ?_⟩
  rintro msg - rfl
  rw [buildUnalignedCompaction_retains hbuild]
  intro event hevent gc hgc hkeys
  rcases hcollecting.events event hevent with ⟨v, hv, rfl⟩
  have hgc : gc = ⟨v.startTime, v.endTime, some v.keys⟩ := by
    simpa [Window.gcEvent, GcEvent.toEntry, eq_comm] using hgc
  subst hgc
  rw [Option.map_some, Option.some.injEq] at hkeys
  have hsame := h.sameKey_of_joinKeys hstored hv hmem hn hkeys
  calc v.endTime ≤ c.window.startTime := h.end_le_start hv hc hsame
    _ ≤ sessionStart (rekey s.reducer.keyed msg) :=
      (h.tracks.sound.cluster c hmem).start_le hn (sessionStart_lt_sessionEnd ht _)
    _ ≤ msg.eventTime := by
      rw [sessionStart, rekey_eventTime]
      exact (millis_floor msg.eventTime).1

end Sessions

/-- In every state of an orderly run of a session vertex compaction retains the
messages of all live sessions. -/
theorem keepsSessions_exec {timeout : Nat} (ht : 1000000 ≤ timeout) {allowedLateness : Nat}
    {keyed hasGcWal : Bool} {actions : List VertexAction}
    (hrun : Along EndsInOrder step
      (init (.session (.new timeout)) allowedLateness keyed hasGcWal) actions) :
    (exec step (init (.session (.new timeout)) allowedLateness keyed hasGcWal)
      actions).KeepsSessions := by
  have hinv := exec_invariant
    (I := fun s : VertexRun => (∃ m, s.Sessions timeout m) ∧ s.Clock ∧ s.Stored ∧ s.Collecting)
    ?_ ⟨⟨_, Sessions.init timeout allowedLateness keyed hasGcWal⟩, Clock.init _ _ _ _,
      Stored.init _ _ _ _, Collecting.init _ _ _ _⟩ hrun
  · rcases hinv with ⟨⟨m, hsessions⟩, -, hstored, hcollecting⟩
    exact hsessions.keepsSessions ht hstored hcollecting
  · intro s a h hok
    rcases h with ⟨⟨m, hsessions⟩, hclock, hstored, hcollecting⟩
    have heffect := s.step_effect a
    exact ⟨hsessions.effect ht hclock heffect hok, hclock.effect heffect, hstored.effect heffect,
      hcollecting.effect heffect⟩

/-- Two sessions of one key are closed together; the first one ends and is collected
while the second one and a new session are live. -/
def orderlyActions : List VertexAction :=
  [.read { keys := ["a"], eventTime := 0 }, .close [], .assign,
    .read { keys := ["a"], eventTime := 30000000 }, .close [], .assign,
    .read { typ := .wmb, eventTime := 0, watermark := some 50000000 }, .close [],
    .response ⟨0, 10000000, ["a"]⟩ true, .tick [] [],
    .read { keys := ["a"], eventTime := 60000000 }, .close [], .assign]

theorem orderlyActions_keepsSessions :
    (exec step (init (.session (.new 10000000)) 0 true true) orderlyActions).gcEvents.length = 1 ∧
      (exec step (init (.session (.new 10000000)) 0 true true) orderlyActions).KeepsSessions :=
  ⟨by decide, keepsSessions_exec (by decide) (by decide)⟩

variable {compaction : UnalignedCompaction}

/-- A message of a live session that compaction drops. -/
theorem not_keepsSessions {s : VertexRun} (c : Session) (msg : Message)
    (hbuild : buildUnalignedCompaction s.gcEvents = some compaction) (hc : c ∈ s.liveSessions)
    (hwal : msg ∈ s.wal) (hmsg : rekey s.reducer.keyed msg ∈ c.contents)
    (hdrop : compaction.shouldRetainMessage (isbMessage msg) = .ok false) : ¬ s.KeepsSessions := by
  intro h
  rcases h with ⟨compaction', hbuild', hkeeps⟩
  rw [hbuild] at hbuild'
  cases hbuild'
  have hretain := (hkeeps c hc _ hmsg).2 msg hwal rfl
  rw [hdrop] at hretain
  cases hretain

/-- Two sessions of one key are closed together, and the second one ends first. -/
def laterFirstActions : List VertexAction :=
  [.read { keys := ["a"], eventTime := 0 }, .close [], .assign,
    .read { keys := ["a"], eventTime := 30000000 }, .close [], .assign,
    .read { typ := .wmb, eventTime := 0, watermark := some 50000000 }, .close [],
    .response ⟨30000000, 40000000, ["a"]⟩ true, .tick [] []]

/-- The end of the second session drops the message of the first one, which has not
ended. -/
theorem laterFirstActions_not_keepsSessions :
    ¬ (exec step (init (.session (.new 10000000)) 0 true true) laterFirstActions).KeepsSessions :=
  not_keepsSessions ⟨⟨0, 10000000, ["a"]⟩, [{ keys := ["a"], eventTime := 0 }]⟩
    { keys := ["a"], eventTime := 0 } rfl (by decide) (by decide) (by decide) (by decide)

end VertexRun
end Numaflow.Unaligned
