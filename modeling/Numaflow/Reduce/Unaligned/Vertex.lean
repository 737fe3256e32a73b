import Numaflow.Reduce.Reducer
import Numaflow.Reduce.Unaligned.Accumulator
import Numaflow.Reduce.Unaligned.Sdk
import Numaflow.Reduce.Unaligned.SessionReduce
import Numaflow.Reduce.Wal.Compactor

/-!
# An unaligned reduce vertex

Every message that the vertex reads is written to the data log and handed to the
reducer, which closes windows, assigns the message and sends the window operations to
the SDK.  All operations travel on one slot, so there is one reduce task.  It tracks
the windows of the responses and, on every tick, writes a GC event for each of them
and deletes them from the manager.

The steps of the reducer, the SDK and the task interleave freely.  An operation counts
as received when it is sent; the SDK may answer at any later time, which covers every
delay of the channels.  Reading a message and writing it to the data log is one step: in
the source the queue hands it to the task of the log, which writes it a little later.

Main results: `step_effect`, `Clock.effect`, `Stored.effect`,
`Collecting.effect`.
-/

namespace Numaflow.Unaligned

open Lib Wal List

/-- The window manager of an unaligned vertex. -/
inductive UnalignedWindowManager where
  | accumulator (manager : AccumulatorWindowManager)
  | session (manager : SessionWindowManager)

namespace UnalignedWindowManager

section

variable (m : UnalignedWindowManager)

/-- Assign windows to a message. -/
def assignWindows (msg : Message) :
    UnalignedWindowManager × List UnalignedWindowMessage :=
  match m with
  | .accumulator manager => (manager.assignWindows msg).map .accumulator id
  | .session manager => (manager.assignWindows msg).map .session id

/-- Close the windows that the watermark has passed. -/
def closeWindows (order : List String) (watermark : Int) :
    UnalignedWindowManager × List UnalignedWindowMessage :=
  match m with
  | .accumulator manager => (manager.closeWindows order watermark).map .accumulator id
  | .session manager => (manager.closeWindows order watermark).map .session id

/-- Delete a window from the tracked windows. -/
def deleteWindow (window : Window) : UnalignedWindowManager :=
  match m with
  | .accumulator manager => .accumulator (manager.deleteWindow window)
  | .session manager => .session (manager.deleteWindow window)

end

section

variable (a : AccumulatorWindowManager) (m : SessionWindowManager) (msg : Message)
  (order : List String) (watermark : Int) (window : Window)

@[simp]
theorem assignWindows_accumulator : (accumulator a).assignWindows msg =
      (.accumulator (a.assignWindows msg).1, (a.assignWindows msg).2) :=
  rfl

@[simp]
theorem assignWindows_session :
    (session m).assignWindows msg = (.session (m.assignWindows msg).1, (m.assignWindows msg).2) :=
  rfl

@[simp]
theorem closeWindows_accumulator : (accumulator a).closeWindows order watermark =
      (.accumulator (a.closeWindows order watermark).1, (a.closeWindows order watermark).2) :=
  rfl

@[simp]
theorem closeWindows_session : (session m).closeWindows order watermark =
      (.session (m.closeWindows order watermark).1, (m.closeWindows order watermark).2) :=
  rfl

end

/-- The session manager, if it is one. -/
def session? : UnalignedWindowManager → Option SessionWindowManager
  | .accumulator _ => none
  | .session manager => some manager

end UnalignedWindowManager

/-- The configured kind of unaligned windows, with its timeout. -/
inductive UnalignedWindowType where
  | accumulator (timeout : Nat)
  | session (timeout : Nat)
deriving DecidableEq, Repr

/-- A manager without windows. -/
def UnalignedWindowType.newManager : UnalignedWindowType → UnalignedWindowManager
  | .accumulator timeout => .accumulator (.new timeout)
  | .session timeout => .session (.new timeout)

/-- State of the unaligned reducer. -/
abbrev UnalignedReducer := Reducer UnalignedWindowManager

/-- A step of the reducer, the SDK or the reduce task.  The final flush of the task is
a tick after which no response arrives. -/
inductive VertexAction where
  | read (msg : Message)
  | close (order : List String)
  | assign
  | error
  | response (window : Window) (eof : Bool)
  | tick (gcOrder drainOrder : List (List String))
deriving DecidableEq, Repr

/-- The reducer and its task, with the messages in the data log, the messages assigned
so far, the operations sent to the SDK, the last watermark used to close windows, the
windows of the tracked responses and the GC events written. -/
structure VertexRun where
  reducer : UnalignedReducer
  phase : Phase
  task : ReduceTask
  wal : List Message
  assigned : List Message
  sent : List UnalignedWindowMessage
  closedAt : Option Int
  received : List Window
  gcEvents : List GcEvent

namespace VertexRun

/-- Nothing has been read yet. -/
def init (windowManager : UnalignedWindowManager) (allowedLateness : Nat)
    (keyed hasGcWal : Bool) : VertexRun :=
  ⟨Reducer.new windowManager allowedLateness keyed, .idle, ReduceTask.new hasGcWal, [], [], [],
    none, [], []⟩

section

variable (s : VertexRun)

/-- The window manager, which the reducer shares with the task. -/
def manager : UnalignedWindowManager :=
  s.reducer.windowManager

/-- The sessions of the SDK. -/
def sdk : Sdk :=
  s.sent.foldl Sdk.receive Sdk.init

/-- The messages that an operation of an accumulator adds to the window of some keys. -/
def accumulated (keys : List String) (x : UnalignedWindowMessage) : List Message :=
  match x.operation with
  | .openOp msg window => if window.keys = keys then [msg] else []
  | .appendOp msg window => if window.keys = keys then [msg] else []
  | _ => []

/-- The messages assigned to a window for which the SDK answers.  The window of a
session is known once the session is closed; the responses of an accumulator name its
window by the keys. -/
def held (window : Window) : List Message :=
  match s.manager with
  | .accumulator _ => s.sent.flatMap (accumulated window.keys)
  | .session _ =>
    (s.sdk.closed.filter fun c => decide (c.window = window)).flatMap Session.contents

/-- The SDK can answer for a window: a closed session, or an accumulator window. -/
def answers (window : Window) : Bool :=
  match s.manager with
  | .accumulator _ => ! (s.held window).isEmpty
  | .session _ => s.sdk.closed.any fun c => decide (c.window = window)

/-- The task tracks every response of an accumulator, and the end of a session. -/
def tracked (eof : Bool) : Bool :=
  match s.manager with
  | .accumulator _ => true
  | .session _ => eof

/-- Replace the window manager. -/
def withManager (m : UnalignedWindowManager) : VertexRun :=
  { s with reducer := { s.reducer with windowManager := m } }

/-- Write a message to the data log and read it. -/
def readMessage (msg : Message) : VertexRun :=
  { s with
    reducer := (s.reducer.read msg).1
    phase := (s.reducer.read msg).2
    wal := s.wal ++ [msg] }

/-- Close windows before the message `next` is assigned. -/
def closeWindowsByWm (order : List String) (next : Option Message) : VertexRun :=
  let result := s.manager.closeWindows order s.reducer.closeWatermark
  { s.withManager result.1 with
    phase := next.elim .idle .assigning
    sent := s.sent ++ result.2
    closedAt := some s.reducer.closeWatermark }

/-- Assign a message. -/
def assignMessage (msg : Message) : VertexRun :=
  let result := s.manager.assignWindows msg
  { s.withManager result.1 with
    phase := .idle
    assigned := s.assigned ++ [msg]
    sent := s.sent ++ result.2 }

/-- Stop after an error; messages are drained from now on. -/
def handleError : VertexRun :=
  { s with reducer := { s.reducer with shuttingDownOnErr := true } }

/-- Track the window of a response. -/
def track (window : Window) : VertexRun :=
  { s with task := s.task.track window, received := s.received ++ [window] }

/-- Write the GC events of the tracked windows and delete them. -/
def flush (gcOrder drainOrder : List (List String)) : VertexRun :=
  let deleted := s.task.deleteTrackedWindows UnalignedWindowManager.deleteWindow s.manager drainOrder
  { s.withManager deleted.2 with
    task := deleted.1
    gcEvents := s.gcEvents ++ s.task.writeGcEvents gcOrder }

/-- Perform a step; a step that is not due changes nothing. -/
def step : VertexAction → VertexRun
  | .read msg => if s.phase = .idle then s.readMessage msg else s
  | .close order =>
    match s.phase with
    | .closing next => s.closeWindowsByWm order next
    | _ => s
  | .assign =>
    match s.phase with
    | .assigning msg => s.assignMessage msg
    | _ => s
  | .error => if s.phase = .idle then s.handleError else s
  | .response window eof => if s.answers window ∧ s.tracked eof then s.track window else s
  | .tick gcOrder drainOrder => s.flush gcOrder drainOrder

end

section

variable (s : VertexRun) (order : List String) (next : Option Message) (msg : Message)
  (gcOrder drainOrder : List (List String))

@[simp]
theorem closeWindowsByWm_manager : (s.closeWindowsByWm order next).manager =
      (s.manager.closeWindows order s.reducer.closeWatermark).1 :=
  rfl

@[simp]
theorem closeWindowsByWm_sent : (s.closeWindowsByWm order next).sent =
      s.sent ++ (s.manager.closeWindows order s.reducer.closeWatermark).2 :=
  rfl

@[simp]
theorem assignMessage_manager : (s.assignMessage msg).manager = (s.manager.assignWindows msg).1 :=
  rfl

@[simp]
theorem assignMessage_sent :
    (s.assignMessage msg).sent = s.sent ++ (s.manager.assignWindows msg).2 :=
  rfl

@[simp]
theorem flush_manager : (s.flush gcOrder drainOrder).manager =
      (s.task.drained drainOrder).foldl UnalignedWindowManager.deleteWindow s.manager :=
  rfl

variable {xs : List UnalignedWindowMessage}

/-- The SDK performs the operations in the order in which they are sent. -/
theorem sdk_of_sent {s' : VertexRun} (hsent : s'.sent = s.sent ++ xs) :
    s'.sdk = xs.foldl Sdk.receive s.sdk := by
  rw [sdk, hsent, foldl_append]
  rfl

end

/-! ## Steps -/

/-- What a step can do. -/
inductive Effect (s : VertexRun) : VertexAction → VertexRun → Prop where
  | none (a : VertexAction) : Effect s a s
  | read (msg : Message) (hphase : s.phase = .idle) : Effect s (.read msg) (s.readMessage msg)
  | close (order : List String) (next : Option Message) (hphase : s.phase = .closing next) :
      Effect s (.close order) (s.closeWindowsByWm order next)
  | assign (msg : Message) (hphase : s.phase = .assigning msg) :
      Effect s .assign (s.assignMessage msg)
  | error : Effect s .error s.handleError
  | response (window : Window) (eof : Bool) (hanswers : s.answers window = true)
      (htracked : s.tracked eof = true) : Effect s (.response window eof) (s.track window)
  | tick (gcOrder drainOrder : List (List String)) :
      Effect s (.tick gcOrder drainOrder) (s.flush gcOrder drainOrder)

/-- What a step can do. -/
theorem step_effect (s : VertexRun) (a : VertexAction) : Effect s a (s.step a) := by
  cases a with
  | read msg =>
    simp only [step]
    split_ifs with hphase
    · exact .read msg hphase
    · exact .none _
  | close order =>
    simp only [step]
    split
    · rename_i next hphase
      exact .close order next hphase
    · exact .none _
  | assign =>
    simp only [step]
    split
    · rename_i msg hphase
      exact .assign msg hphase
    · exact .none _
  | error =>
    simp only [step]
    split_ifs
    · exact .error
    · exact .none _
  | response window eof =>
    simp only [step]
    split_ifs with h
    · exact .response window eof h.1 h.2
    · exact .none _
  | tick gcOrder drainOrder => exact .tick gcOrder drainOrder

/-- The watermarks of a run: the next watermark used to close windows is not below the
last one, and a message on its way to be assigned is not older than the watermark. -/
structure Clock (s : VertexRun) : Prop where
  bounded : ∀ b ∈ s.closedAt, b ≤ s.reducer.closeWatermark
  closing : ∀ msg, s.phase = .closing (some msg) → s.reducer.currentWatermark ≤ msg.eventTime
  assigning : ∀ msg, s.phase = .assigning msg → s.reducer.currentWatermark ≤ msg.eventTime

namespace Clock

variable {s s' : VertexRun} {a : VertexAction}

theorem init (m : UnalignedWindowManager) (allowedLateness : Nat) (keyed hasGcWal : Bool) :
    (init m allowedLateness keyed hasGcWal).Clock := by
  constructor <;> simp [VertexRun.init]

variable {msg : Message}

/-- No message about to be assigned is older than the last watermark used to close
windows. -/
theorem le_eventTime (h : s.Clock) (hphase : s.phase = .assigning msg) :
    ∀ b ∈ s.closedAt, b ≤ msg.eventTime := by
  intro b hb
  have hle := h.bounded b hb
  have hmsg := h.assigning msg hphase
  unfold Reducer.closeWatermark at hle
  omega

theorem read (h : s.Clock) (msg : Message) : (s.readMessage msg).Clock := by
  rcases s.reducer.read_spec msg with ⟨watermark, hgrow, hread, -⟩
  refine ⟨?_, ?_, ?_⟩
  · intro b hb
    have hle := h.bounded b hb
    unfold readMessage Reducer.closeWatermark at *
    simp only [hread]
    omega
  · intro n hn
    exact Reducer.read_accepts hn
  · intro n hn
    exact absurd hn (s.reducer.read_not_assigning msg n)

/-- Every step keeps the watermarks in order. -/
theorem effect (h : s.Clock) (heffect : Effect s a s') : s'.Clock := by
  cases heffect with
  | none => exact h
  | read msg => exact h.read msg
  | close _ next hphase =>
    refine ⟨?_, ?_, ?_⟩
    · intro b hb
      cases hb
      exact le_rfl
    · intro n hn
      cases next <;> cases hn
    · intro n hn
      cases next with
      | none => cases hn
      | some =>
        cases hn
        exact h.closing n hphase
  | assign => exact ⟨h.bounded, nofun, nofun⟩
  | error | response | tick =>
    exact ⟨h.bounded, h.closing, h.assigning⟩

end Clock

/-! ## Stored messages -/

/-- Every message that the reducer works with is in the data log, under its original
keys. -/
structure Stored (s : VertexRun) : Prop where
  closing : ∀ n, s.phase = .closing (some n) → ∃ msg ∈ s.wal, rekey s.reducer.keyed msg = n
  assigning : ∀ n, s.phase = .assigning n → ∃ msg ∈ s.wal, rekey s.reducer.keyed msg = n
  assigned : ∀ n ∈ s.assigned, ∃ msg ∈ s.wal, rekey s.reducer.keyed msg = n

namespace Stored

variable {s s' : VertexRun} {a : VertexAction}

theorem init (m : UnalignedWindowManager) (allowedLateness : Nat) (keyed hasGcWal : Bool) :
    (init m allowedLateness keyed hasGcWal).Stored := by
  constructor <;> simp [VertexRun.init]

theorem read (h : s.Stored) (msg : Message) : (s.readMessage msg).Stored := by
  rcases s.reducer.read_spec msg with ⟨watermark, -, hread, hphase⟩
  have hkeyed : (s.readMessage msg).reducer.keyed = s.reducer.keyed := by simp [readMessage, hread]
  have hmsg : msg ∈ (s.readMessage msg).wal := mem_append_right _ mem_cons_self
  refine ⟨?_, ?_, ?_⟩
  · intro n hn
    rw [hkeyed]
    simp only [readMessage] at hn
    rcases hphase with hidle | hnone | ⟨hsome, -⟩
    · rw [hidle] at hn
      cases hn
    · rw [hnone] at hn
      cases hn
    · rw [hsome] at hn
      cases hn
      exact ⟨msg, hmsg, rfl⟩
  · intro n hn
    exact absurd hn (s.reducer.read_not_assigning msg n)
  · intro n hn
    rw [hkeyed]
    rcases h.assigned n hn with ⟨msg', hmsg', heq⟩
    exact ⟨msg', mem_append_left _ hmsg', heq⟩

theorem effect (h : s.Stored) (heffect : Effect s a s') : s'.Stored := by
  cases heffect with
  | none => exact h
  | read msg => exact h.read msg
  | close _ next hphase =>
    refine ⟨?_, ?_, h.assigned⟩
    · intro n hn
      cases next <;> cases hn
    · intro n hn
      cases next with
      | none => cases hn
      | some =>
        cases hn
        exact h.closing n hphase
  | assign msg hphase =>
    exact ⟨nofun, nofun, forall_mem_concat.mpr ⟨h.assigned, h.assigning msg hphase⟩⟩
  | error | response | tick =>
    exact ⟨h.closing, h.assigning, h.assigned⟩

end Stored

/-! ## Collected windows -/

/-- GC events are written for windows of responses only. -/
structure Collecting (s : VertexRun) : Prop where
  tracked : ∀ e ∈ s.task.trackedWindows.entries, e.2 ∈ s.received
  events : ∀ event ∈ s.gcEvents, ∃ w ∈ s.received, event = w.gcEvent

namespace Collecting

variable {s s' : VertexRun} {a : VertexAction}

theorem init (m : UnalignedWindowManager) (allowedLateness : Nat) (keyed hasGcWal : Bool) :
    (init m allowedLateness keyed hasGcWal).Collecting := by
  constructor <;> simp [VertexRun.init, ReduceTask.new]

variable (h : s.Collecting)

include h

theorem track (window : Window) : (s.track window).Collecting := by
  refine ⟨?_, ?_⟩
  · intro e he
    rcases ReduceTask.mem_track he with rfl | he
    · exact mem_append_right _ mem_cons_self
    · exact mem_append_left _ (h.tracked e he)
  · intro event hevent
    rcases h.events event hevent with ⟨w, hw, heq⟩
    exact ⟨w, mem_append_left _ hw, heq⟩

theorem flush (gcOrder drainOrder : List (List String)) :
    (s.flush gcOrder drainOrder).Collecting := by
  refine ⟨?_, ?_⟩
  · intro e he
    exact absurd he not_mem_nil
  · intro event hevent
    rcases mem_append.mp hevent with hevent | hevent
    · exact h.events event hevent
    · rcases ReduceTask.mem_writeGcEvents hevent with ⟨e, he, rfl⟩
      exact ⟨e.2, h.tracked e he, rfl⟩

theorem effect (heffect : Effect s a s') : s'.Collecting := by
  cases heffect with
  | none => exact h
  | read | close | assign | error =>
    exact ⟨h.tracked, h.events⟩
  | response window => exact h.track window
  | tick gcOrder drainOrder => exact h.flush gcOrder drainOrder

/-- The compaction can always be built. -/
theorem exists_compaction :
    ∃ compaction, buildUnalignedCompaction s.gcEvents = some compaction := by
  apply Option.isSome_iff_exists.mp
  apply buildUnalignedCompaction_isSome
  intro event hevent
  rcases h.events event hevent with ⟨w, -, rfl⟩
  rfl

end Collecting

end VertexRun
end Numaflow.Unaligned
