import Numaflow.Reduce.Aligned.Sent
import Numaflow.Reduce.Wal.Compactor

/-!
# The actor and the reduce tasks of aligned windows

The reducer sends window operations over a channel to an actor, which keeps one
reduce task per window.  On a close the actor drops the sender of the task's stream
and waits for the task to end before it receives the next operation.  A task whose
stream has ended writes its results, reads the oldest window, deletes its own window
and emits a GC event; it may also fail at any time before its results are written.

The steps of the reducer, the actor and the tasks interleave freely.  The channel is
unbounded here, which only adds runs.  What a task computes is not modelled.
-/

namespace Numaflow.Aligned

open Wal

/-- How far a reduce task has come. -/
inductive TaskPhase where
  | running
  | failed
  | written
  | oldestRead (oldest : Window)
  | deleted (oldest : Window)
  | finished
deriving DecidableEq, Repr

namespace TaskPhase

/-- The results of the window are written. -/
def completed : TaskPhase → Bool
  | .running => false
  | .failed => false
  | _ => true

/-- The task has returned. -/
def ended : TaskPhase → Bool
  | .failed => true
  | .finished => true
  | _ => false

/-- The task has deleted its window. -/
def removed : TaskPhase → Bool
  | .deleted _ => true
  | .finished => true
  | _ => false

theorem completed_of_removed {phase : TaskPhase} (h : phase.removed = true) :
    phase.completed = true := by
  cases phase <;> simp_all [removed, completed]

/-- A task that has returned has written its results or has failed. -/
theorem completed_of_ended {phase : TaskPhase} (h : phase.ended = true)
    (hfailed : phase ≠ .failed) : phase.completed = true := by
  cases phase <;> simp_all [ended, completed]

end TaskPhase

/-- The sender of a task's stream: kept among the active streams, replaced there by
another stream for the slot, or dropped on a close. -/
inductive Sender where
  | held
  | replaced
  | dropped
deriving DecidableEq, Repr

/-- A reduce task. -/
structure ReduceTask where
  slot : String
  window : Window
  sender : Sender
  phase : TaskPhase
deriving DecidableEq, Repr

/-- The GC event of a finished task.  A message can be part of several sliding
windows, so only the messages before the oldest window can be deleted. -/
def AlignedWindowManager.gcEvent (m : AlignedWindowManager) (window oldest : Window) : GcEvent :=
  match m with
  | .sliding _ => Window.gcEvent ⟨oldest.startTime, oldest.startTime⟩
  | .fixed _ => window.gcEvent

/-- Drop the sender that is held for a slot. -/
def release (slot : String) (sender : Sender) (tasks : List ReduceTask) : List ReduceTask :=
  tasks.map fun t => if t.slot = slot ∧ t.sender = .held then { t with sender := sender } else t

/-- An event in the life of a reduce task. -/
inductive TaskEvent where
  | complete
  | fail
  | readOldest
  | gcWindow
  | emit
  | lose
deriving DecidableEq, Repr

/-- A step of the reducer, the actor or a reduce task. -/
inductive ActorAction where
  | reducer (action : ReducerAction)
  | receive
  | task (index : Nat) (event : TaskEvent)
deriving DecidableEq, Repr

/-- The reducer, how many of its operations the actor has received, the tasks in the
order in which they were started, and the GC events emitted so far. -/
structure ActorRun where
  reducer : ReducerRun
  received : Nat
  tasks : List ReduceTask
  hasGcWal : Bool
  gcEvents : List GcEvent

namespace ActorRun

/-- Nothing has happened yet. -/
def init (windowManager : AlignedWindowManager) (allowedLateness : Nat) (keyed hasGcWal : Bool) :
    ActorRun :=
  ⟨.init windowManager allowedLateness keyed, 0, [], hasGcWal, []⟩

section

variable (s : ActorRun)

/-- The operations that the actor has received. -/
def handled : List AlignedWindowMessage :=
  s.reducer.sent.take s.received

/-- The actor is not waiting for a task whose sender it has dropped. -/
def ready : Bool :=
  s.tasks.all fun t => decide (t.sender = .dropped → t.phase.ended = true)

/-- There is an active stream for the slot. -/
def hasStream (slot : String) : Bool :=
  s.tasks.any fun t => decide (t.slot = slot ∧ t.sender = .held)

/-- Start a reduce task and keep its stream, in place of any stream of that slot. -/
def windowOpen (slot : String) (window : Window) : ActorRun :=
  { s with tasks := release slot .replaced s.tasks ++ [⟨slot, window, .held, .running⟩] }

/-- Send a message to the task of a window; after a replay there may be none yet. -/
def windowAppend (slot : String) (window : Window) : ActorRun :=
  if s.hasStream slot then s else s.windowOpen slot window

/-- Drop the sender of a window's stream, if there is one. -/
def windowClose (slot : String) : ActorRun :=
  { s with tasks := release slot .dropped s.tasks }

/-- Handle an operation. -/
def handleWindowMessage (x : AlignedWindowMessage) : ActorRun :=
  match x.operation with
  | .openOp _ window => s.windowOpen x.pnfSlot window
  | .appendOp _ window => s.windowAppend x.pnfSlot window
  | .closeOp _ => s.windowClose x.pnfSlot

/-- Move a task to another phase. -/
def setPhase (index : Nat) (t : ReduceTask) (phase : TaskPhase) : ActorRun :=
  { s with tasks := s.tasks.set index { t with phase := phase } }

/-- An event of a task, in the phase in which it can happen. -/
def taskStep (index : Nat) (t : ReduceTask) (event : TaskEvent) : ActorRun :=
  match event, t.phase with
  | .complete, .running =>
    -- the stream of the task ends only when its sender is dropped
    if t.sender = .held then s else s.setPhase index t .written
  | .fail, .running => s.setPhase index t .failed
  | .readOldest, .written =>
    match s.reducer.manager.oldestWindow with
    | some oldest => s.setPhase index t (.oldestRead oldest)
    -- the task stops here, without deleting its window
    | none => s.setPhase index t .finished
  | .gcWindow, .oldestRead oldest =>
    { s.setPhase index t (.deleted oldest) with
      reducer := s.reducer.withManager (s.reducer.manager.gcWindow t.window) }
  | .emit, .deleted oldest =>
    { s.setPhase index t .finished with
      gcEvents :=
        if s.hasGcWal then s.gcEvents ++ [s.reducer.manager.gcEvent t.window oldest]
        else s.gcEvents }
  -- the GC log cannot be written to
  | .lose, .deleted _ => s.setPhase index t .finished
  | _, _ => s

/-- Perform a step; a step that cannot happen changes nothing.  Windows are deleted by
the reduce tasks only. -/
def step : ActorAction → ActorRun
  | .reducer (.gc _) => s
  | .reducer action => { s with reducer := s.reducer.step action }
  | .receive =>
    if s.ready then
      match s.reducer.sent[s.received]? with
      | some x => { s.handleWindowMessage x with received := s.received + 1 }
      | none => s
    else s
  | .task index event =>
    match s.tasks[index]? with
    | some t => s.taskStep index t event
    | none => s

/-- The results of the window are written. -/
def Completed (w : Window) : Prop :=
  ∃ t ∈ s.tasks, t.window = w ∧ t.phase.completed = true

/-- The window is active, or closed and not completed. -/
def Live (w : Window) : Prop :=
  w ∈ s.reducer.active ∨ (s.reducer.CloseSent w ∧ ¬ s.Completed w)

/-- The compaction built from the GC events retains every message that was sent to a
live window.  The log stores messages under their original keys. -/
def KeepsLive : Prop :=
  ∃ compaction, buildAlignedCompaction s.gcEvents = some compaction ∧
    ∀ x ∈ s.reducer.sent, ∀ msg ∈ x.operation.message, s.Live x.operation.window →
      ∀ keys, compaction.shouldRetainMessage (isbMessage { msg with keys := keys }) = .ok true

/-- No message from before the epoch is assigned, and no fixed window is completed
after the task of an earlier one has failed. -/
def Orderly : ActorAction → Prop
  | .reducer .assign => ∀ msg ∈ s.reducer.phase.toAssign, 0 ≤ msg.eventTime
  | .task index .complete => ∀ t ∈ s.tasks[index]?, s.reducer.manager.shape.sliding = false →
      ∀ u ∈ s.tasks, u.phase = .failed → t.window.endTime ≤ u.window.endTime
  | _ => True

end

instance (s : ActorRun) : DecidablePred s.Orderly := fun _ => by
  unfold Orderly
  split <;> infer_instance

end ActorRun
end Numaflow.Aligned
