import Numaflow.Serving.CallbackInfo

/-!
# Deliveries and their callbacks

A reader inserts a message into the tracker and starts a task that waits for its outcome.  The
reader of a buffer has a task for each message, which acks or naks the message and then deletes
it from the tracker.  A source that streams has a task for each message too, which deletes the
message first.  Any other source has one task for a batch: it waits for the outcomes in the
order of the batch, deletes each message and acks and naks them all at the end.

The deletion sends the callback.  Every deletion is logged with the outcome that the task has
received.

Main results: `Accounted.step`, `callbacks_eq_acked`, `nak_sends_callback`.
-/

namespace Numaflow.Serving

open Lib ServingTracker List

/-- A call of the source or of the buffer. -/
inductive SettleCall where
  | ack (offsets : List Offset)
  | nack (offsets : List (Offset × Option NackOptions))
deriving DecidableEq, Repr

/-- How far a task is.  An outcome is what the handle of the message sent, or nothing when the
handle was lost. -/
inductive AckTask where
  | wipWaiting (msg : UdfMessage)
  | wipCalling (msg : UdfMessage) (outcome : Option ReadAck)
  | wipDeleting (msg : UdfMessage) (outcome : Option ReadAck)
  | singleWaiting (msg : UdfMessage)
  | singleDeleting (msg : UdfMessage) (outcome : Option ReadAck)
  | singleCalling (offset : Offset) (reply : ReadAck)
  | batchWaiting (msgs : List UdfMessage) (toAck : List Offset)
      (toNack : List (Offset × Option NackOptions))
  | batchDeleting (msg : UdfMessage) (outcome : Option ReadAck) (msgs : List UdfMessage)
      (toAck : List Offset) (toNack : List (Offset × Option NackOptions))
  | done

namespace AckTask

/-- The messages that the task has not deleted yet. -/
def live : AckTask → List UdfMessage
  | .wipWaiting msg | .wipCalling msg _ | .wipDeleting msg _ => [msg]
  | .singleWaiting msg | .singleDeleting msg _ => [msg]
  | .singleCalling _ _ => []
  | .batchWaiting msgs _ _ => msgs
  | .batchDeleting msg _ msgs _ _ => msg :: msgs
  | .done => []

/-- The message whose outcome the task waits for. -/
def awaits : AckTask → Option UdfMessage
  | .wipWaiting msg | .singleWaiting msg => some msg
  | .batchWaiting (msg :: _) _ _ => some msg
  | _ => none

/-- The outcome that the task has received for a message that it has not deleted yet. -/
def received : AckTask → Option (UdfMessage × Option ReadAck)
  | .wipCalling msg outcome | .wipDeleting msg outcome => some (msg, outcome)
  | .singleDeleting msg outcome => some (msg, outcome)
  | .batchDeleting msg outcome _ _ _ => some (msg, outcome)
  | _ => none

/-- The outcome arrives. -/
def receive (outcome : Option ReadAck) : AckTask → AckTask
  | .wipWaiting msg => .wipCalling msg outcome
  | .singleWaiting msg => .singleDeleting msg outcome
  | .batchWaiting (msg :: msgs) toAck toNack =>
    match outcome with
    | some .ack => .batchDeleting msg outcome msgs (toAck ++ [msg.offset]) toNack
    | some (.nak options) =>
      .batchDeleting msg outcome msgs toAck (toNack ++ [(msg.offset, options)])
    | none => .batchDeleting msg outcome msgs toAck toNack
  | task => task

end AckTask

/-- A message was deleted from the tracker: by the task that has received the outcome of its
delivery, and with the callback that was sent. -/
structure Ended where
  msg : UdfMessage
  outcome : Option ReadAck
  callback : Option ServingCallbackInfo
deriving DecidableEq

structure DeliveryState where
  tracker : ServingTracker
  tasks : List AckTask := []
  ended : List Ended := []
  calls : List SettleCall := []

inductive DeliveryAction where
  | readBuffer (msg : UdfMessage)
  | readStreaming (msg : UdfMessage)
  | readBatch (msgs : List UdfMessage)
  | servingUpdate (offset : Offset) (responseTags : List (Option (List String)))
  | servingRefresh (offset : Offset)
  | servingAppend (offset : Offset) (messageTags : Option (List String))
  | receive (i : Nat) (outcome : Option ReadAck)
  | advance (i : Nat) (ok : Bool)

/-- Insert a batch.  A message that is in flight is dropped; a message without a callback stops
the source. -/
def insertBatch : ServingTracker → List UdfMessage → ServingTracker × List UdfMessage × Bool
  | tracker, [] => (tracker, [], true)
  | tracker, msg :: msgs =>
    match tracker.insert msg with
    | .ok tracker =>
      let (tracker, inserted, ok) := insertBatch tracker msgs
      (tracker, msg :: inserted, ok)
    | .error (.duplicateInflight _) => insertBatch tracker msgs
    | .error (.source _) => (tracker, [], false)

/-- The call for one message; a lost handle counts as a nak. -/
def settleCall (offset : Offset) : Option ReadAck → SettleCall
  | some .ack => .ack [offset]
  | some (.nak options) => .nack [(offset, options)]
  | none => .nack [(offset, none)]

/-- The calls at the end of a batch.  After an ack that fails for good there is no nack. -/
def batchCalls (toAck : List Offset) (toNack : List (Offset × Option NackOptions)) (ok : Bool) :
    List SettleCall :=
  (if toAck = [] then [] else [.ack toAck]) ++
    (if toNack = [] ∨ (toAck ≠ [] ∧ ok = false) then [] else [.nack toNack])

namespace DeliveryState

variable (s : DeliveryState)

/-- The messages in flight. -/
def live : List UdfMessage :=
  s.tasks.flatMap AckTask.live

def start (tracker : ServingTracker) (task : AckTask) : DeliveryState :=
  { s with tracker := tracker, tasks := s.tasks ++ [task] }

/-- Delete a message from the tracker and go on. -/
def finish (i : Nat) (msg : UdfMessage) (outcome : Option ReadAck) (next : AckTask) :
    DeliveryState :=
  let (tracker, callback) := s.tracker.delete msg.offset
  { s with
    tracker := tracker
    tasks := s.tasks.set i next
    ended := s.ended ++ [⟨msg, outcome, callback⟩] }

def call (i : Nat) (calls : List SettleCall) (next : AckTask) : DeliveryState :=
  { s with tasks := s.tasks.set i next, calls := s.calls ++ calls }

/-- A task goes on; the argument says whether the ack of a batch succeeds. -/
def advance (i : Nat) (ok : Bool) : AckTask → DeliveryState
  | .wipCalling msg outcome =>
    s.call i [settleCall msg.offset outcome] (.wipDeleting msg outcome)
  | .wipDeleting msg outcome => s.finish i msg outcome .done
  | .singleDeleting msg outcome =>
    match outcome with
    | none => s.finish i msg outcome .done
    | some reply => s.finish i msg outcome (.singleCalling msg.offset reply)
  | .singleCalling offset reply => s.call i [settleCall offset (some reply)] .done
  | .batchDeleting msg outcome msgs toAck toNack =>
    s.finish i msg outcome (.batchWaiting msgs toAck toNack)
  | .batchWaiting [] toAck toNack => s.call i (batchCalls toAck toNack ok) .done
  | _ => s

def step : DeliveryAction → DeliveryState
  | .readBuffer msg =>
    match s.tracker.insert msg with
    | .ok tracker => s.start tracker (.wipWaiting msg)
    | .error _ => s
  | .readStreaming msg =>
    match s.tracker.insert msg with
    | .ok tracker => s.start tracker (.singleWaiting msg)
    | .error _ => s
  | .readBatch msgs =>
    match insertBatch s.tracker msgs with
    | (tracker, inserted, true) => s.start tracker (.batchWaiting inserted [] [])
    | (tracker, _, false) => { s with tracker := tracker }
  | .servingUpdate offset tags => { s with tracker := s.tracker.servingUpdate offset tags }
  | .servingRefresh offset => { s with tracker := s.tracker.servingRefresh offset }
  | .servingAppend offset tags => { s with tracker := s.tracker.servingAppend offset tags }
  | .receive i outcome =>
    match s.tasks[i]? with
    | some task => { s with tasks := s.tasks.set i (task.receive outcome) }
    | none => s
  | .advance i ok =>
    match s.tasks[i]? with
    | some task => s.advance i ok task
    | none => s

/-- The deletions that sent a callback for an offset. -/
def callbacks (offset : Offset) : List Ended :=
  s.ended.filter fun e => e.msg.offset = offset && e.callback.isSome

/-- The deletions after a delivery of the offset was acked. -/
def acked (offset : Offset) : List Ended :=
  s.ended.filter fun e => e.msg.offset = offset && e.outcome == some .ack

end DeliveryState

/-- A vertex with serving callbacks. -/
def serving : DeliveryState where
  tracker := { handler := true }

/-! ## Messages that are tracked -/

/-- The callback is the one of the message, with whatever responses. -/
def Describes (info : ServingCallbackInfo) (msg : UdfMessage) : Prop :=
  ∃ preset, servingCallbackInfo msg = .ok preset ∧
    info = { preset with responses := info.responses }

/-- Messages with different offsets are in the tracker with their callbacks. -/
structure Tracked (t : ServingTracker) (msgs : List UdfMessage) : Prop where
  handler : t.handler = true
  distinct : (msgs.map fun msg => msg.offset).Nodup
  found : ∀ msg ∈ msgs, ∃ info, t.entries.lookup msg.offset = some (some info) ∧
    Describes info msg

/-- Messages are inserted one after the other. -/
inductive Inserted : ServingTracker → List UdfMessage → ServingTracker → Prop where
  | nil (t : ServingTracker) : Inserted t [] t
  | cons {t t' t'' : ServingTracker} {msg : UdfMessage} {msgs : List UdfMessage}
      (hinsert : t.insert msg = .ok t') (hrest : Inserted t' msgs t'') :
      Inserted t (msg :: msgs) t''

theorem inserted_insertBatch (t : ServingTracker) (msgs : List UdfMessage) :
    Inserted t (insertBatch t msgs).2.1 (insertBatch t msgs).1 := by
  induction msgs generalizing t with
  | nil => exact .nil t
  | cons _ _ ih =>
    unfold insertBatch
    split
    · rename_i hinsert
      exact .cons hinsert (ih _)
    · exact ih t
    · exact .nil t

section

variable {t t' : ServingTracker} {msgs msgs' : List UdfMessage} {msg : UdfMessage}
  (h : Tracked t msgs)

include h

theorem Tracked.perm (hperm : msgs.Perm msgs') : Tracked t msgs' where
  handler := h.handler
  distinct := (hperm.map _).nodup_iff.mp h.distinct
  found msg hmsg := h.found msg (hperm.symm.subset hmsg)

omit h in
theorem Tracked.of_append (h : Tracked t (msgs ++ msgs')) : Tracked t msgs' where
  handler := h.handler
  distinct := h.distinct.sublist ((sublist_append_right msgs msgs').map _)
  found msg hmsg := h.found msg (mem_append_right msgs hmsg)

/-- A message is inserted when its offset is not in flight. -/
theorem Tracked.insert (hinsert : t.insert msg = .ok t') : Tracked t' (msg :: msgs) := by
  obtain ⟨info, hinfo, hnew, rfl⟩ := insert_spec hinsert h.handler
  have hne : ∀ m ∈ msgs, m.offset ≠ msg.offset := by
    intro m hm heq
    obtain ⟨found, hfound, -⟩ := h.found m hm
    rw [heq, hnew] at hfound
    cases hfound
  constructor
  · exact h.handler
  · refine nodup_cons.mpr ⟨fun hmem => ?_, h.distinct⟩
    obtain ⟨m, hm, heq⟩ := mem_map.mp hmem
    exact hne m hm heq
  · rintro m (_ | ⟨_, hm⟩)
    · exact ⟨info, AList.lookup_insert _, info, hinfo, rfl⟩
    · obtain ⟨found, hfound, hdescribes⟩ := h.found m hm
      exact ⟨found, (AList.lookup_insert_ne (hne m hm)).trans hfound, hdescribes⟩

theorem Tracked.inserted (hinserted : Inserted t msgs' t') : Tracked t' (msgs' ++ msgs) := by
  induction hinserted generalizing msgs with
  | nil => exact h
  | cons hinsert _ ih => exact (ih (h.insert hinsert)).perm perm_middle

/-- The mapper changes responses only. -/
theorem Tracked.modifyResponses (offset : Offset)
    (f : List (Option (List String)) → List (Option (List String))) :
    Tracked (t.modifyResponses offset f) msgs where
  handler := by rw [handler_modifyResponses, h.handler]
  distinct := h.distinct
  found msg hmsg := by
    obtain ⟨info, hfound, preset, hpreset, hinfo⟩ := h.found msg hmsg
    rw [lookup_modifyResponses f h.handler, hfound]
    split_ifs
    · refine ⟨{ info with responses := f info.responses }, rfl, preset, hpreset, ?_⟩
      rw [hinfo]
    · exact ⟨info, rfl, preset, hpreset, hinfo⟩

omit h in
/-- The deletion of a tracked message sends its callback and leaves the others. -/
theorem Tracked.delete (h : Tracked t (msg :: msgs)) : Tracked (t.delete msg.offset).1 msgs ∧
      ∃ info, (t.delete msg.offset).2 = some info ∧ Describes info msg := by
  have hdistinct := h.distinct
  rw [map_cons, nodup_cons] at hdistinct
  constructor
  · constructor
    · rw [handler_delete, h.handler]
    · exact hdistinct.2
    · intro m hm
      have hne : m.offset ≠ msg.offset := fun heq => hdistinct.1 (mem_map.mpr ⟨m, hm, heq⟩)
      rw [lookup_delete hne]
      exact h.found m (mem_cons_of_mem _ hm)
  · obtain ⟨info, hfound, hdescribes⟩ := h.found msg mem_cons_self
    exact ⟨info, callback_delete h.handler hfound, hdescribes⟩

end

/-! ## What a step can do -/

/-- A step starts a task with messages that it inserts, or only inserts them; changes responses;
or is a step of a task, which receives an outcome, calls the source or deletes a message. -/
inductive Step (s : DeliveryState) : DeliveryAction → DeliveryState → Prop where
  | idle (action : DeliveryAction) : Step s action s
  | start {tracker : ServingTracker} {action : DeliveryAction} {task : AckTask}
      (hinserted : Inserted s.tracker task.live tracker) (hreceived : task.received = none) :
      Step s action (s.start tracker task)
  | abort {msgs : List UdfMessage} {tracker : ServingTracker} {action : DeliveryAction}
      (hinserted : Inserted s.tracker msgs tracker) : Step s action { s with tracker := tracker }
  | respond {action : DeliveryAction}
      (offset : Offset) (f : List (Option (List String)) → List (Option (List String))) :
      Step s action { s with tracker := s.tracker.modifyResponses offset f }
  | receive {i : Nat} {task : AckTask} {msg : UdfMessage} {outcome : Option ReadAck}
      {task' : AckTask} (htask : s.tasks[i]? = some task) (hawaits : task.awaits = some msg)
      (hlive : task'.live = task.live) (hreceived : task'.received = some (msg, outcome)) :
      Step s (.receive i outcome) { s with tasks := s.tasks.set i task' }
  | call {i : Nat} {task : AckTask} {action : DeliveryAction} {task' : AckTask}
      (calls : List SettleCall) (htask : s.tasks[i]? = some task) (hlive : task'.live = task.live)
      (hreceived : task'.received = task.received) : Step s action (s.call i calls task')
  | finish {i : Nat} {task : AckTask} {msg : UdfMessage} {outcome : Option ReadAck}
      {action : DeliveryAction} {task' : AckTask} (htask : s.tasks[i]? = some task)
      (hreceived : task.received = some (msg, outcome)) (hlive : task.live = msg :: task'.live)
      (hnext : task'.received = none) : Step s action (s.finish i msg outcome task')

variable {s : DeliveryState} {i : Nat} {task : AckTask}

theorem step_receive (htask : s.tasks[i]? = some task) (outcome : Option ReadAck) :
    Step s (.receive i outcome) { s with tasks := s.tasks.set i (task.receive outcome) } := by
  -- a task that waits for nothing stays as it is
  have hsame : task.receive outcome = task → Step s (.receive i outcome)
      { s with tasks := s.tasks.set i (task.receive outcome) } := by
    intro heq
    obtain ⟨hi, hget⟩ := List.getElem?_eq_some_iff.mp htask
    rw [heq, ← hget, set_getElem_self]
    exact .idle _
  cases task with
  | wipWaiting | singleWaiting => exact .receive htask rfl rfl rfl
  | batchWaiting msgs =>
    cases msgs with
    | nil => exact hsame rfl
    | cons =>
      rcases outcome with _ | _ | options
      · exact .receive htask rfl rfl rfl
      · exact .receive htask rfl rfl rfl
      · exact .receive htask rfl rfl rfl
  | _ => exact hsame rfl

theorem step_advance (htask : s.tasks[i]? = some task) (ok : Bool) :
    Step s (.advance i ok) (s.advance i ok task) := by
  cases task with
  | wipCalling | singleCalling => exact .call _ htask rfl rfl
  | wipDeleting | batchDeleting =>
    exact .finish htask rfl rfl rfl
  | singleDeleting _ outcome =>
    cases outcome with
    | none | some => exact .finish htask rfl rfl rfl
  | batchWaiting msgs =>
    cases msgs with
    | nil => exact .call _ htask rfl rfl
    | cons => exact .idle _
  | _ => exact .idle _

open DeliveryState

theorem step_spec (s : DeliveryState) (action : DeliveryAction) :
    Step s action (s.step action) := by
  cases action with
  | readBuffer | readStreaming =>
    simp only [step]
    split
    · rename_i hinsert
      exact .start (.cons hinsert (.nil _)) rfl
    · exact .idle _
  | readBatch msgs =>
    have hinserted := inserted_insertBatch s.tracker msgs
    simp only [step]
    split
    · rename_i hbatch
      rw [hbatch] at hinserted
      exact .start hinserted rfl
    · rename_i hbatch
      rw [hbatch] at hinserted
      exact .abort hinserted
  | servingUpdate offset | servingRefresh offset | servingAppend offset =>
    exact .respond offset _
  | receive i outcome =>
    simp only [step]
    split
    · rename_i htask
      exact step_receive htask outcome
    · exact .idle _
  | advance i ok =>
    simp only [step]
    split
    · rename_i htask
      exact step_advance htask ok
    · exact .idle _

/-! ## Runs -/

/-- Every delivery in flight is tracked, and every delivery that ended sent its callback. -/
structure Accounted (s : DeliveryState) : Prop where
  tracked : Tracked s.tracker s.live
  ended : ∀ e ∈ s.ended, ∃ info, e.callback = some info ∧ Describes info e.msg

/-- Every delivery in flight has its entry in the tracker. -/
theorem Accounted.step (h : Accounted s) (action : DeliveryAction) : Accounted (s.step action) := by
  -- a task that keeps its messages does not change the messages in flight
  have hsame : ∀ {i task next}, s.tasks[i]? = some task → next.live = task.live →
      Tracked s.tracker ((s.tasks.set i next).flatMap AckTask.live) := by
    intro i task next htask hlive
    obtain ⟨rest, hold, hnew⟩ := exists_flatMap_set htask AckTask.live
    have hset := hnew next
    rw [hlive] at hset
    exact h.tracked.perm (hold.trans hset.symm)
  have hstep := step_spec s action
  generalize s.step action = s' at hstep
  cases hstep with
  | idle => exact h
  | start hinserted =>
    refine ⟨(h.tracked.inserted hinserted).perm ?_, h.ended⟩
    simp only [live, start, flatMap_append, flatMap_singleton]
    exact perm_append_comm
  | abort hinserted => exact ⟨(h.tracked.inserted hinserted).of_append, h.ended⟩
  | respond offset f => exact ⟨h.tracked.modifyResponses offset f, h.ended⟩
  | receive htask _ hlive | call _ htask hlive =>
    exact ⟨hsame htask hlive, h.ended⟩
  | finish htask _ hlive =>
    obtain ⟨rest, hold, hnew⟩ := exists_flatMap_set htask AckTask.live
    rw [hlive] at hold
    obtain ⟨htracked, hcallback⟩ := (h.tracked.perm hold).delete
    refine ⟨htracked.perm (hnew _).symm, ?_⟩
    refine forall_mem_append.mpr ⟨h.ended, ?_⟩
    exact forall_mem_singleton.mpr hcallback

theorem Accounted.serving : Accounted serving where
  tracked := ⟨rfl, nodup_nil, forall_mem_nil _⟩
  ended := forall_mem_nil _

/-- No delivery of the offset fails: its outcome is an ack whenever it is received. -/
def Succeeds (offset : Offset) (s : DeliveryState) : DeliveryAction → Prop
  | .receive i outcome => ∀ task msg, s.tasks[i]? = some task → task.awaits = some msg →
      msg.offset = offset → outcome = some .ack
  | _ => True

/-- All outcomes that were received for an offset are acks. -/
structure AllAcked (offset : Offset) (s : DeliveryState) : Prop where
  received : ∀ task ∈ s.tasks, ∀ msg outcome, task.received = some (msg, outcome) →
    msg.offset = offset → outcome = some .ack
  ended : ∀ e ∈ s.ended, e.msg.offset = offset → e.outcome = some .ack

variable {offset : Offset} {action : DeliveryAction}

/-- A step that succeeds acks the message. -/
theorem AllAcked.step (h : AllAcked offset s) (hok : Succeeds offset s action) :
    AllAcked offset (s.step action) := by
  -- the tasks other than the one that made the step are as before
  have hset : ∀ {i next}, (∀ msg outcome, next.received = some (msg, outcome) →
      msg.offset = offset → outcome = some .ack) → ∀ task ∈ s.tasks.set i next,
      ∀ msg outcome, task.received = some (msg, outcome) → msg.offset = offset →
        outcome = some .ack := by
    intro i next hnext task htask
    rcases mem_set_cases htask with rfl | ⟨j, -, hj⟩
    · exact hnext
    · exact h.received task (mem_of_getElem? hj)
  have hstep := step_spec s action
  generalize s.step action = s' at hstep
  cases hstep with
  | idle => exact h
  | start _ hreceived =>
    refine ⟨forall_mem_concat.mpr ⟨h.received, ?_⟩, h.ended⟩
    simp [hreceived]
  | abort | respond => exact ⟨h.received, h.ended⟩
  | receive htask hawaits _ hreceived =>
    refine ⟨hset ?_, h.ended⟩
    rw [hreceived]
    rintro msg outcome ⟨⟩
    exact hok _ _ htask hawaits
  | call _ htask _ hreceived =>
    refine ⟨hset ?_, h.ended⟩
    rw [hreceived]
    exact h.received _ (mem_of_getElem? htask)
  | finish htask hreceived _ hnext =>
    refine ⟨hset ?_, forall_mem_concat.mpr ⟨h.ended, ?_⟩⟩
    · simp [hnext]
    · exact h.received _ (mem_of_getElem? htask) _ _ hreceived

/-- When no delivery of an offset fails, the callbacks for the offset are those of its acked
deliveries, one for each. -/
theorem callbacks_eq_acked (offset : Offset) (actions : List DeliveryAction)
    (hrun : Along (Succeeds offset) DeliveryState.step serving actions) :
    let s := exec DeliveryState.step serving actions
    s.callbacks offset = s.acked offset ∧
      ∀ e ∈ s.callbacks offset, ∃ info, e.callback = some info ∧ Describes info e.msg := by
  intro s
  have haccounted : Accounted s :=
    exec_invariant_all (I := Accounted) (fun _ action hs => hs.step action) Accounted.serving
  have hacked : AllAcked offset s :=
    exec_invariant (I := AllAcked offset) (fun _ _ hs hok => hs.step hok)
      ⟨List.forall_mem_nil _, List.forall_mem_nil _⟩ hrun
  constructor
  · refine List.filter_congr fun e he => ?_
    obtain ⟨info, hinfo, -⟩ := haccounted.ended e he
    by_cases hoffset : e.msg.offset = offset
    · simp [hoffset, hinfo, hacked.ended e he hoffset]
    · simp [hoffset]
  · intro e he
    exact haccounted.ended e (List.mem_of_mem_filter he)

/-- A message of a request. -/
def requestMessage (id : String) (offset : Nat) : UdfMessage where
  id := { vertexName := "in", offset := id }
  eventTime := 0
  offset := .int offset 0
  headers := (∅ : HashMap String String).insert Sink.defaultIdHeader id
    |>.insert Sink.defaultPodHashKey "0"
  metadata := some { previousVertex := "in" }

/-- Two messages of a batch are acked. -/
theorem callbacks_eq_acked_batch : let actions : List DeliveryAction :=
      [.readBatch [requestMessage "a" 0, requestMessage "b" 1], .receive 0 (some .ack),
        .advance 0 true, .receive 0 (some .ack), .advance 0 true, .advance 0 true]
    let s := exec DeliveryState.step serving actions
    (s.callbacks (.int 0 0)).map (fun e => e.callback) = [some ⟨"a", "0", "in", [none]⟩] ∧
      s.callbacks (.int 0 0) = s.acked (.int 0 0) := by
  refine ⟨by decide, (callbacks_eq_acked (.int 0 0) _ ?_).1⟩
  refine ⟨trivial, ?_, trivial, ?_, trivial, trivial, trivial⟩
  · exact fun _ _ _ _ _ => rfl
  · exact fun _ _ _ _ _ => rfl

/-- The delivery of a message is nacked and the next one is acked, by each of the three tasks. -/
def nakThenAck (read : UdfMessage → DeliveryAction) (advances : Nat) : List DeliveryAction :=
  let first (i : Nat) (outcome : ReadAck) :=
    [read (requestMessage "a" 0), .receive i (some outcome)] ++
      List.replicate advances (.advance i true)
  first 0 (.nak none) ++ first 1 .ack

/-- A delivery that is nacked sends a callback, and the one that is acked sends another. -/
theorem nak_sends_callback : [nakThenAck .readBuffer 2, nakThenAck .readStreaming 2,
        nakThenAck (fun msg => .readBatch [msg]) 2].map (fun actions =>
      ((exec DeliveryState.step serving actions).callbacks (.int 0 0)).map fun e => e.outcome) =
      List.replicate 3 [some (.nak none), some .ack] := by
  decide

end Numaflow.Serving
