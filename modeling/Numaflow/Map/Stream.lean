import Numaflow.Map.Flow

/-!
# Stream-map tasks

A task calls the user-defined function for one message and hands every result downstream as it
arrives.  A result with the fail tag ends the attempt, and the task calls the function again
under the same identity, as the retry strategy says.

Main results: `outputs_of_careful`, `retry_completes_early`.
-/

namespace Numaflow.Map

open Lib Connection List

/-! ## The messages for the results -/

/-- What the results take over from the message. -/
structure ParentMessageInfo where
  offset : Offset
  eventTime : Int
  isLate : Bool
  headers : HashMap String String
  currentIndex : Int32
  metadata : Option Metadata

def parentInfo (msg : UdfMessage) : ParentMessageInfo where
  offset := msg.offset
  eventTime := msg.eventTime
  isLate := msg.isLate
  headers := msg.headers
  currentIndex := msg.id.index
  metadata := msg.metadata

/-- The message for a result. -/
def userDefinedMessage (vertexName : String) (result : MapResult) (parent : ParentMessageInfo)
    (index : Int32) : UdfMessage where
  keys := result.keys
  value := result.value
  offset := parent.offset
  eventTime := parent.eventTime
  isLate := parent.isLate
  tags := some result.tags
  id := ⟨vertexName, parent.offset.text ++ "-" ++ toString parent.currentIndex, index⟩
  nackOptions := result.nackOptions
  headers := parent.headers
  metadata := some
    { sysMetadata := (parent.metadata.map fun m => m.sysMetadata).getD ∅
      userMetadata := result.userMetadata.getD ∅ }

/-- The messages for the results of an attempt, which are counted on from the message. -/
def mapped (vertexName : String) : ParentMessageInfo → List MapResult → List UdfMessage
  | _, [] => []
  | parent, result :: results =>
    userDefinedMessage vertexName result parent parent.currentIndex ::
      mapped vertexName { parent with currentIndex := parent.currentIndex + 1 } results

/-- The parent after some results. -/
def ParentMessageInfo.skip (parent : ParentMessageInfo) (n : Nat) : ParentMessageInfo :=
  { parent with currentIndex := parent.currentIndex + .ofNat n }

open ParentMessageInfo

theorem mapped_append (vertexName : String) (parent : ParentMessageInfo) (results : List MapResult)
    (result : MapResult) :
    mapped vertexName parent (results ++ [result]) = mapped vertexName parent results ++
        [userDefinedMessage vertexName result (parent.skip results.length)
          (parent.skip results.length).currentIndex] := by
  induction results generalizing parent with
  | nil => simp [mapped, skip]
  | cons r results ih =>
    have hskip : skip
        { parent with currentIndex := parent.currentIndex + 1 } results.length =
          parent.skip (r :: results).length := by
      simp only [skip, length_cons, Int32.ofNat_add]
      rw [Int32.add_assoc, Int32.add_comm 1]
      rfl
    rw [cons_append, mapped, mapped, ih, hskip, cons_append]

theorem failed_userDefinedMessage (vertexName : String) (result : MapResult)
    (parent : ParentMessageInfo) (index : Int32) :
    (userDefinedMessage vertexName result parent index).failed = result.tags.contains failTag :=
  rfl

/-! ## The task -/

/-- Where a task is: it is about to call the function, it has put its sender into the map, it
waits for results, it hands results on, it waits before the next attempt; or it has ended. -/
inductive TaskPhase where
  | calling
  | requesting (a : Nat)
  | receiving (a : Nat)
  | emitting (a : Nat) (rest : List MapResult)
  | backoff (a : Nat)
  | completed
  | dropped
  | failed (reason : String)
  | panicked
deriving DecidableEq

/-- What became of the handle of the message. -/
def TaskPhase.mark : TaskPhase → Option Mark
  | .completed | .dropped => some .success
  | .failed reason => some (.failed reason none)
  | .panicked => some .dropped
  | _ => none

structure MapStreamTask where
  message : UdfMessage
  retry : RetryController
  phase : TaskPhase := .calling
  parent : ParentMessageInfo
  outputs : List UdfMessage := []

inductive TaskAction where
  | call
  | request (sent : Bool)
  | recv
  | emit
  | retry (cancelled : Bool)

namespace MapStreamTask

def fail (task : MapStreamTask) (e : MapError) : MapStreamTask :=
  { task with phase := .failed e.display }

def call (c : Connection) (cancelled : Bool) (i : Nat) (task : MapStreamTask) :
    Connection × MapStreamTask :=
  if cancelled = true then (c, task.fail (.mapper "stream map operation cancelled"))
  else
    match c.stream i task.message.id.text with
    | .error e => (c, task.fail e)
    | .ok (c, a) =>
      (c, { task with phase := .requesting a, parent := parentInfo task.message })

section

variable (c : Connection) (task : MapStreamTask) (a : Nat)

def request (sent : Bool) :
    Connection × MapStreamTask :=
  (c.request a sent,
    if sent = true then { task with phase := .receiving a }
    else task.fail (.grpc "failed to send message to map stream server: channel closed"))

def recv : Connection × MapStreamTask :=
  match c.recv a with
  | none => (c, task)
  | some (.results results, c) => (c, { task with phase := .emitting a results })
  | some (.error e, c) => (c, task.fail e)
  | some (.closed, c) => (c, { task with phase := .completed })

/-- Hand one result on; a failed one ends the attempt. -/
def emit (vertexName : String) (task : MapStreamTask) (a : Nat) :
    List MapResult → MapStreamTask
  | [] => { task with phase := .receiving a }
  | result :: rest =>
    let mapped := userDefinedMessage vertexName result task.parent task.parent.currentIndex
    if mapped.failed = true then { task with phase := .backoff a }
    else
      { task with
        phase := .emitting a rest
        parent := { task.parent with currentIndex := task.parent.currentIndex + 1 }
        outputs := task.outputs ++ [mapped] }

/-- The wait after a failed attempt is over; the receiving end of its channel is dropped. -/
def retryStep (cancelled : Bool) :
    Connection × MapStreamTask :=
  let (retry, next) := task.retry.nextStep cancelled
  let task := { task with retry := retry }
  (c.dropReceiver a,
    match next with
    | .again => { task with phase := .calling }
    | .cancelled => { task with phase := .failed "map UDF retry wait cancelled" }
    | .drop => { task with phase := .dropped }
    | .nack => task.fail (.mapper "Retries exhausted")
    | .panic => { task with phase := .panicked })

end

/-- One step of a task. -/
def step (vertexName : String) (cancelled : Bool) (c : Connection) (i : Nat)
    (task : MapStreamTask) (action : TaskAction) : Connection × MapStreamTask :=
  match action, task.phase with
  | .call, .calling => task.call c cancelled i
  | .request sent, .requesting a => task.request c a sent
  | .recv, .receiving a => task.recv c a
  | .emit, .emitting a results => (c, task.emit vertexName a results)
  | .retry gaveUp, .backoff a =>
    if gaveUp = true ∧ cancelled = false then (c, task) else task.retryStep c a gaveUp
  | _, _ => (c, task)

end MapStreamTask

/-! ## The tasks of a vertex -/

structure StreamMap where
  vertexName : String
  retryConfig : Option RetryConfig := none
  connection : Connection := {}
  tasks : List MapStreamTask := []
  cancelled : Bool := false

/-- A message comes in; the vertex is shut down; a task, the function or the receiving task
makes a step; the stream of the responses fails or ends. -/
inductive MapAction where
  | spawn (msg : UdfMessage)
  | cancel
  | task (i : Nat) (action : TaskAction)
  | respond (a : Nat) (results : List MapResult)
  | eot (a : Nat)
  | advance
  | streamError (status : String) (order : List String)
  | streamEnd (order : List String)

namespace StreamMap

def step (s : StreamMap) : MapAction → StreamMap
  | .spawn msg =>
    { s with
      tasks := s.tasks ++
        [{ message := msg, retry := .new s.retryConfig, parent := parentInfo msg }] }
  | .cancel => { s with cancelled := true }
  | .task i action =>
    match s.tasks[i]? with
    | none => s
    | some task =>
      let (connection, task) := task.step s.vertexName s.cancelled s.connection i action
      { s with connection := connection, tasks := s.tasks.set i task }
  | .respond a results => { s with connection := s.connection.respond a results }
  | .eot a => { s with connection := s.connection.eot a }
  | .advance => { s with connection := s.connection.advance }
  | .streamError status order =>
    { s with connection := s.connection.broadcastError (.grpc status) order false }
  | .streamEnd order =>
    { s with
      connection := s.connection.broadcastError (.grpc "receiver stream dropped") order true }

end StreamMap

/-! ## The attempts of a task without its doing -/

/-- What the function and the receiving task leave of an attempt. -/
structure Later (old new : Attempt) : Prop where
  task : new.task = old.task
  alive : new.alive = old.alive
  consumed : new.consumed = old.consumed
  ended : old.stage = .ended → new.stage = .ended ∧ new.answers = old.answers

/-- The attempts of a task go on without its doing. -/
def Continues (i : Nat) (c c' : Connection) : Prop :=
  ∀ (a : Nat) (old : Attempt), c.attempts[a]? = some old → old.task = i →
    ∃ new, c'.attempts[a]? = some new ∧ Later old new

theorem Later.refl (old : Attempt) : Later old old :=
  ⟨rfl, rfl, rfl, fun h => ⟨h, rfl⟩⟩

variable {i a : Nat} {c c' c'' : Connection}

theorem continues_of_eq (h : c'.attempts = c.attempts) : Continues i c c' :=
  fun _ old hold _ => ⟨old, by rw [h, hold], Later.refl old⟩

theorem Continues.of_eq (h : Continues i c c') (heq : c''.attempts = c'.attempts) :
    Continues i c c'' := by
  unfold Continues
  rw [heq]
  exact h

section

variable {f : Attempt → Attempt} {item : Except MapError (List MapResult)} {sent : Bool}

/-- Another task changes an attempt of its own. -/
theorem continues_update
    (hf : ∀ old, c.attempts[a]? = some old → old.task = i → Later old (f old)) :
    Continues i c (c.update a f) := by
  intro b old hold htask
  refine ⟨_, getElem?_update.mpr ⟨old, hold, rfl⟩, ?_⟩
  split_ifs with hab
  · subst hab
    exact hf old hold htask
  · exact Later.refl old

theorem continues_opened (j : Nat) (id : String) : Continues i c (c.opened j id) := by
  intro a old hold _
  refine ⟨old, ?_, Later.refl old⟩
  change (c.attempts ++ [_])[a]? = some old
  rw [List.getElem?_append_left (List.getElem?_eq_some_iff.mp hold).1, hold]

theorem continues_respond (a : Nat) (results : List MapResult) :
    Continues i c (c.respond a results) := by
  unfold respond
  split
  · exact continues_of_eq rfl
  · rename_i attempt ha
    split_ifs with hasked
    · exact continues_of_eq rfl
    · refine Continues.of_eq (continues_update (a := a) ?_) rfl
      refine fun old hold _ => ⟨rfl, rfl, rfl, fun hended => ?_⟩
      cases ha.symm.trans hold
      rw [not_not.mp hasked] at hended
      cases hended

theorem continues_eot (a : Nat) : Continues i c (c.eot a) := by
  unfold eot
  split
  · exact continues_of_eq rfl
  · split_ifs
    · exact continues_of_eq rfl
    · refine Continues.of_eq (continues_update (a := a) ?_) rfl
      exact fun old _ _ => ⟨rfl, rfl, rfl, fun _ => ⟨rfl, rfl⟩⟩

theorem continues_send (h : c.send a item = some (c', sent)) : Continues i c c' := by
  rcases send_cases h with ⟨-, rfl⟩ | ⟨-, rfl, -⟩
  · exact continues_update fun old _ _ => ⟨rfl, rfl, rfl, fun h => ⟨h, rfl⟩⟩
  · exact continues_of_eq rfl

/-- The receiving task takes nothing away from an attempt. -/
theorem continues_advance : Continues i c c.advance := by
  unfold advance
  split
  · split
    · exact continues_of_eq rfl
    · split_ifs
      · exact continues_of_eq rfl
      · split <;> exact continues_of_eq rfl
  · split_ifs <;> exact continues_of_eq rfl
  · split
    · exact continues_of_eq rfl
    · rename_i hsend
      exact (continues_send hsend).of_eq rfl
    · rename_i hsend
      exact (continues_send hsend).of_eq rfl
  · split
    · exact continues_of_eq rfl
    · rename_i hsend
      exact (continues_send hsend).of_eq rfl
  · exact continues_of_eq rfl
  · exact continues_of_eq rfl
  · split
    · exact continues_of_eq rfl
    · rename_i hsend
      exact (continues_send hsend).of_eq rfl
  · exact continues_of_eq rfl

theorem continues_broadcastError (e : MapError) (order : List String) (last : Bool) :
    Continues i c (c.broadcastError e order last) := by
  unfold broadcastError
  split <;> exact continues_of_eq rfl

end

/-! ## What a task does -/

/-- What a task does to the connection with the attempt it makes. -/
inductive Uses (a : Nat) (c : Connection) : Connection → Prop where
  | request (sent : Bool) : Uses a c (c.request a sent)
  | recv {received : Received} {c' : Connection} (h : c.recv a = some (received, c')) : Uses a c c'
  | drop : Uses a c (c.dropReceiver a)

theorem Uses.sound (h : Uses a c c') (hc : c.Sound) : c'.Sound := by
  cases h with
  | request sent => exact hc.request a sent
  | recv h => exact hc.recv h
  | drop => exact hc.dropReceiver a

variable {j : Nat}

/-- The attempts of the other tasks are left alone. -/
theorem Uses.continues {attempt : Attempt} (h : Uses a c c')
    (ha : c.attempts[a]? = some attempt) (htask : attempt.task = j) (hij : i ≠ j) : Continues i c c' := by
  have hother : ∀ {f : Attempt → Attempt} old, c.attempts[a]? = some old → old.task = i →
      Later old (f old) := by
    intro f old hold hi
    cases ha.symm.trans hold
    exact absurd (hi.symm.trans htask) hij
  cases h with
  | request =>
    unfold Connection.request
    rw [ha]
    dsimp only
    split_ifs
    · exact continues_of_eq rfl
    · exact continues_update hother
    · exact Continues.of_eq (continues_update (a := a) hother) rfl
  | drop => exact continues_update hother
  | recv h =>
    simp only [Connection.recv, ha] at h
    split at h
    · cases h
      exact continues_update hother
    · cases h
      exact continues_update hother
    · split_ifs at h
      cases h
      exact continues_update hother

/-- The attempt that a task is making. -/
def TaskPhase.attempt : TaskPhase → Option Nat
  | .requesting a | .receiving a | .emitting a _ | .backoff a => some a
  | _ => none

/-- The task has ended without completing an attempt. -/
def TaskPhase.gaveUp : TaskPhase → Bool
  | .dropped | .failed _ | .panicked => true
  | _ => false

/-- What a step of a task can be. -/
inductive TaskStep (vertexName : String) (i : Nat) (c : Connection) (task : MapStreamTask)
    (action : TaskAction) : Connection → MapStreamTask → Prop where
  | stay : TaskStep vertexName i c task action c task
  | refused {e : MapError}
      (h : task.phase = .calling) : TaskStep vertexName i c task action c (task.fail e)
  | called (haction : action = .call) (h : task.phase = .calling) :
      TaskStep vertexName i c task action (c.opened i task.message.id.text)
        { task with phase := .requesting c.attempts.length, parent := parentInfo task.message }
  | asked {a : Nat} (h : task.phase = .requesting a) :
      TaskStep vertexName i c task action (c.request a true) { task with phase := .receiving a }
  | quit {a : Nat} {c' : Connection} {task' : MapStreamTask} (h : task.phase.attempt = some a)
      (huse : Uses a c c') (hphase : task'.phase.gaveUp = true) :
      TaskStep vertexName i c task action c' task'
  | results {a : Nat} {c' : Connection} {results : List MapResult}
      (h : task.phase = .receiving a) (hrecv : c.recv a = some (.results results, c')) :
      TaskStep vertexName i c task action c' { task with phase := .emitting a results }
  | completed {a : Nat} {c' : Connection}
      (h : task.phase = .receiving a) (hrecv : c.recv a = some (.closed, c')) :
      TaskStep vertexName i c task action c' { task with phase := .completed }
  | emitted {a : Nat} {results : List MapResult} (h : task.phase = .emitting a results) :
      TaskStep vertexName i c task action c (task.emit vertexName a results)
  | again {a : Nat} {retry : RetryController}
      (h : task.phase = .backoff a) : TaskStep vertexName i c task action (c.dropReceiver a)
        { task with retry := retry, phase := .calling }

/-- What a task does to itself and to the connection. -/
theorem taskStep_spec (vertexName : String) (cancelled : Bool) (c : Connection) (i : Nat)
    (task : MapStreamTask) (action : TaskAction) :
    TaskStep vertexName i c task action (task.step vertexName cancelled c i action).1
      (task.step vertexName cancelled c i action).2 := by
  unfold MapStreamTask.step
  split
  · rename_i hphase
    unfold MapStreamTask.call
    split_ifs
    · exact .refused hphase
    · split
      · exact .refused hphase
      · rename_i c' a hstream
        obtain ⟨rfl, rfl⟩ := stream_eq_ok hstream
        exact .called rfl hphase
  · rename_i sent a hphase
    cases sent with
    | true => exact .asked hphase
    | false => exact .quit (by rw [hphase]; rfl) (.request false) rfl
  · rename_i a hphase
    unfold MapStreamTask.recv
    split
    · exact .stay
    · rename_i hrecv
      exact .results hphase hrecv
    · rename_i hrecv
      exact .quit (by rw [hphase]; rfl) (.recv hrecv) rfl
    · rename_i hrecv
      exact .completed hphase hrecv
  · rename_i a results hphase
    exact .emitted hphase
  · rename_i gaveUp a hphase
    have hattempt : task.phase.attempt = some a := by rw [hphase]; rfl
    split_ifs
    · exact .stay
    · unfold MapStreamTask.retryStep
      dsimp only
      split
      · exact .again hphase
      · exact .quit hattempt .drop rfl
      · exact .quit hattempt .drop rfl
      · exact .quit hattempt .drop rfl
      · exact .quit hattempt .drop rfl
  · exact .stay

/-! ## What a task has handed on -/

/-- The outputs of a task are the messages for these results, none of which failed. -/
structure Emitted (vertexName : String) (task : MapStreamTask) (results : List MapResult) :
    Prop where
  outputs : task.outputs = mapped vertexName (parentInfo task.message) results
  parent : task.parent = (parentInfo task.message).skip results.length
  unfailed : ∀ result ∈ results, result.tags.contains failTag = false

/-- The attempt that a task makes, and what it has received in it. -/
def Making (c : Connection) (i a : Nat) (consumed : List MapResult) : Prop :=
  ∃ attempt, c.attempts[a]? = some attempt ∧ attempt.task = i ∧ attempt.alive = true ∧
    attempt.consumed = consumed

/-- The outputs are those of one attempt that has come to its end. -/
def Exact (vertexName : String) (c : Connection) (i : Nat) (task : MapStreamTask) : Prop :=
  ∃ attempt ∈ c.attempts, attempt.task = i ∧ attempt.stage = .ended ∧
    task.outputs = mapped vertexName (parentInfo task.message) attempt.answers.flatten ∧
    ∀ result ∈ attempt.answers.flatten, result.tags.contains failTag = false

/-- What holds of a task in each of its phases. -/
def Holds (vertexName : String) (c : Connection) (i : Nat) (task : MapStreamTask) : Prop :=
  match task.phase with
  | .calling => task.outputs = []
  | .requesting a => Making c i a [] ∧ Emitted vertexName task []
  | .receiving a => ∃ results, Making c i a results ∧ Emitted vertexName task results
  | .emitting a rest =>
    ∃ results, Making c i a (results ++ rest) ∧ Emitted vertexName task results
  | .backoff a => ∃ results, Making c i a results
  | .completed => Exact vertexName c i task
  | _ => True

section

variable {vertexName : String} {task task' : MapStreamTask} {consumed results : List MapResult}
  {action : TaskAction}

theorem Making.continues (h : Making c i a consumed) (hc : Continues i c c') :
    Making c' i a consumed := by
  obtain ⟨old, hold, htask, halive, hconsumed⟩ := h
  obtain ⟨new, hnew, hlater⟩ := hc a old hold htask
  exact ⟨new, hnew, hlater.task.trans htask, hlater.alive.trans halive,
    hlater.consumed.trans hconsumed⟩

theorem Exact.continues (h : Exact vertexName c i task) (hc : Continues i c c') :
    Exact vertexName c' i task := by
  obtain ⟨old, hmem, htask, hended, houtputs, hunfailed⟩ := h
  obtain ⟨a, hold⟩ := getElem?_of_mem hmem
  obtain ⟨new, hnew, hlater⟩ := hc a old hold htask
  obtain ⟨hended', hanswers⟩ := hlater.ended hended
  exact ⟨new, mem_of_getElem? hnew, hlater.task.trans htask, hended',
    by rw [hanswers]; exact houtputs, by rw [hanswers]; exact hunfailed⟩

variable (h : Holds vertexName c i task)

include h

/-- A task that makes no step keeps what holds of it. -/
theorem Holds.continues (hc : Continues i c c') : Holds vertexName c' i task := by
  unfold Holds at h ⊢
  split at h
  · exact h
  · exact ⟨h.1.continues hc, h.2⟩
  · obtain ⟨results, hmaking, hemitted⟩ := h
    exact ⟨results, hmaking.continues hc, hemitted⟩
  · obtain ⟨results, hmaking, hemitted⟩ := h
    exact ⟨results, hmaking.continues hc, hemitted⟩
  · obtain ⟨results, hmaking⟩ := h
    exact ⟨results, hmaking.continues hc⟩
  · exact h.continues hc
  · trivial

/-- The attempt that a task makes is its own. -/
theorem Holds.making (ha : task.phase.attempt = some a) : ∃ results, Making c i a results := by
  cases hphase : task.phase <;> rw [hphase] at ha <;> cases ha <;> simp only [Holds, hphase] at h
  · exact ⟨[], h.1⟩
  · obtain ⟨results, hmaking, -⟩ := h
    exact ⟨results, hmaking⟩
  · obtain ⟨results, hmaking, -⟩ := h
    exact ⟨_, hmaking⟩
  · exact h

omit h in
theorem holds_of_gaveUp (h : task.phase.gaveUp = true) : Holds vertexName c i task := by
  cases hphase : task.phase <;> simp_all [Holds, TaskPhase.gaveUp]

omit h in
/-- The request is sent, and nothing has been received yet. -/
theorem Making.request (h : Making c i a consumed) : Making (c.request a true) i a consumed := by
  obtain ⟨attempt, ha, hown⟩ := h
  simp only [Connection.request, ha, if_true]
  split_ifs
  · exact ⟨attempt, ha, hown⟩
  · exact ⟨_, getElem?_update.mpr ⟨attempt, ha, (if_pos rfl).symm⟩, hown⟩

omit h in
theorem Making.recv (h : Making c i a consumed) (hrecv : c.recv a = some (.results results, c')) :
    Making c' i a (consumed ++ results) := by
  obtain ⟨attempt, ha, htask, halive, rfl⟩ := h
  simp only [recv, ha] at hrecv
  split at hrecv
  · cases hrecv
    exact ⟨_, getElem?_update.mpr ⟨attempt, ha, (if_pos rfl).symm⟩, htask, halive, rfl⟩
  · cases hrecv
  · split_ifs at hrecv
    cases hrecv

omit h in
/-- The channel is at its end: everything that the function answered has been handed on. -/
theorem exact_of_closed (hc : c.Sound) (hmaking : Making c i a results)
    (hemitted : Emitted vertexName task results) (hrecv : c.recv a = some (.closed, c')) :
    Exact vertexName c' i { task with phase := .completed } := by
  obtain ⟨attempt, ha, htask, halive, rfl⟩ := hmaking
  obtain ⟨hended, hconsumed⟩ := hc.recv_closed ha halive hrecv
  rw [hconsumed] at hemitted
  have hc' : c' = c.dropReceiver a := by
    simp only [recv, ha] at hrecv
    split at hrecv
    · cases hrecv
    · cases hrecv
    · split_ifs at hrecv
      cases hrecv
      rfl
  have hnew : c'.attempts[a]? = some { attempt with alive := false } := by
    rw [hc']
    exact getElem?_update.mpr ⟨attempt, ha, (if_pos rfl).symm⟩
  exact ⟨_, mem_of_getElem? hnew, htask, hended, hemitted.outputs, hemitted.unfailed⟩

variable {rest : List MapResult} {result : MapResult}

omit h in
/-- A result is handed on under the next index. -/
theorem Emitted.push (h : Emitted vertexName task results)
    (hresult : result.tags.contains failTag = false) : Emitted vertexName
      { task with
        phase := .emitting a rest
        parent := { task.parent with currentIndex := task.parent.currentIndex + 1 }
        outputs := task.outputs ++
          [userDefinedMessage vertexName result task.parent task.parent.currentIndex] }
      (results ++ [result]) where
  outputs := by
    rw [mapped_append, ← h.parent, ← h.outputs]
  parent := by
    simp only [h.parent, skip, length_append, length_singleton, Int32.ofNat_add, Int32.add_assoc]
    rfl
  unfailed := forall_mem_concat.mpr ⟨h.unfailed, hresult⟩

theorem Holds.emit (hphase : task.phase = .emitting a rest) :
    Holds vertexName c i (task.emit vertexName a rest) := by
  simp only [Holds, hphase] at h
  obtain ⟨results, hmaking, hemitted⟩ := h
  cases rest with
  | nil =>
    rw [append_nil] at hmaking
    exact ⟨results, hmaking, hemitted.outputs, hemitted.parent, hemitted.unfailed⟩
  | cons result =>
    unfold MapStreamTask.emit
    dsimp only
    rw [failed_userDefinedMessage]
    by_cases hfailed : result.tags.contains failTag = true
    · rw [if_pos hfailed]
      exact ⟨_, hmaking⟩
    · rw [if_neg hfailed]
      refine ⟨results ++ [result], ?_, hemitted.push (Bool.eq_false_iff.mpr hfailed)⟩
      rw [append_assoc]
      exact hmaking

/-- A step of a task keeps what holds of it, when nothing has been handed on before a retry. -/
theorem Holds.step (hc : c.Sound) (hstep : TaskStep vertexName i c task action c' task')
    (hagain : ∀ a, task.phase = .backoff a → task'.phase = .calling → task.outputs = []) :
    Holds vertexName c' i task' := by
  cases hstep with
  | stay => exact h
  | refused => exact holds_of_gaveUp rfl
  | called _ hphase =>
    simp only [Holds, hphase] at h
    refine ⟨⟨_, getElem?_concat_length, rfl, rfl, rfl⟩, h, ?_, by simp⟩
    simp [skip]
  | asked hphase =>
    simp only [Holds, hphase] at h
    exact ⟨[], h.1.request, h.2.outputs, h.2.parent, h.2.unfailed⟩
  | quit _ _ hphase => exact holds_of_gaveUp hphase
  | results hphase hrecv =>
    simp only [Holds, hphase] at h
    obtain ⟨results, hmaking, hemitted⟩ := h
    exact ⟨results, hmaking.recv hrecv, hemitted.outputs, hemitted.parent, hemitted.unfailed⟩
  | completed hphase hrecv =>
    simp only [Holds, hphase] at h
    obtain ⟨results, hmaking, hemitted⟩ := h
    exact exact_of_closed hc hmaking hemitted hrecv
  | emitted hphase => exact h.emit hphase
  | again hphase => exact hagain _ hphase rfl

variable (hstep : TaskStep vertexName i c task action c' task')

include hstep

omit h in
theorem TaskStep.sound (hc : c.Sound)
    (hclear : action = .call → task.phase = .calling → c.Clear task.message.id.text) :
    c'.Sound := by
  cases hstep with
  | stay | refused | emitted => exact hc
  | called haction hphase => exact hc.opened (hclear haction hphase) i
  | asked => exact hc.request _ true
  | quit _ huse => exact huse.sound hc
  | results _ hrecv | completed _ hrecv => exact hc.recv hrecv
  | again => exact hc.dropReceiver _

/-- The attempts of the other tasks are left alone. -/
theorem TaskStep.continues (hji : j ≠ i) : Continues j c c' := by
  have huses : ∀ {a}, task.phase.attempt = some a → Uses a c c' → Continues j c c' := by
    intro a ha huse
    obtain ⟨results, attempt, hattempt, htask, -⟩ := h.making ha
    exact huse.continues hattempt htask hji
  cases hstep with
  | stay | refused | emitted => exact continues_of_eq rfl
  | called => exact continues_opened i _
  | asked hphase => exact huses (by rw [hphase]; rfl) (.request true)
  | quit hattempt huse => exact huses hattempt huse
  | results hphase hrecv | completed hphase hrecv => exact huses (by rw [hphase]; rfl) (.recv hrecv)
  | again hphase => exact huses (by rw [hphase]; rfl) .drop

end

/-! ## Whole runs -/

/-- A call is made only when nothing is under way with its identity, and a failed attempt is
repeated only when nothing has been handed on. -/
def Careful (s : StreamMap) : MapAction → Prop
  | .task i .call => ∀ task ∈ s.tasks[i]?, task.phase = .calling →
      s.connection.Clear task.message.id.text
  | .task i (.retry gaveUp) => ∀ task ∈ s.tasks[i]?, task.phase.attempt.isSome = true →
      (task.retry.nextStep gaveUp).2 = .again → task.outputs = []
  | _ => True

instance (s : StreamMap) (action : MapAction) : Decidable (Careful s action) := by
  unfold Careful
  split <;> infer_instance

/-- The invariant of the runs. -/
structure Attributed (s : StreamMap) : Prop where
  sound : s.connection.Sound
  holds : ∀ i task, s.tasks[i]? = some task → Holds s.vertexName s.connection i task

variable {s : StreamMap}

/-- A step of the function or of the receiving task. -/
theorem Attributed.connection (h : Attributed s) (hc : c.Sound)
    (hcontinues : ∀ i, Continues i s.connection c) : Attributed { s with connection := c } :=
  ⟨hc, fun i task htask => (h.holds i task htask).continues (hcontinues i)⟩

variable {action : TaskAction} {vertexName : String} {cancelled : Bool}

/-- Only a retry leads from a failed attempt to the next call. -/
theorem again_of_calling {task : MapStreamTask} (hphase : task.phase = .backoff a)
    (h : (task.step vertexName cancelled c i action).2.phase = .calling) :
    ∃ gaveUp, action = .retry gaveUp ∧ (task.retry.nextStep gaveUp).2 = .again := by
  cases action with
  | retry gaveUp =>
    refine ⟨gaveUp, rfl, ?_⟩
    simp only [MapStreamTask.step, hphase] at h
    split_ifs at h
    · rw [hphase] at h
      cases h
    · cases hnext : (task.retry.nextStep gaveUp).2 <;>
        simp_all [MapStreamTask.retryStep, MapStreamTask.fail]
  | _ =>
    simp only [MapStreamTask.step, hphase] at h
    cases h

theorem Attributed.task (h : Attributed s) (hcareful : Careful s (.task i action)) :
    Attributed (s.step (.task i action)) := by
  cases htask : s.tasks[i]? with
  | none =>
    simp only [StreamMap.step, htask]
    exact h
  | some task =>
    have hholds := h.holds i task htask
    have hstep := taskStep_spec s.vertexName s.cancelled s.connection i task action
    simp only [StreamMap.step, htask]
    refine ⟨hstep.sound h.sound ?_, fun j other hother => ?_⟩
    · rintro rfl hphase
      exact hcareful task htask hphase
    · rcases getElem?_set_cases hother with ⟨rfl, rfl⟩ | ⟨hji, hold⟩
      · refine hholds.step h.sound hstep fun a hphase hcalling => ?_
        obtain ⟨gaveUp, rfl, hagain⟩ := again_of_calling hphase hcalling
        exact hcareful task htask (by rw [hphase]; rfl) hagain
      · exact (h.holds j other hold).continues (hstep.continues hholds hji)

theorem Attributed.step {action : MapAction} (h : Attributed s) (hcareful : Careful s action) :
    Attributed (s.step action) := by
  cases action with
  | spawn =>
    refine ⟨h.sound, fun i task htask => ?_⟩
    rcases getElem?_append_singleton_cases htask with htask | ⟨-, rfl⟩
    · exact h.holds i task htask
    · exact rfl
  | cancel => exact ⟨h.sound, h.holds⟩
  | task => exact h.task hcareful
  | respond a results =>
    exact h.connection (h.sound.respond a results) fun i => continues_respond a results
  | eot a => exact h.connection (h.sound.eot a) fun i => continues_eot a
  | advance => exact h.connection h.sound.advance fun i => continues_advance
  | streamError | streamEnd =>
    exact h.connection (h.sound.broadcastError _ _ _) fun i => continues_broadcastError _ _ _

theorem vertexName_exec (s : StreamMap) (actions : List MapAction) :
    (exec StreamMap.step s actions).vertexName = s.vertexName := by
  induction actions generalizing s with
  | nil => rfl
  | cons action _ ih =>
    rw [exec, ih]
    cases action with
    | task =>
      simp only [StreamMap.step]
      split <;> rfl
    | _ => rfl

/-- When a call is made only after the attempts before it have come to their end, and when nothing
of a failed attempt was handed on, a task that completes has handed on exactly the answers of
one attempt. -/
theorem outputs_of_careful (vertexName : String) (retryConfig : Option RetryConfig)
    (actions : List MapAction)
    (hrun : Along Careful StreamMap.step ⟨vertexName, retryConfig, {}, [], false⟩ actions) :
    let s := exec StreamMap.step ⟨vertexName, retryConfig, {}, [], false⟩ actions
    ∀ i task, s.tasks[i]? = some task → task.phase.mark = some .success → task.phase ≠ .dropped →
      ∃ attempt ∈ s.connection.attempts, attempt.task = i ∧ attempt.stage = .ended ∧
        task.outputs = mapped vertexName (parentInfo task.message) attempt.answers.flatten ∧
        ∀ result ∈ attempt.answers.flatten, result.tags.contains failTag = false := by
  intro s i task htask hmark hdropped
  have hstart : Attributed ⟨vertexName, retryConfig, {}, [], false⟩ :=
    ⟨sound_new, fun i task htask => by cases htask⟩
  have hall := exec_invariant (I := Attributed) (fun s a h hok => h.step hok) hstart hrun
  have hholds := hall.holds i task htask
  rw [vertexName_exec] at hholds
  cases hphase : task.phase with
  | completed =>
    simp only [Holds, hphase] at hholds
    exact hholds
  | dropped => exact absurd hphase hdropped
  | _ =>
    rw [hphase] at hmark
    cases hmark

/-- A vertex without a retry strategy. -/
def mapVertex : StreamMap where
  vertexName := "map"

def inMessage : UdfMessage where
  eventTime := 0
  id := ⟨"in", "0", 0⟩

def failedResult : MapResult where
  tags := [failTag]

def goodResult : MapResult where
  value := [1]

/-- A response is read, its sender is put back and the results are sent. -/
def passOn : List MapAction := [.advance, .advance, .advance]

/-- The first attempt fails with its first result. -/
def firstAttempt : List MapAction :=
  [.spawn inMessage, .task 0 .call, .task 0 (.request true), .respond 0 [failedResult]] ++ passOn ++
    [.task 0 .recv, .task 0 .emit]

def secondAttempt : List MapAction :=
  [.task 0 (.retry false), .task 0 .call, .task 0 (.request true)]

/-- The first attempt comes to its end before the second one is made. -/
def patientRun : List MapAction :=
  firstAttempt ++ [.eot 0, .advance] ++ secondAttempt ++
    [.respond 1 [goodResult, goodResult]] ++ passOn ++
    [.eot 1, .advance, .task 0 .recv, .task 0 .emit, .task 0 .emit, .task 0 .emit, .task 0 .recv]

theorem outputs_of_careful_patient : Along Careful StreamMap.step mapVertex patientRun ∧
      (exec StreamMap.step mapVertex patientRun).tasks.map (fun task =>
        (task.phase, task.outputs.map fun msg => msg.id.index)) = [(.completed, [0, 1])] ∧
      ∀ task, (exec StreamMap.step mapVertex patientRun).tasks[0]? = some task →
        task.phase.mark = some .success → task.phase ≠ .dropped →
        ∃ attempt ∈ (exec StreamMap.step mapVertex patientRun).connection.attempts,
          attempt.task = 0 ∧ attempt.stage = .ended ∧
          task.outputs = mapped "map" (parentInfo task.message) attempt.answers.flatten ∧
          ∀ result ∈ attempt.answers.flatten, result.tags.contains failTag = false :=
  ⟨by decide, by decide, outputs_of_careful "map" none patientRun (by decide) 0⟩

/-- The end of the transmission of the first attempt arrives after the second call. -/
def hastyRun : List MapAction :=
  firstAttempt ++ secondAttempt ++
    [.eot 0, .advance, .task 0 .recv, .respond 1 [goodResult], .eot 1, .advance, .advance]

/-- The end of the transmission of the first attempt takes the sender of the second one out of
the map: the task completes, and the message is acked without its result. -/
theorem retry_completes_early :
    let s := exec StreamMap.step mapVertex hastyRun
    s.tasks.map (fun task => (task.phase, task.outputs)) = [(.completed, [])] ∧
      s.connection.attempts.map (fun attempt => (attempt.stage, attempt.answers)) =
        [(.ended, [[failedResult]]), (.ended, [[goodResult]])] := by
  decide

end Numaflow.Map
