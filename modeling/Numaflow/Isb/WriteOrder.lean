import Numaflow.Isb.JetStream

/-!
# The order of the messages in a stream

The writer takes the messages from its input one by one and starts a task for each, up to a
limit of tasks at a time.  From then on the tasks run on their own: a task that finds the
buffer full tries again later, while the task of the next message may be luckier.

Main results: `Ordered.step`, `stored_in_order`, `inOrder_of_concurrency_one`,
`fullBuffer_overtaken`.
-/

namespace Numaflow.Isb

open Lib List

/-- The tasks, in the order of their messages in the input, and the streams. -/
structure WriterState where
  tasks : List ISBWriteTask
  broker : Broker

/-- The next message is taken from the input, or a task gets an answer. -/
inductive WriterAction where
  | receive (message : TaggedMessage)
  | task (writer : Nat) (action : WriteAction)
deriving DecidableEq, Repr

/-- A task that has not marked its message. -/
def ISBWriteTask.running (task : ISBWriteTask) : Bool :=
  match task.phase with
  | .done _ => false
  | _ => true

section

variable (o : ISBWriterOrchestrator)

/-- A message is taken when there is a permit, which its task holds until it is done. -/
def WriterState.step (pafConcurrency : Nat) (s : WriterState)
    (action : WriterAction) : WriterState :=
  match action with
  | .receive message =>
    if s.tasks.countP ISBWriteTask.running < pafConcurrency then
      { s with tasks := s.tasks ++ [ISBWriteTask.execute o message] }
    else s
  | .task writer action =>
    match s.tasks[writer]? with
    | some task =>
      let (task, broker) := act o writer (task, s.broker) action
      ⟨s.tasks.set writer task, broker⟩
    | none => s

/-- The streams that a message is written to. -/
def streamsOf (message : TaggedMessage) : List String :=
  (o.wanted message).filterMap fun edge => (o.target message edge.1).map Stream.name

/-- A message is taken only when no running task has a stream in common with it. -/
def Serial (s : WriterState) (action : WriterAction) : Prop :=
  match action with
  | .receive message => ∀ task ∈ s.tasks, task.running = true →
      ∀ name ∈ streamsOf o task.message, name ∉ streamsOf o message
  | .task _ _ => True

end

instance (o : ISBWriterOrchestrator) (s : WriterState) (action : WriterAction) :
    Decidable (Serial o s action) := by
  unfold Serial
  split <;> infer_instance

/-- The copies of a stream that were written by tasks are in the order of the input. -/
def InOrder (stored : List StoredCopy) : Prop :=
  stored.Pairwise fun c d => ∀ i ∈ c.writer, ∀ j ∈ d.writer, i ≤ j

/-- The streams are in the order of the input, and of two tasks with a common stream the
earlier one is done. -/
structure Ordered (o : ISBWriterOrchestrator) (s : WriterState) : Prop where
  inOrder : ∀ name, InOrder (s.broker name)
  routed : ∀ task ∈ s.tasks, task.running = true → Sound o task
  written : ∀ name, ∀ c ∈ s.broker name, ∀ i ∈ c.writer, ∃ task, s.tasks[i]? = some task ∧
    name ∈ streamsOf o task.message
  serial : ∀ (i j : Nat) (task task' : ISBWriteTask), i < j → s.tasks[i]? = some task →
    s.tasks[j]? = some task' → task.running = true →
      ∀ name ∈ streamsOf o task.message, name ∉ streamsOf o task'.message

/-! ## What a task does to the streams -/

variable {message : TaggedMessage} {stream : Stream} {broker : Broker} {copy c : StoredCopy}
  {name : String} {stored : List StoredCopy} {a b : Nat} {o : ISBWriterOrchestrator}
  {s : WriterState}

section

variable {task : ISBWriteTask}

theorem running_eq_false_iff : task.running = false ↔ ∃ mark, task.phase = .done mark := by
  unfold ISBWriteTask.running
  split <;> simp_all

variable {vertex : ToVertexConfig} {edge : Nat}

theorem mem_streamsOf (hwanted : (vertex, edge) ∈ o.wanted message)
    (htarget : o.target message vertex = some stream) : stream.name ∈ streamsOf o message :=
  mem_filterMap.mpr ⟨_, hwanted, by simp [htarget]⟩

/-- A task leaves the streams as they are, or publishes to one of its own. -/
theorem act_broker (h : Sound o task) (broker : Broker) (writer : Nat) (action : WriteAction) :
    (act o writer (task, broker) action).2 = broker ∨
      ∃ stream copy, stream.name ∈ streamsOf o task.message ∧ copy.writer = some writer ∧
        (act o writer (task, broker) action).2 = (publish broker stream copy).2 := by
  obtain ⟨message, phase, published, receipts⟩ := task
  cases phase with
  | writing edge stream =>
    obtain ⟨vertex, handled, hwanted, htarget, -⟩ := h
    cases action with
    | asyncWrite isFull stored sent =>
      refine (asyncWrite_cases broker writer message stream isFull stored sent).imp And.left ?_
      rintro ⟨-, hpublish⟩
      have hmem : (vertex, edge) ∈ o.wanted message := by
        rw [hwanted]
        exact mem_append_right _ mem_cons_self
      exact ⟨stream, _, mem_streamsOf hmem htarget, rfl, hpublish⟩
    | paf | write => exact .inl rfl
  | resolving =>
    left
    cases action with
    | paf =>
      simp only [act]
      split <;> rfl
    | asyncWrite | write => rfl
  | rewriting current rest =>
    obtain ⟨-, vertex, hwanted, htarget⟩ :=
      Resolving.waiting (show Resolving o message receipts (current :: rest) _ _ from h) current
        mem_cons_self
    cases action with
    | write isFull stored confirmed =>
      refine (write_cases broker writer message current.stream isFull stored confirmed).imp
        And.left ?_
      rintro ⟨-, hpublish⟩
      exact ⟨current.stream, _, mem_streamsOf hwanted htarget, rfl, hpublish⟩
    | asyncWrite | paf => exact .inl rfl
  | done => exact .inl rfl

theorem sound_act (h : Sound o task) (writer : Nat) (action : WriteAction) :
    Sound o (act o writer (task, broker) action).1 := by
  unfold act
  split
  · exact h.step _
  · split
    · exact h.step _
    · exact h.step _
  · exact h.step _
  · exact h

/-- A message with the drop tag or the nack tag has no running task. -/
theorem sound_of_running (h : (ISBWriteTask.execute o message).running = true) :
    Sound o (ISBWriteTask.execute o message) := by
  by_cases htag : message.dropped = true ∨ message.nacked = true
  · have hdone := running_eq_false_iff.mpr ⟨_, phase_exec_of_tag o message [] htag⟩
    cases hdone.symm.trans h
  · rw [not_or, Bool.not_eq_true, Bool.not_eq_true] at htag
    exact sound_execute o message htag.1 htag.2

end

/-! ## Order -/

/-- A publish appends at most the given copy to its stream. -/
theorem mem_publish (h : c ∈ (publish broker stream copy).2 name) :
    c ∈ broker name ∨ name = stream.name ∧ c = copy := by
  rcases publish_cases broker stream copy with ⟨hsame, -⟩ | ⟨happend, -⟩
  · rw [hsame] at h
    exact .inl h
  · rw [happend] at h
    by_cases hname : name = stream.name
    · subst hname
      rw [Function.update_self, mem_append, mem_singleton] at h
      exact h.imp_right fun h => ⟨rfl, h⟩
    · rw [Function.update_of_ne hname] at h
      exact .inl h

/-- A publish keeps the order when no later message is in the stream. -/
theorem InOrder.publish (h : ∀ name, InOrder (broker name))
    (hlast : ∀ c ∈ broker stream.name, ∀ i ∈ c.writer, ∀ j ∈ copy.writer, i ≤ j) (name : String) :
    InOrder ((publish broker stream copy).2 name) := by
  rcases publish_cases broker stream copy with ⟨hsame, -⟩ | ⟨happend, -⟩
  · rw [hsame]
    exact h name
  · rw [happend]
    by_cases hname : name = stream.name
    · subst hname
      rw [Function.update_self]
      refine pairwise_append.mpr ⟨h _, pairwise_singleton _ _, fun c hc d hd => ?_⟩
      rw [mem_singleton.mp hd]
      exact hlast c hc
    · rw [Function.update_of_ne hname]
      exact h name

section

variable {pafConcurrency : Nat} (h : Ordered o s)

include h

theorem Ordered.receive (hserial : Serial o s (.receive message)) :
    Ordered o { s with tasks := s.tasks ++ [ISBWriteTask.execute o message] } := by
  refine ⟨h.inOrder, forall_mem_concat.mpr ⟨h.routed, sound_of_running⟩, fun name c hc i hi => ?_,
    fun i j task task' hij hi hj hrunning => ?_⟩
  · obtain ⟨task, htask, hname⟩ := h.written name c hc i hi
    have hlt := (List.getElem?_eq_some_iff.mp htask).1
    exact ⟨task, by rw [getElem?_append_left hlt]; exact htask, hname⟩
  · have hj' : j ≤ s.tasks.length := by
      have hlt := (List.getElem?_eq_some_iff.mp hj).1
      rw [length_append, length_singleton] at hlt
      omega
    rw [getElem?_append_left (by omega)] at hi
    rcases hj'.lt_or_eq with hlt | rfl
    · rw [getElem?_append_left hlt] at hj
      exact h.serial i j task task' hij hi hj hrunning
    · -- the new task
      rw [getElem?_append_right (Nat.le_refl _), Nat.sub_self, getElem?_cons_zero,
        Option.some.injEq] at hj
      subst hj
      rw [message_execute]
      exact hserial task (mem_of_getElem? hi) hrunning

variable {writer : Nat} {action : WriterAction}

/-- A task keeps its message, and runs only if it did before. -/
theorem Ordered.set {b : Broker} {task task' : ISBWriteTask}
    (htask : s.tasks[writer]? = some task) (hmessage : task'.message = task.message)
    (hrunning : task'.running = true → task.running = true)
    (hsound : task'.running = true → Sound o task') (hinOrder : ∀ name, InOrder (b name))
    (hwritten : ∀ name, ∀ c ∈ b name, ∀ i ∈ c.writer, ∃ task, s.tasks[i]? = some task ∧
      name ∈ streamsOf o task.message) : Ordered o ⟨s.tasks.set writer task', b⟩ := by
  have hold : ∀ (i : Nat) (found : ISBWriteTask), (s.tasks.set writer task')[i]? = some found →
      ∃ before, s.tasks[i]? = some before ∧ found.message = before.message ∧
        (found.running = true → before.running = true) := by
    intro i found hfound
    rcases getElem?_set_cases hfound with ⟨rfl, rfl⟩ | ⟨-, hsame⟩
    · exact ⟨task, htask, hmessage, hrunning⟩
    · exact ⟨found, hsame, rfl, id⟩
  refine ⟨hinOrder, fun found hfound hrun => ?_, fun name c hc i hi => ?_,
    fun i j first second hij hi hj hrun => ?_⟩
  · obtain ⟨i, hi⟩ := getElem?_of_mem hfound
    rcases getElem?_set_cases hi with ⟨rfl, rfl⟩ | ⟨-, hsame⟩
    · exact hsound hrun
    · exact h.routed found (mem_of_getElem? hsame) hrun
  · obtain ⟨before, hbefore, hname⟩ := hwritten name c hc i hi
    by_cases hi' : i = writer
    · subst hi'
      obtain rfl : task = before := Option.some.inj (htask.symm.trans hbefore)
      have hlt := (List.getElem?_eq_some_iff.mp htask).1
      exact ⟨task', getElem?_set_self hlt, hmessage ▸ hname⟩
    · exact ⟨before, by rw [getElem?_set_ne (Ne.symm hi')]; exact hbefore, hname⟩
  · obtain ⟨first', hfirst, hmsg, hrunFirst⟩ := hold i first hi
    obtain ⟨second', hsecond, hmsg', -⟩ := hold j second hj
    rw [hmsg, hmsg']
    exact h.serial i j first' second' hij hfirst hsecond (hrunFirst hrun)

/-- One action keeps the order: a task publishes behind the copies of the earlier messages,
and there are none of later ones. -/
theorem Ordered.task (writer : Nat) (action : WriteAction) :
    Ordered o (s.step o pafConcurrency (.task writer action)) := by
  simp only [WriterState.step]
  split
  · rename_i task htask
    by_cases hrunning : task.running = true
    · have hsound := h.routed task (mem_of_getElem? htask) hrunning
      have hset := fun broker => h.set (b := broker) htask
        (message_act o writer (task, s.broker) action) (fun _ => hrunning)
        fun _ => sound_act hsound writer action
      rcases act_broker hsound s.broker writer action with
        hsame | ⟨stream, copy, hstream, hcopy, hpublish⟩
      · rw [hsame]
        exact hset s.broker h.inOrder h.written
      · rw [hpublish]
        refine hset _ (InOrder.publish h.inOrder fun c hc i hi j hj => ?_) fun name c hc i hi => ?_
        · obtain ⟨task', htask', hname⟩ := h.written _ c hc i hi
          rw [hcopy, Option.mem_some_iff] at hj
          subst hj
          by_contra hlt
          exact h.serial writer i task task' (Nat.lt_of_not_le hlt) htask htask' hrunning _ hstream
            hname
        · rcases mem_publish hc with hc | ⟨rfl, rfl⟩
          · exact h.written name c hc i hi
          · rw [hcopy, Option.mem_some_iff] at hi
            subst hi
            exact ⟨task, htask, hstream⟩
    · rw [Bool.not_eq_true] at hrunning
      obtain ⟨mark, hmark⟩ := running_eq_false_iff.mp hrunning
      obtain ⟨hlt, rfl⟩ := List.getElem?_eq_some_iff.mp htask
      rw [act_of_done hmark, set_getElem_self]
      exact h
  · exact h

theorem Ordered.step (hserial : Serial o s action) :
    Ordered o (s.step o pafConcurrency action) := by
  cases action with
  | receive =>
    simp only [WriterState.step]
    split
    · exact h.receive hserial
    · exact h
  | task writer action => exact h.task writer action

omit h in
/-- The streams before the first message is taken. -/
theorem Ordered.start (o : ISBWriterOrchestrator) (h : ∀ name, ∀ c ∈ broker name, c.writer = none) :
    Ordered o ⟨[], broker⟩ where
  inOrder name := Pairwise.imp_of_mem
    (fun hc _ _ i hi => by rw [h name _ hc] at hi; cases hi) (pairwise_of_forall fun _ _ => trivial)
  routed task htask := by cases htask
  written name c hc i hi := by
    rw [h name c hc] at hi
    cases hi
  serial i j task task' _ hi := by cases hi

end

/-- The place in the stream of the first copy that a task wrote. -/
def firstCopy (stored : List StoredCopy) (writer : Nat) : Nat :=
  stored.findIdx fun c => c.writer == some writer

theorem InOrder.firstCopy_lt (h : InOrder stored) (hab : a < b)
    (ha : ∃ c ∈ stored, c.writer = some a) (hb : ∃ c ∈ stored, c.writer = some b) :
    firstCopy stored a < firstCopy stored b := by
  have hfound : ∀ writer, (∃ c ∈ stored, c.writer = some writer) →
      ∃ hlt : firstCopy stored writer < stored.length,
        stored[firstCopy stored writer].writer = some writer := by
    rintro writer ⟨c, hc, hwriter⟩
    have hlt := findIdx_lt_length_of_exists (p := fun c => c.writer == some writer)
      ⟨c, hc, by simp [hwriter]⟩
    exact ⟨hlt, by simpa [firstCopy] using findIdx_getElem (w := hlt)⟩
  obtain ⟨halt, ha⟩ := hfound a ha
  obtain ⟨hblt, hb⟩ := hfound b hb
  by_contra hle
  rcases (Nat.le_of_not_lt hle).lt_or_eq with hlt | heq
  · have := pairwise_iff_getElem.mp h _ _ hblt halt hlt b (by simp [hb]) a (by simp [ha])
    omega
  · simp only [heq, ha, Option.some.injEq] at hb
    omega

/-- When a message is taken only while no running task has a stream in common with it, then
of two messages that were stored in the same stream the one that was taken first comes
first. -/
theorem stored_in_order (o : ISBWriterOrchestrator) (pafConcurrency : Nat) (broker : Broker)
    (hstart : ∀ name, ∀ c ∈ broker name, c.writer = none) (actions : List WriterAction)
    (hrun : Along (Serial o) (WriterState.step o pafConcurrency) ⟨[], broker⟩ actions)
    (name : String) (a b : Nat) (hab : a < b)
    (ha : ∃ c ∈ (exec (WriterState.step o pafConcurrency) ⟨[], broker⟩ actions).broker name,
      c.writer = some a)
    (hb : ∃ c ∈ (exec (WriterState.step o pafConcurrency) ⟨[], broker⟩ actions).broker name,
      c.writer = some b) :
    firstCopy ((exec (WriterState.step o pafConcurrency) ⟨[], broker⟩ actions).broker name) a <
      firstCopy ((exec (WriterState.step o pafConcurrency) ⟨[], broker⟩ actions).broker name) b := by
  have hordered : Ordered o (exec (WriterState.step o pafConcurrency) ⟨[], broker⟩ actions) :=
    exec_invariant (I := Ordered o) (fun _ _ h hok => h.step hok) (Ordered.start o hstart) hrun
  exact (hordered.inOrder name).firstCopy_lt hab ha hb

/-- The first message finds the buffer full twice; the second one is taken when it is stored. -/
theorem stored_in_order_oneEdge :
    let first : TaggedMessage := { eventTime := 0, id := ⟨"in", "1-0", 0⟩ }
    let second : TaggedMessage := { eventTime := 0, id := ⟨"in", "2-0", 0⟩ }
    let actions := [WriterAction.receive first, .task 0 (.asyncWrite true true true false),
      .task 0 (.asyncWrite true true true false), .task 0 (.asyncWrite false true true false),
      .task 0 (.paf true), .receive second, .task 1 (.asyncWrite false true true false)]
    let stored := (exec (WriterState.step oneEdge 2) ⟨[], fun _ => []⟩ actions).broker "a-0"
    firstCopy stored 0 < firstCopy stored 1 :=
  stored_in_order oneEdge 2 (fun _ => []) (by simp)
    [.receive { eventTime := 0, id := ⟨"in", "1-0", 0⟩ },
      .task 0 (.asyncWrite true true true false), .task 0 (.asyncWrite true true true false),
      .task 0 (.asyncWrite false true true false), .task 0 (.paf true),
      .receive { eventTime := 0, id := ⟨"in", "2-0", 0⟩ },
      .task 1 (.asyncWrite false true true false)]
    (by decide) "a-0" 0 1 (by decide) (by decide) (by decide)

/-- Both messages are taken, the first one finds the buffer full, and the second one is
stored before the first one tries again. -/
theorem fullBuffer_overtaken :
    let first : TaggedMessage := { eventTime := 0, id := ⟨"in", "1-0", 0⟩ }
    let second : TaggedMessage := { eventTime := 0, id := ⟨"in", "2-0", 0⟩ }
    let actions := [WriterAction.receive first, .receive second,
      .task 0 (.asyncWrite true true true false), .task 1 (.asyncWrite false true true false),
      .task 0 (.asyncWrite false true true false)]
    let s := exec (WriterState.step oneEdge 2) ⟨[], fun _ => []⟩ actions
    s.tasks.map (fun task => task.message.id.offset) = ["1-0", "2-0"] ∧
      (s.broker "a-0").map StoredCopy.writer = [some 1, some 0] ∧
      ¬ firstCopy (s.broker "a-0") 0 < firstCopy (s.broker "a-0") 1 := by
  decide

/-- With one task at a time a message is taken only when no task is running. -/
theorem Ordered.step_one (h : Ordered o s) (action : WriterAction) :
    Ordered o (s.step o 1 action) := by
  cases action with
  | receive =>
    simp only [WriterState.step]
    split
    · rename_i hfree
      rw [Nat.lt_one_iff, countP_eq_zero] at hfree
      exact h.receive fun task htask hrunning => absurd hrunning (hfree task htask)
    · exact h
  | task writer action => exact h.task writer action

/-- One task at a time stores the messages of every stream in the order of the input. -/
theorem inOrder_of_concurrency_one (o : ISBWriterOrchestrator)
    (hstart : ∀ name, ∀ c ∈ broker name, c.writer = none) (actions : List WriterAction)
    (name : String) : InOrder ((exec (WriterState.step o 1) ⟨[], broker⟩ actions).broker name) := by
  have hordered : Ordered o (exec (WriterState.step o 1) ⟨[], broker⟩ actions) :=
    exec_invariant_all (I := Ordered o) (fun _ action h => h.step_one action)
      (Ordered.start o hstart)
  exact hordered.inOrder name

/-- The second message is not taken while the first one finds the buffer full. -/
theorem inOrder_of_concurrency_one_full : InOrder ((exec (WriterState.step oneEdge 1)
    ⟨[], fun _ => []⟩ [.receive { eventTime := 0, id := ⟨"in", "1-0", 0⟩ },
      .task 0 (.asyncWrite true true true false), .receive { eventTime := 0, id := ⟨"in", "2-0", 0⟩ },
      .task 0 (.asyncWrite false true true false)]).broker "a-0") :=
  inOrder_of_concurrency_one oneEdge (by simp) _ "a-0"

end Numaflow.Isb
