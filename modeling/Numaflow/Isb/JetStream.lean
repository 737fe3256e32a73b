import Numaflow.Isb.Writer

/-!
# Writing to JetStream

A stream holds the messages that were published to it, in order.  A publish that carries
the identity of the message is discarded when the stream holds a copy that was published
with the same identity.  The first write of a task carries the identity; the repeated write
does not, and neither does a watermark message.  Of every publish the environment decides
whether it reaches the broker and whether the confirmation comes back.

Main results: `Copies.act`, `oneCopy_of_success`, `lostConfirmation_twoCopies`.
-/

namespace Numaflow.Isb

open Lib List

/-- A message in a stream: the task that wrote it, the text of its identity, and whether it
was published with the identity. -/
structure StoredCopy where
  writer : Option Nat
  id : String
  withId : Bool
deriving DecidableEq, Repr

/-- The contents of the streams by name, the oldest message first. -/
abbrev Broker := String → List StoredCopy

/-- Store a message, or find the copy that it duplicates. -/
def publish (broker : Broker) (stream : Stream) (copy : StoredCopy) : WriteResult × Broker :=
  let stored := broker stream.name
  if copy.withId ∧ ∃ c ∈ stored, c.withId = true ∧ c.id = copy.id then
    (⟨.int (stored.findIdx (fun c => c.withId && c.id == copy.id) + 1) stream.partition, true⟩,
      broker)
  else
    (⟨.int (stored.length + 1) stream.partition, false⟩,
      Function.update broker stream.name (stored ++ [copy]))

/-- What the environment decides about the next answer to a task: whether the buffer is
full, whether a publish reaches the broker, whether the client reports it as sent or the
confirmation comes back, and whether the task is cancelled. -/
inductive WriteAction where
  | asyncWrite (isFull stored sent cancelled : Bool)
  | paf (arrives : Bool)
  | write (isFull stored confirmed cancelled : Bool)
deriving DecidableEq, Repr

/-- A watermark message passes a full buffer. -/
def refused (message : TaggedMessage) (isFull : Bool) : Bool :=
  message.typ != .wmb && isFull

/-- Publish a message with its identity; a watermark message has none. -/
def JetStreamWriter.asyncWrite (broker : Broker) (writer : Nat) (message : TaggedMessage)
    (stream : Stream) (isFull stored sent : Bool) :
    Except WriteError (Option WriteResult) × Broker :=
  if refused message isFull then (.error .bufferFull, broker)
  else
    let copy : StoredCopy := ⟨some writer, message.id.text, message.typ != .wmb⟩
    let (paf, broker) :=
      if stored then (some (publish broker stream copy).1, (publish broker stream copy).2)
      else (none, broker)
    (if sent then .ok paf else .error (.writeFailed "publishing failed"), broker)

/-- Publish a message without identity and wait for the confirmation. -/
def JetStreamWriter.write (broker : Broker) (writer : Nat) (message : TaggedMessage)
    (stream : Stream) (isFull stored confirmed : Bool) : Except WriteError WriteResult × Broker :=
  if refused message isFull then (.error .bufferFull, broker)
  else if stored then
    let (result, broker) := publish broker stream ⟨some writer, message.id.text, false⟩
    (if confirmed then .ok result else .error (.writeFailed "awaiting publish ack failed"), broker)
  else (.error (.writeFailed "publishing failed"), broker)

/-- A task together with the broker. -/
abbrev Writing := ISBWriteTask × Broker

/-- The task gets the next answer, if it is waiting for one of this kind. -/
def act (o : ISBWriterOrchestrator) (writer : Nat) (s : Writing) (action : WriteAction) : Writing :=
  match s.1.phase, action with
  | .writing _ stream _ _ _, .asyncWrite isFull stored sent cancelled =>
    let (result, broker) :=
      JetStreamWriter.asyncWrite s.2 writer s.1.message stream isFull stored sent
    (s.1.step o (.asyncWrite result cancelled), broker)
  | .resolving current _ _ _, .paf arrives =>
    match current.paf, arrives with
    | some result, true => (s.1.step o (.paf (.ok result)), s.2)
    | _, _ => (s.1.step o (.paf (.error (.writeFailed "ack not received"))), s.2)
  | .rewriting current _ _ _, .write isFull stored confirmed cancelled =>
    let (result, broker) :=
      JetStreamWriter.write s.2 writer s.1.message current.stream isFull stored confirmed
    (s.1.step o (.write result cancelled), broker)
  | _, _ => s

/-- The copies of a message in a stream. -/
def copies (broker : Broker) (id : String) (name : String) : List StoredCopy :=
  (broker name).filter fun c => c.id == id

/-- A publish without identity reaches the broker only while the stream holds no copy of the
message, and one with identity only while all copies in the stream have it too. -/
def Unrepeated (s : Writing) (action : WriteAction) : Prop :=
  match s.1.phase, action with
  | .writing _ stream _ _ _, .asyncWrite _ stored _ _ =>
    stored = true → ∀ c ∈ copies s.2 s.1.message.id.text stream.name,
      s.1.message.typ ≠ .wmb ∧ c.withId = true
  | .rewriting current _ _ _, .write _ stored _ _ =>
    stored = true → copies s.2 s.1.message.id.text current.stream.name = []
  | _, _ => True

instance (s : Writing) (action : WriteAction) : Decidable (Unrepeated s action) := by
  unfold Unrepeated
  split <;> infer_instance

/-! ## Copies in a stream -/

section

variable {broker : Broker} {stream : Stream} {copy : StoredCopy} {id name : String}

section

variable (broker : Broker) (stream : Stream) (copy : StoredCopy)

/-- A publish leaves the streams as they are, or appends one message to its stream. -/
theorem publish_cases :
    ((publish broker stream copy).2 = broker ∧ copy.withId = true ∧
        ∃ c ∈ broker stream.name, c.withId = true ∧ c.id = copy.id) ∨
      (publish broker stream copy).2 =
          Function.update broker stream.name (broker stream.name ++ [copy]) ∧
        (copy.withId = true → ∀ c ∈ broker stream.name, c.withId = true → c.id ≠ copy.id) := by
  unfold publish
  by_cases hdup : copy.withId = true ∧ ∃ c ∈ broker stream.name, c.withId = true ∧ c.id = copy.id
  · left
    rw [if_pos hdup]
    exact ⟨rfl, hdup⟩
  · right
    rw [if_neg hdup]
    exact ⟨rfl, fun hid c hc hcid heq => hdup ⟨hid, c, hc, hcid, heq⟩⟩

theorem copies_update_append
    (id name : String) :
    copies (Function.update broker stream.name (broker stream.name ++ [copy])) id name =
      copies broker id name ++ if name = stream.name ∧ copy.id = id then [copy] else [] := by
  by_cases hname : name = stream.name
  · subst hname
    by_cases hid : copy.id = id
    · simp [copies, hid]
    · simp [copies, hid]
  · simp [copies, hname]

/-- A message that was published is in its stream. -/
theorem copies_publish_ne_nil :
    copies (publish broker stream copy).2 copy.id stream.name ≠ [] := by
  rcases publish_cases broker stream copy with ⟨hsame, -, c, hc, -, hid⟩ | ⟨happend, -⟩
  · rw [hsame]
    exact ne_nil_of_mem (mem_filter.mpr ⟨hc, by simp [hid]⟩)
  · rw [happend, copies_update_append]
    simp

end

/-- Messages stay in their streams. -/
theorem copies_publish_of_ne_nil (h : copies broker id name ≠ []) :
    copies (publish broker stream copy).2 id name ≠ [] := by
  rcases publish_cases broker stream copy with ⟨hsame, -⟩ | ⟨happend, -⟩
  · rw [hsame]
    exact h
  · rw [happend, copies_update_append]
    exact append_ne_nil_of_left_ne_nil h _

/-- There is no second copy when the new one and those in the stream, if any, have the
identity. -/
theorem length_copies_publish_le (h : (copies broker id name).length ≤ 1)
    (hnew : ∀ c ∈ copies broker copy.id stream.name, copy.withId = true ∧ c.withId = true) :
    (copies (publish broker stream copy).2 id name).length ≤ 1 := by
  rcases publish_cases broker stream copy with ⟨hsame, -⟩ | ⟨happend, hfresh⟩
  · rw [hsame]
    exact h
  · rw [happend, copies_update_append]
    split_ifs with hcopy
    · obtain ⟨rfl, rfl⟩ := hcopy
      have hnone : copies broker copy.id stream.name = [] := by
        rw [eq_nil_iff_forall_not_mem]
        intro c hc
        have hmem := mem_filter.mp hc
        exact hfresh (hnew c hc).1 c hmem.1 (hnew c hc).2 (by simpa using hmem.2)
      rw [hnone]
      exact Nat.le_refl _
    · simpa using h

end

/-! ## What a task stores -/

/-- The streams hold at most one copy of the message; what is confirmed, or will be, is in
its stream. -/
structure Copies (o : ISBWriterOrchestrator) (s : Writing) : Prop where
  sound : Sound o s.1
  once : ∀ name, (copies s.2 s.1.message.id.text name).length ≤ 1
  held : ∀ edge vertex stream, (edge, .confirmed) ∈ s.1.receipts →
    (vertex, edge) ∈ o.wanted s.1.message → o.target s.1.message vertex = some stream →
      copies s.2 s.1.message.id.text stream.name ≠ []
  future : ∀ p ∈ s.1.pending, p.paf.isSome = true →
    copies s.2 s.1.message.id.text p.stream.name ≠ []

variable {o : ISBWriterOrchestrator} {answer : Answer} {s : Writing} {task : ISBWriteTask}
  {p : PendingWriteResult} {broker : Broker} {stream : Stream} {copy : StoredCopy}
  {action : WriteAction} {message : TaggedMessage} {mark : Mark} {writer : Nat}

/-- A write that is resolved belongs to an edge and to the stream of that edge. -/
theorem Sound.waiting (h : Sound o task) (hconfirms : Confirms task answer p) :
    ∃ vertex, (vertex, p.edge) ∈ o.wanted task.message ∧
      o.target task.message vertex = some p.stream := by
  unfold Sound at h
  rcases hconfirms with ⟨_, _, _, _, hphase, -⟩ | ⟨_, _, _, _, _, hphase, -⟩
  · rw [hphase] at h
    exact (h.waiting p mem_cons_self).2
  · rw [hphase] at h
    exact (h.waiting p mem_cons_self).2

/-- The answer and the streams after it keep the invariant. -/
theorem Copies.answered (h : Copies o s) (hgrow : ∀ name, copies s.2 s.1.message.id.text name ≠ [] →
      copies broker s.1.message.id.text name ≠ [])
    (honce : ∀ name, (copies broker s.1.message.id.text name).length ≤ 1)
    (haccepts : ∀ p, Accepts s.1 answer p → p.paf.isSome = true →
      copies broker s.1.message.id.text p.stream.name ≠ [])
    (hconfirms : ∀ p, Confirms s.1 answer p →
      copies broker s.1.message.id.text p.stream.name ≠ []) :
    Copies o (s.1.step o answer, broker) := by
  obtain ⟨hmessage, hpending⟩ := pending_step o s.1 answer
  refine ⟨h.sound.step answer, ?_, ?_, ?_⟩
  · rw [hmessage]
    exact honce
  · rw [hmessage]
    intro edge vertex stream hreceipt hwanted htarget
    rcases (mem_receipts_step s.1 o answer _).mp hreceipt with hold | ⟨p, hp, rfl⟩
    · exact hgrow _ (h.held edge vertex stream hold hwanted htarget)
    · obtain ⟨vertex', hwanted', htarget'⟩ := h.sound.waiting hp
      obtain rfl : vertex' = vertex :=
        Option.some.inj ((mem_wanted.mp hwanted').1.symm.trans (mem_wanted.mp hwanted).1)
      obtain rfl : p.stream = stream := Option.some.inj (htarget'.symm.trans htarget)
      exact hconfirms p hp
  · rw [hmessage]
    intro p hp hsome
    rcases hpending p hp with hold | hnew
    · exact hgrow _ (h.future p hold hsome)
    · exact haccepts p hnew hsome

open JetStreamWriter

/-- A first write that is accepted with a confirmation has stored the message. -/
theorem asyncWrite_cases (broker : Broker) (writer : Nat) (message : TaggedMessage)
    (stream : Stream) (isFull stored sent : Bool) :
    ((asyncWrite broker writer message stream isFull stored sent).2 = broker ∧
        ∀ result, (asyncWrite broker writer message stream isFull stored sent).1 ≠
          .ok (some result)) ∨
      stored = true ∧ (asyncWrite broker writer message stream isFull stored sent).2 =
          (publish broker stream ⟨some writer, message.id.text, message.typ != .wmb⟩).2 := by
  unfold asyncWrite
  by_cases hrefused : refused message isFull = true
  · exact .inl (by simp [hrefused])
  · cases stored with
    | true => exact .inr (by simp [hrefused])
    | false => exact .inl (by cases sent <;> simp [hrefused])

/-- A repeated write that is confirmed has stored the message. -/
theorem write_cases (broker : Broker) (writer : Nat) (message : TaggedMessage) (stream : Stream)
    (isFull stored confirmed : Bool) :
    ((write broker writer message stream isFull stored confirmed).2 = broker ∧
        ∀ result, (write broker writer message stream isFull stored confirmed).1 ≠ .ok result) ∨
      stored = true ∧ (write broker writer message stream isFull stored confirmed).2 =
          (publish broker stream ⟨some writer, message.id.text, false⟩).2 := by
  unfold write
  by_cases hrefused : refused message isFull = true
  · exact .inl (by simp [hrefused])
  · cases stored with
    | true => exact .inr (by simp [hrefused])
    | false => exact .inl (by simp [hrefused])

/-- An answer that accepts and confirms nothing that is not stored. -/
theorem Copies.unstored (h : Copies o s) (haccepts : ∀ p, Accepts s.1 answer p → p.paf = none)
    (hconfirms : ∀ p, Confirms s.1 answer p →
      copies s.2 s.1.message.id.text p.stream.name ≠ []) : Copies o (s.1.step o answer, s.2) := by
  refine h.answered (fun _ => id) h.once (fun p hp hsome => ?_) hconfirms
  rw [haccepts p hp] at hsome
  cases hsome

/-- A publish of the message is answered: the write that is accepted or confirmed is the one
to the stream of the publish. -/
theorem Copies.published (h : Copies o s) (hid : copy.id = s.1.message.id.text)
    (hnew : ∀ c ∈ copies s.2 copy.id stream.name, copy.withId = true ∧ c.withId = true)
    (haccepts : ∀ p, Accepts s.1 answer p → p.stream = stream)
    (hconfirms : ∀ p, Confirms s.1 answer p → p.stream = stream) :
    Copies o (s.1.step o answer, (publish s.2 stream copy).2) := by
  have hheld := hid ▸ copies_publish_ne_nil s.2 stream copy
  refine h.answered (fun name => copies_publish_of_ne_nil)
    (fun name => length_copies_publish_le (h.once name) hnew) (fun p hp _ => ?_) fun p hp => ?_
  · rw [haccepts p hp]
    exact hheld
  · rw [hconfirms p hp]
    exact hheld

section

variable {current : PendingWriteResult} {rest : List PendingWriteResult}
  {offsets : List (Stream × Offset)} {expected : Nat}

/-- Only a task at the first writes has one of them accepted. -/
theorem Accepts.isWriting (h : Accepts task answer p) : task.isWriting = true := by
  obtain ⟨_, _, _, _, hphase, -⟩ := h
  rw [ISBWriteTask.isWriting, hphase]

/-- A task at the first writes has nothing confirmed. -/
theorem Confirms.not_isWriting (h : Confirms task answer p) : task.isWriting = false := by
  rcases h with ⟨_, _, _, _, hphase, -⟩ | ⟨_, _, _, _, _, hphase, -⟩
  · rw [ISBWriteTask.isWriting, hphase]
  · rw [ISBWriteTask.isWriting, hphase]

/-- The write that is confirmed is the current one. -/
theorem Confirms.eq_current (h : Confirms task answer p)
    (hphase : task.phase = .resolving current rest offsets expected ∨
      task.phase = .rewriting current rest offsets expected) : p = current := by
  rcases h with ⟨_, _, _, _, hp, -⟩ | ⟨_, _, _, _, _, hp, -⟩
  · rcases hphase with hphase | hphase
    · exact (Phase.resolving.inj (hp.symm.trans hphase)).1
    · cases hp.symm.trans hphase
  · rcases hphase with hphase | hphase
    · cases hp.symm.trans hphase
    · exact (Phase.rewriting.inj (hp.symm.trans hphase)).1

end

/-- One action keeps at most one copy in each stream. -/
theorem Copies.act (h : Copies o s) (writer : Nat) (hok : Unrepeated s action) :
    Copies o (act o writer s action) := by
  obtain ⟨⟨message, phase, published, receipts⟩, broker⟩ := s
  cases phase with
  | writing _ stream =>
    cases action with
    | asyncWrite isFull stored sent =>
      rcases asyncWrite_cases broker writer message stream isFull stored sent with
        ⟨hsame, hresult⟩ | ⟨hstored, hpublish⟩
      · simp only [Isb.act, hsame]
        refine h.unstored (fun p hp => ?_) fun p hp => by cases hp.not_isWriting
        obtain ⟨_, _, _, _, -, hanswer⟩ := hp
        have hok := (Answer.asyncWrite.inj hanswer).1
        exact Option.eq_none_iff_forall_ne_some.mpr fun r hr => hresult r (hr ▸ hok)
      · simp only [Isb.act, hpublish]
        refine h.published rfl (fun c hc => ?_) (fun p hp => ?_)
          fun p hp => by cases hp.not_isWriting
        · exact ⟨by simpa using (hok hstored c hc).1, (hok hstored c hc).2⟩
        · obtain ⟨_, _, _, _, hphase, -⟩ := hp
          exact (Phase.writing.inj hphase).2.1.symm
    | paf | write => exact h
  | resolving current rest offsets expected =>
    cases action with
    | paf arrives =>
      by_cases harrives : current.paf.isSome = true ∧ arrives = true
      · obtain ⟨hsome, rfl⟩ := harrives
        obtain ⟨result, hpaf⟩ := Option.isSome_iff_exists.mp hsome
        simp only [Isb.act, hpaf]
        refine h.unstored (fun p hp => by cases hp.isWriting) fun p hp => ?_
        rw [hp.eq_current (.inl rfl)]
        exact h.future current mem_cons_self hsome
      · have hlost : Isb.act o writer (⟨message, .resolving current rest offsets expected,
            published, receipts⟩, broker) (.paf arrives) =
            (ISBWriteTask.step o ⟨message, .resolving current rest offsets expected, published,
              receipts⟩ (.paf (.error (.writeFailed "ack not received"))), broker) := by
          cases hpaf : current.paf <;> cases arrives <;> simp_all [Isb.act]
        rw [hlost]
        refine h.unstored (fun p hp => by cases hp.isWriting) fun p hp => ?_
        rcases hp with ⟨_, _, _, _, -, hanswer⟩ | ⟨_, _, _, _, _, -, hanswer⟩ <;> cases hanswer
    | asyncWrite | write => exact h
  | rewriting current =>
    cases action with
    | write isFull stored confirmed =>
      rcases write_cases broker writer message current.stream isFull stored confirmed with
        ⟨hsame, hresult⟩ | ⟨hstored, hpublish⟩
      · simp only [Isb.act, hsame]
        refine h.unstored (fun p hp => by cases hp.isWriting) fun p hp => ?_
        rcases hp with ⟨_, _, _, _, -, hanswer⟩ | ⟨_, _, _, result, _, -, hanswer⟩
        · cases hanswer
        · exact absurd (Answer.write.inj hanswer).1 (hresult result)
      · simp only [Isb.act, hpublish]
        have hnone : copies broker message.id.text current.stream.name = [] := hok hstored
        refine h.published rfl (fun c hc => ?_) (fun p hp => by cases hp.isWriting) fun p hp => ?_
        · rw [hnone] at hc
          cases hc
        · rw [hp.eq_current (.inr rfl)]
    | asyncWrite | paf => exact h
  | done => exact h

/-- Before a task has written anything. -/
theorem Copies.execute (o : ISBWriterOrchestrator) (hdropped : message.dropped = false)
    (hnacked : message.nacked = false)
    (hstart : ∀ name, (copies broker message.id.text name).length ≤ 1) :
    Copies o (ISBWriteTask.execute o message, broker) := by
  have hstartTask : ISBWriteTask.execute o message =
      ISBWriteTask.routeAndWriteMessage { message, phase := .done .dropped } o [] o.config.zipIdx := by
    simp [ISBWriteTask.execute, hdropped, hnacked]
  have hmessage := message_execute o message
  obtain ⟨-, hreceipts, hpending⟩ := routeAndWriteMessage_same
    { message, phase := .done .dropped } o [] o.config.zipIdx
  rw [← hstartTask] at hreceipts hpending
  refine ⟨sound_execute o message hdropped hnacked, ?_, ?_, ?_⟩
  · rw [hmessage]
    exact hstart
  · intro edge vertex stream hreceipt
    rw [hreceipts] at hreceipt
    cases hreceipt
  · intro p hp
    exact absurd (hpending hp) not_mem_nil

theorem message_act (o : ISBWriterOrchestrator) (writer : Nat) (s : Writing) (action : WriteAction) :
    (act o writer s action).1.message = s.1.message := by
  unfold act
  split
  · exact (pending_step ..).1
  · split
    · exact (pending_step ..).1
    · exact (pending_step ..).1
  · exact (pending_step ..).1
  · rfl

/-- A task that is done publishes nothing. -/
theorem act_of_done (h : s.1.phase = .done mark) (action : WriteAction) :
    act o writer s action = s := by
  unfold act
  rw [h]

theorem exec_act_of_done (h : s.1.phase = .done mark) (actions : List WriteAction) :
    exec (act o writer) s actions = s := by
  induction actions with
  | nil => rfl
  | cons _ _ ih =>
    rw [exec, act_of_done h]
    exact ih

/-- When nothing is published without identity to a stream that holds a copy of the message,
nor with identity to one that holds a copy without, and the streams hold at most one copy of
it to begin with, then a message that is marked as successful is exactly once in the stream
of every edge that did not discard it. -/
theorem oneCopy_of_success (o : ISBWriterOrchestrator) (message : TaggedMessage)
    (hrouted : message.dropped = false) (writer : Nat) (broker : Broker)
    (hstart : ∀ name, (copies broker message.id.text name).length ≤ 1)
    (actions : List WriteAction)
    (hrun : Along Unrepeated (act o writer) (ISBWriteTask.execute o message, broker) actions)
    (hdone : (exec (act o writer) (ISBWriteTask.execute o message, broker) actions).1.phase =
      .done .success) :
    ∀ (edge : Nat) (vertex : ToVertexConfig) (stream : Stream), o.config[edge]? = some vertex →
      shouldForward message.tags vertex.conditions = true → o.target message vertex = some stream →
      (edge, .discarded) ∉
        (exec (act o writer) (ISBWriteTask.execute o message, broker) actions).1.receipts →
      (copies (exec (act o writer) (ISBWriteTask.execute o message, broker) actions).2
        message.id.text stream.name).length = 1 := by
  have hnacked : message.nacked = false := by
    rw [← Bool.not_eq_true]
    intro hnacked
    have hphase := phase_exec_of_tag o message [] (Or.inr hnacked)
    rw [exec_act_of_done hphase] at hdone
    cases hdone.symm.trans (hphase.trans (by rw [hrouted]))
  have hinv : Copies o (exec (act o writer) (ISBWriteTask.execute o message, broker) actions) ∧
      (exec (act o writer) (ISBWriteTask.execute o message, broker) actions).1.message = message :=
    exec_invariant (I := fun s : Writing => Copies o s ∧ s.1.message = message)
      (fun s action hs hok => ⟨hs.1.act writer hok, (message_act o writer s action).trans hs.2⟩)
      ⟨.execute o hrouted hnacked hstart, message_execute o message⟩ hrun
  obtain ⟨hcopies, hmessage⟩ := hinv
  intro edge vertex stream hvertex hforward htarget hdiscarded
  have hwanted : (vertex, edge) ∈ o.wanted message := mem_wanted.mpr ⟨hvertex, hforward⟩
  have hsound := hcopies.sound
  unfold Sound at hsound
  rw [hdone, hmessage] at hsound
  have hconfirmed := (hsound.mp rfl (vertex, edge) hwanted).resolve_right fun h => hdiscarded h.1
  have hheld := hcopies.held edge vertex stream hconfirmed (by rw [hmessage]; exact hwanted)
    (by rw [hmessage]; exact htarget)
  have honce := hcopies.once stream.name
  rw [hmessage] at hheld honce
  have hpos := length_pos_iff.mpr hheld
  omega

/-- One vertex with one stream. -/
def oneEdge : ISBWriterOrchestrator where
  config := [{ partitions := 1, streams := [⟨"a-0", "a", 0⟩] }]
  writers := ["a-0"]
  hash := String.length

/-- The first publish gets lost, the repeated one is stored and confirmed. -/
theorem oneCopy_of_success_oneEdge :
    let message : TaggedMessage := { eventTime := 0, id := ⟨"in", "1-0", 0⟩ }
    let actions := [WriteAction.asyncWrite false false true false, .paf true,
      .write false true true false]
    (copies (exec (act oneEdge 0) (ISBWriteTask.execute oneEdge message, fun _ => []) actions).2
      message.id.text "a-0").length = 1 :=
  oneCopy_of_success oneEdge { eventTime := 0, id := ⟨"in", "1-0", 0⟩ } rfl 0 (fun _ => [])
    (fun _ => by simp [copies])
    [.asyncWrite false false true false, .paf true, .write false true true false]
    (by decide) (by decide) 0 _ ⟨"a-0", "a", 0⟩ rfl (by decide) (by decide) (by decide)

/-- The first publish is stored and its confirmation gets lost; the repeated one carries no
identity, so the stream holds the message twice when the task marks it as successful. -/
theorem lostConfirmation_twoCopies :
    let message : TaggedMessage := { eventTime := 0, id := ⟨"in", "1-0", 0⟩ }
    let actions := [WriteAction.asyncWrite false true true false, .paf false,
      .write false true true false]
    let s := exec (act oneEdge 0) (ISBWriteTask.execute oneEdge message, fun _ => []) actions
    s.1.phase = .done .success ∧ oneEdge.target message oneEdge.config[0] = some ⟨"a-0", "a", 0⟩ ∧
      (0, .discarded) ∉ s.1.receipts ∧ (copies s.2 message.id.text "a-0").length = 2 := by
  decide

end Numaflow.Isb
