import Numaflow.Handle
import Numaflow.Tracker

/-!
# Reading a stream

The reader of a stream takes permits for a whole batch, fetches messages from the buffer,
inserts each of them into the tracker and sends it downstream.  For every message it starts
a task, the wip loop, that waits for the outcome, acks or naks the message, deletes it from
the tracker and gives its permit back.  A message that the tracker knows already is dropped.

The buffer delivers the pending messages with the lowest offsets first.  The offset of a
message is its position in the stream.  A nak makes a message pending again, after a delay
if it carries one.

A message in flight stays there until it is acked or nak'd: the wip loop tells the buffer in
every tick that the message is worked on, so that the ack wait of the buffer never ends.  That
the ack wait ends all the same, since the ticks fail, and that the buffer delivers the message
once more is no action of the model.

Main results: `stateAt_deliver`, `stateAt_settleSlot`, `step_spec`,
`Permits.step`.
-/

namespace Numaflow.Isb

open List

/-! ## The buffer -/

/-- Whether a message of the buffer can be delivered. -/
inductive MessageState where
  | pending
  | delayed
  | inFlight
  | acked
deriving DecidableEq, Repr

/-- A message in the buffer.  The watermark that it got at its first delivery, in
milliseconds, is noted with it; the code does not keep it there. -/
structure BufferSlot where
  typ : MessageType := .data
  eventTime : Int := 0
  state : MessageState := .pending
  firstWatermark : Option Int := none
deriving DecidableEq, Repr

section

variable (slots : List BufferSlot)

/-- The state of the message at an offset. -/
def stateAt (offset : Nat) : Option MessageState :=
  slots[offset]?.map BufferSlot.state

/-- The messages that a fetch of at most `max` messages returns. -/
def deliverable (max : Nat) : List Nat :=
  ((List.range slots.length).filter fun offset => stateAt slots offset = some .pending).take max

/-- Mark messages as in flight. -/
def deliver (offsets : List Nat) : List BufferSlot :=
  slots.mapIdx fun offset slot =>
    if offset ∈ offsets then { slot with state := .inFlight } else slot

/-- Ack or nak a message; the buffer refuses that for a message that is not in flight. -/
def settleSlot (offset : Nat) (state : MessageState) :
    List BufferSlot :=
  slots.modify offset fun slot =>
    if slot.state = .inFlight then { slot with state := state } else slot

/-- The delay of a nak is over. -/
def expire (offset : Nat) : List BufferSlot :=
  slots.modify offset fun slot =>
    if slot.state = .delayed then { slot with state := .pending } else slot

/-- Note the watermark of the first delivery. -/
def noteWatermark (offset : Nat) (watermark : Int) :
    List BufferSlot :=
  slots.modify offset fun slot =>
    { slot with firstWatermark := slot.firstWatermark.or (some watermark) }

end

/-! ## The reader -/

/-- How far a wip loop is: it waits for the outcome, tries to ack or to nak, has stopped
trying, has deleted the message from the tracker, or has given its permit back. -/
inductive WipPhase where
  | waiting
  | acking
  | naking (options : Option NackOptions)
  | deleting
  | releasing
  | ended
deriving DecidableEq, Repr

structure WipLoop where
  offset : Nat
  phase : WipPhase := .waiting
deriving DecidableEq, Repr

namespace WipLoop

/-- The loop will still ack or nak the message. -/
def live (wip : WipLoop) : Bool :=
  match wip.phase with
  | .waiting | .acking | .naking _ => true
  | .deleting | .releasing | .ended => false

/-- The loop holds its permit. -/
def running (wip : WipLoop) : Bool :=
  wip.phase != .ended

/-- The message is still in the tracker. -/
def tracking (wip : WipLoop) : Bool :=
  match wip.phase with
  | .waiting | .acking | .naking _ | .deleting => true
  | .releasing | .ended => false

end WipLoop

/-- How far the reader is in its loop: at its head, waiting for permits, before the fetch, with
a fetched batch, in the middle of the batch, with a message that has its watermark, with a
message that is tracked but not sent, or out of the loop. -/
inductive ReaderPhase where
  | checking
  | acquiring
  | fetching
  | fetched (batch : List Nat)
  | processing (batch : List Nat)
  | attached (offset : Nat) (watermark : Option Int) (batch : List Nat)
  | sending (offset : Nat) (batch : List Nat)
  | stopped
deriving DecidableEq, Repr

structure ISBReader where
  partition : Nat := 0
  batchSize : Nat
  maxAckPending : Nat
  watermarking : Bool := true

/-- The batch is not larger than the number of messages that may be in flight. -/
def ISBReader.batch (r : ISBReader) : Nat :=
  min r.batchSize r.maxAckPending

/-- The buffer, the reader with its permits, and the wip loops in the order of their start. -/
structure ReaderState where
  slots : List BufferSlot := []
  phase : ReaderPhase := .checking
  permits : Nat
  held : Nat := 0
  wips : List WipLoop := []
  cancelled : Bool := false
deriving DecidableEq, Repr

namespace ReaderState

section

variable (s : ReaderState)

/-- The messages of the batch that the reader has not dealt with. -/
def inHand : List Nat :=
  match s.phase with
  | .fetched batch | .processing batch | .sending _ batch => batch
  | .attached offset _ batch => offset :: batch
  | .checking | .acquiring | .fetching | .stopped => []

/-- Leave the batch; the permits that were not passed to wip loops are given back. -/
def leave (phase : ReaderPhase) : ReaderState :=
  { s with phase := phase, permits := s.permits + s.held, held := 0 }

/-- Go on with the next message of the batch, if there is one. -/
def processMessageBatch (batch : List Nat) : ReaderState :=
  if batch = [] then s.leave .checking else { s with phase := .processing batch }

/-- Start the wip loop of a message with one of the permits of the batch. -/
def spawnWipLoop (offset : Nat) : ReaderState :=
  { s with held := s.held - 1, wips := s.wips ++ [⟨offset, .waiting⟩] }

def setPhase (i : Nat) (wip : WipLoop) (phase : WipPhase) : ReaderState :=
  { s with wips := s.wips.set i { wip with phase := phase } }

end

end ReaderState

/-- The reader with the tracker, which it shares with the other readers of the vertex. -/
structure ReadState where
  reader : ReaderState
  tracker : Tracker Int

/-- The result of a call to the buffer. -/
inductive CallResult where
  | ok
  | failed
  | offsetNotFound
deriving DecidableEq, Repr

/-- What happens next: a message is written, the vertex is shut down, the reader takes a
step, a wip loop takes one, or the delay of a nak is over.  A call to the buffer may take
effect or not, whatever its result is. -/
inductive ReaderAction where
  | write (typ : MessageType) (eventTime : Int)
  | cancel
  | isCancelled
  | acquire
  | fetch (max : Nat)
  | handleIdleWatermarks (idleOffset : Option Int)
  | ackWmb (effective : Bool) (result : CallResult)
  | attach (watermark : Int)
  | insert (valid : Bool)
  | send (isOpen : Bool)
  | outcome (i : Nat) (readAck : ReadAck)
  | attempt (i : Nat) (effective : Bool) (result : CallResult)
  | delete (i : Nat)
  | release (i : Nat)
  | expire (offset : Nat)
deriving DecidableEq, Repr

/-- A call that is not retried: it succeeded, the buffer does not know the offset, or the
vertex is shutting down. -/
def endsRetry (cancelled : Bool) (result : CallResult) : Bool :=
  match result with
  | .ok | .offsetNotFound => true
  | .failed => cancelled

/-- What a nak does to a message. -/
def nakState (options : Option NackOptions) : MessageState :=
  if (options.bind NackOptions.delay).any (0 < ·) then .delayed else .pending

namespace ReadState

/-- A call of a wip loop. -/
def callBuffer (s : ReadState) (i : Nat) (wip : WipLoop) (state : MessageState)
    (effective : Bool) (result : CallResult) : ReadState :=
  let slots := if effective then settleSlot s.reader.slots wip.offset state else s.reader.slots
  let reader := { s.reader with slots := slots }
  { s with
    reader :=
      if endsRetry reader.cancelled result then reader.setPhase i wip .deleting else reader }

/-- The next message of the batch is a control message, which the reader acks itself. -/
def stepWmb (s : ReadState) (offset : Nat) (batch : List Nat) (effective : Bool)
    (result : CallResult) : ReadState :=
  let slots := if effective then settleSlot s.reader.slots offset .acked else s.reader.slots
  let reader := { s.reader with slots := slots }
  { s with
    reader := if result = .ok then reader.processMessageBatch batch else reader.leave .stopped }

section

variable (r : ISBReader) (s : ReadState)

/-- Track a message and start its wip loop.  A message that is tracked already is dropped. -/
def stepInsert (offset : Nat) (watermark : Option Int)
    (batch : List Nat) (valid : Bool) : ReadState :=
  if valid then
    match s.tracker.insert r.partition
        ⟨offset, watermark, (s.reader.slots[offset]?.map BufferSlot.eventTime).getD 0⟩ with
    | some tracker =>
      ⟨{ s.reader.spawnWipLoop offset with phase := .sending offset batch }, tracker⟩
    | none => { s with reader := s.reader.processMessageBatch batch }
  else { s with reader := s.reader.leave .stopped }

/-- A step of the reader. -/
def stepReader (action : ReaderAction) : ReadState :=
  match s.reader.phase, action with
  | .checking, .isCancelled =>
    { s with reader.phase := if s.reader.cancelled then .stopped else .acquiring }
  | .acquiring, .acquire =>
    -- a reader that waits for permits does not see a shutdown before the next batch
    if r.batch ≤ s.reader.permits then
      { s with
        reader :=
          { s.reader with
            phase := .fetching
            permits := s.reader.permits - r.batch
            held := r.batch } }
    else s
  | .fetching, .fetch max =>
    let offsets := deliverable s.reader.slots (min max r.batch)
    { s with
      reader :=
        { s.reader with slots := deliver s.reader.slots offsets, phase := .fetched offsets } }
  | .fetched batch, .handleIdleWatermarks idleOffset =>
    let tracker :=
      if batch ≠ [] then s.tracker.setIdleOffset r.partition none
      else if r.watermarking then s.tracker.setIdleOffset r.partition idleOffset
      else s.tracker
    ⟨s.reader.processMessageBatch batch, tracker⟩
  | .processing (offset :: batch), .ackWmb effective result =>
    if s.reader.slots[offset]?.any fun slot => slot.typ = .wmb then
      s.stepWmb offset batch effective result
    else s
  | .processing (offset :: batch), .attach watermark =>
    if s.reader.slots[offset]?.any fun slot => slot.typ = .wmb then s
    else if r.watermarking then
      { s with
        reader :=
          { s.reader with
            slots := noteWatermark s.reader.slots offset watermark
            phase := .attached offset (some (fromTimestampMillis watermark)) batch } }
    else { s with reader.phase := .attached offset none batch }
  | .attached offset watermark batch, .insert valid => s.stepInsert r offset watermark batch valid
  | .sending _ batch, .send isOpen =>
    { s with reader := s.reader.processMessageBatch (if isOpen then batch else []) }
  | _, _ => s

/-- A step of a wip loop. -/
def stepWip (i : Nat) (wip : WipLoop) (action : ReaderAction) :
    ReadState :=
  match wip.phase, action with
  | .waiting, .outcome _ .ack => { s with reader := s.reader.setPhase i wip .acking }
  | .waiting, .outcome _ (.nak options) =>
    { s with reader := s.reader.setPhase i wip (.naking options) }
  | .acking, .attempt _ effective result => s.callBuffer i wip .acked effective result
  | .naking options, .attempt _ effective result =>
    s.callBuffer i wip (nakState options) effective result
  | .deleting, .delete _ =>
    ⟨s.reader.setPhase i wip .releasing, s.tracker.delete r.partition wip.offset⟩
  | .releasing, .release _ =>
    { s with
      reader := { s.reader.setPhase i wip .ended with permits := s.reader.permits + 1 } }
  | _, _ => s

def step (action : ReaderAction) : ReadState :=
  match action with
  | .write typ eventTime =>
    { s with
      reader.slots := s.reader.slots ++ [{ typ := typ, eventTime := eventTime }] }
  | .cancel => { s with reader.cancelled := true }
  | .expire offset => { s with reader.slots := Isb.expire s.reader.slots offset }
  | .outcome i _ | .attempt i _ _ | .delete i | .release i =>
    match s.reader.wips[i]? with
    | some wip => s.stepWip r i wip action
    | none => s
  | _ => s.stepReader r action

end

/-- Nothing has been read. -/
def new (r : ISBReader) : ReadState :=
  ⟨{ permits := r.maxAckPending }, Tracker.new⟩

end ReadState

/-! ## What the operations do to the buffer -/

variable {state : MessageState}

section

variable {slots : List BufferSlot} {offset i : Nat}

section

variable (slots : List BufferSlot)

theorem stateAt_append (slot : BufferSlot) (i : Nat) :
    stateAt (slots ++ [slot]) i = if i = slots.length then some slot.state else stateAt slots i := by
  unfold stateAt
  split_ifs with hi
  · simp [hi]
  · rw [getElem?_append]
    split_ifs with hlt
    · rfl
    · rw [getElem?_eq_none (by simp; omega), getElem?_eq_none (by omega)]

/-- What a fetch does to the messages of the buffer. -/
theorem stateAt_deliver (offsets : List Nat) (i : Nat) : stateAt (deliver slots offsets) i =
      if i ∈ offsets then (stateAt slots i).map fun _ => .inFlight else stateAt slots i := by
  unfold stateAt deliver
  rw [getElem?_mapIdx]
  cases slots[i]? with
  | none => simp
  | some => by_cases hi : i ∈ offsets <;> simp [hi]

/-- A message that is in one state gets another one. -/
theorem stateAt_exchange (offset : Nat) (old new : MessageState) (i : Nat) :
    stateAt (slots.modify offset fun slot =>
      if slot.state = old then { slot with state := new } else slot) i =
      if i = offset ∧ stateAt slots i = some old then some new else stateAt slots i := by
  unfold stateAt
  rw [getElem?_modify]
  cases slots[i]? with
  | none => simp
  | some slot =>
    by_cases hi : offset = i
    · by_cases hstate : slot.state = old <;> simp [hi, hstate]
    · simp [hi, Ne.symm hi]

/-- What a call of a wip loop does to the messages of the buffer. -/
theorem stateAt_settleSlot (offset : Nat) (state : MessageState) (i : Nat) :
    stateAt (settleSlot slots offset state) i =
      if i = offset ∧ stateAt slots i = some .inFlight then some state else stateAt slots i :=
  stateAt_exchange ..

theorem stateAt_expire (offset i : Nat) : stateAt (expire slots offset) i =
      if i = offset ∧ stateAt slots i = some .delayed then some .pending else stateAt slots i :=
  stateAt_exchange ..

/-- What a call does, which may take effect or not. -/
theorem stateAt_call (effective : Bool) (slots : List BufferSlot) (offset : Nat)
    (state : MessageState) (i : Nat) :
    stateAt (if effective then settleSlot slots offset state else slots) i =
      if effective = true ∧ i = offset ∧ stateAt slots i = some .inFlight then some state
      else stateAt slots i := by
  cases effective <;> simp [stateAt_settleSlot]

@[simp]
theorem stateAt_noteWatermark (offset : Nat) (watermark : Int) (i : Nat) :
    stateAt (noteWatermark slots offset watermark) i = stateAt slots i := by
  unfold stateAt noteWatermark
  rw [getElem?_modify]
  cases slots[i]? with
  | none => simp
  | some => by_cases hi : offset = i <;> simp [hi]

/-- No message gets in flight or gets a delay, and no ack is undone. -/
structure Quiet (slots slots' : List BufferSlot) : Prop where
  inFlight : ∀ i, stateAt slots' i = some .inFlight → stateAt slots i = some .inFlight
  acked : ∀ i, stateAt slots i = some .acked → stateAt slots' i = some .acked
  delayed : ∀ i, stateAt slots' i = some .delayed → stateAt slots i = some .delayed

theorem Quiet.refl : Quiet slots slots :=
  ⟨fun _ => id, fun _ => id, fun _ => id⟩

end

variable {slots' : List BufferSlot}

/-- Messages that are not acked may become acked or pending. -/
theorem Quiet.of_stateAt
    (h : ∀ i, stateAt slots' i = stateAt slots i ∨ stateAt slots i ≠ some .acked ∧
      (stateAt slots' i = some .acked ∨ stateAt slots' i = some .pending)) : Quiet slots slots' := by
  refine ⟨fun i hi => ?_, fun i hi => ?_, fun i hi => ?_⟩
  · rcases h i with hsame | ⟨-, hi' | hi'⟩
    · exact hsame ▸ hi
    all_goals cases hi.symm.trans hi'
  · exact ((h i).resolve_right fun hne => hne.1 hi).trans hi
  · rcases h i with hsame | ⟨-, hi' | hi'⟩
    · exact hsame ▸ hi
    all_goals cases hi.symm.trans hi'

section

variable (slots : List BufferSlot)

theorem Quiet.append (typ : MessageType) (eventTime : Int) :
    Quiet slots (slots ++ [{ typ := typ, eventTime := eventTime }]) := by
  refine .of_stateAt fun i => ?_
  rw [stateAt_append]
  split_ifs with hi
  · exact .inr ⟨by simp [hi, stateAt], .inr rfl⟩
  · exact .inl rfl

theorem Quiet.expire (offset : Nat) : Quiet slots (expire slots offset) := by
  refine .of_stateAt fun i => ?_
  rw [stateAt_expire]
  split_ifs with hi
  · exact .inr ⟨by simp [hi.2], .inr rfl⟩
  · exact .inl rfl

theorem Quiet.call (effective : Bool) (slots : List BufferSlot) (offset : Nat)
    (hstate : state = .acked ∨ state = .pending) :
    Quiet slots (if effective then settleSlot slots offset state else slots) := by
  refine .of_stateAt fun i => ?_
  rw [stateAt_call]
  split_ifs with hi
  · exact .inr ⟨by simp [hi.2.2], hstate.imp (congrArg some) (congrArg some)⟩
  · exact .inl rfl

theorem Quiet.noteWatermark (offset : Nat) (watermark : Int) :
    Quiet slots (noteWatermark slots offset watermark) :=
  ⟨fun i hi => by simpa using hi, fun i hi => by simpa using hi, fun i hi => by simpa using hi⟩

end

theorem mem_deliverable {max : Nat} (h : i ∈ deliverable slots max) :
    stateAt slots i = some .pending := by
  simpa using (mem_filter.mp (mem_of_mem_take h)).2

/-- The messages of a batch are in the order of their offsets. -/
theorem sorted_deliverable (slots : List BufferSlot) (max : Nat) :
    (deliverable slots max).Pairwise (· < ·) :=
  (pairwise_lt_range.filter _).take

/-- A message is returned only together with the pending messages before it. -/
theorem mem_deliverable_of_lt {max j : Nat} (h : i ∈ deliverable slots max) (hlt : j < i)
    (hj : stateAt slots j = some .pending) : j ∈ deliverable slots max := by
  have hlength : i < slots.length := by
    have hi := (mem_filter.mp (mem_of_mem_take h)).1
    exact mem_range.mp hi
  have hmem : j ∈ (range slots.length).filter fun offset => stateAt slots offset = some .pending :=
    mem_filter.mpr ⟨mem_range.mpr (by omega), by simpa using hj⟩
  have hsorted : ((range slots.length).filter fun offset =>
      stateAt slots offset = some .pending).Pairwise (· < ·) := pairwise_lt_range.filter _
  rw [← take_append_drop max (filter _ _), mem_append] at hmem
  rw [← take_append_drop max (filter _ _), pairwise_append] at hsorted
  refine hmem.resolve_right fun hdrop => ?_
  have := hsorted.2.2 i h j hdrop
  omega

theorem length_deliverable_le (slots : List BufferSlot) (max : Nat) :
    (deliverable slots max).length ≤ max :=
  length_take_le _ _

end

/-! ## What a step can do -/

namespace ReaderState

variable (s : ReaderState) (batch : List Nat)

@[simp]
theorem slots_processMessageBatch : (s.processMessageBatch batch).slots = s.slots := by
  unfold processMessageBatch
  split_ifs <;> rfl

@[simp]
theorem wips_processMessageBatch : (s.processMessageBatch batch).wips = s.wips := by
  unfold processMessageBatch
  split_ifs <;> rfl

@[simp]
theorem inHand_processMessageBatch : (s.processMessageBatch batch).inHand = batch := by
  unfold processMessageBatch
  split_ifs with hbatch
  · exact hbatch.symm
  · rfl

end ReaderState

/-- The call of a wip loop that acks or naks the message. -/
def WipLoop.Calls (wip : WipLoop) (state : MessageState) : Prop :=
  wip.phase = .acking ∧ state = .acked ∨
    ∃ options, wip.phase = .naking options ∧ state = nakState options

/-- A call that is not repeated has taken effect, or it was not needed any more. -/
def TakesEffect (s : ReadState) (i : Nat) (effective : Bool) (result : CallResult) : Prop :=
  endsRetry s.reader.cancelled result = true → effective = true ∨
    ∀ wip ∈ s.reader.wips[i]?, stateAt s.reader.slots wip.offset ≠ some .inFlight
deriving Decidable

/-- What an action does to a state in which it is enabled. -/
inductive Step (r : ISBReader) (s : ReadState) : ReaderAction → ReadState → Prop where
  | same (action : ReaderAction) : Step r s action s
  | write (typ : MessageType) (eventTime : Int) :
      Step r s (.write typ eventTime)
        { s with reader.slots := s.reader.slots ++ [{ typ := typ, eventTime := eventTime }] }
  | cancel : Step r s .cancel { s with reader.cancelled := true }
  | expire (offset : Nat) :
      Step r s (.expire offset) { s with reader.slots := Isb.expire s.reader.slots offset }
  | stop (hphase : s.reader.phase = .checking) :
      Step r s .isCancelled { s with reader.phase := .stopped }
  | enter (hphase : s.reader.phase = .checking) :
      Step r s .isCancelled { s with reader.phase := .acquiring }
  | acquire (hphase : s.reader.phase = .acquiring) (hfree : r.batch ≤ s.reader.permits) :
      Step r s .acquire
        { s with
          reader :=
            { s.reader with
              phase := .fetching
              permits := s.reader.permits - r.batch
              held := r.batch } }
  | fetch (max : Nat) (hphase : s.reader.phase = .fetching) :
      Step r s (.fetch max)
        { s with
          reader :=
            { s.reader with
              slots := deliver s.reader.slots (deliverable s.reader.slots (min max r.batch))
              phase := .fetched (deliverable s.reader.slots (min max r.batch)) } }
  | idle (batch : List Nat) (idleOffset : Option Int) (tracker : Tracker Int)
      (hphase : s.reader.phase = .fetched batch)
      (htracker : tracker = s.tracker ∧ batch = [] ∨
        ∃ x, tracker = s.tracker.setIdleOffset r.partition x ∧ (batch ≠ [] → x = none)) :
      Step r s (.handleIdleWatermarks idleOffset) ⟨s.reader.processMessageBatch batch, tracker⟩
  | wmb (offset : Nat) (batch : List Nat) (effective : Bool) (result : CallResult)
      (hphase : s.reader.phase = .processing (offset :: batch)) :
      Step r s (.ackWmb effective result) (s.stepWmb offset batch effective result)
  | attach (offset : Nat) (batch : List Nat) (watermark : Int)
      (hphase : s.reader.phase = .processing (offset :: batch)) (hwatermarking : r.watermarking = true) :
      Step r s (.attach watermark)
        { s with
          reader :=
            { s.reader with
              slots := noteWatermark s.reader.slots offset watermark
              phase := .attached offset (some (fromTimestampMillis watermark)) batch } }
  | attachNone (offset : Nat) (batch : List Nat) (watermark : Int)
      (hphase : s.reader.phase = .processing (offset :: batch))
      (hwatermarking : r.watermarking = false) :
      Step r s (.attach watermark) { s with reader.phase := .attached offset none batch }
  | track (offset : Nat) (watermark : Option Int) (batch : List Nat) (eventTime : Int)
      (tracker : Tracker Int) (hphase : s.reader.phase = .attached offset watermark batch)
      (hinsert : s.tracker.insert r.partition ⟨offset, watermark, eventTime⟩ = some tracker) :
      Step r s (.insert true)
        ⟨{ s.reader.spawnWipLoop offset with phase := .sending offset batch }, tracker⟩
  | duplicate (offset : Nat) (watermark : Option Int) (batch : List Nat)
      (hphase : s.reader.phase = .attached offset watermark batch)
      (htracked : s.tracker.Tracked r.partition offset) :
      Step r s (.insert true) { s with reader := s.reader.processMessageBatch batch }
  | invalid (offset : Nat) (watermark : Option Int) (batch : List Nat)
      (hphase : s.reader.phase = .attached offset watermark batch) :
      Step r s (.insert false) { s with reader := s.reader.leave .stopped }
  | send (offset : Nat) (batch : List Nat) (isOpen : Bool)
      (hphase : s.reader.phase = .sending offset batch) :
      Step r s (.send isOpen)
        { s with reader := s.reader.processMessageBatch (if isOpen then batch else []) }
  | outcome (i : Nat) (wip : WipLoop) (readAck : ReadAck) (phase : WipPhase)
      (hwip : s.reader.wips[i]? = some wip) (hphase : wip.phase = .waiting)
      (hnext : phase = .acking ∧ readAck = .ack ∨
        ∃ options, phase = .naking options ∧ readAck = .nak options) :
      Step r s (.outcome i readAck) { s with reader := s.reader.setPhase i wip phase }
  | call (i : Nat) (wip : WipLoop) (state : MessageState) (effective : Bool) (result : CallResult)
      (hwip : s.reader.wips[i]? = some wip) (hcalls : wip.Calls state) :
      Step r s (.attempt i effective result) (s.callBuffer i wip state effective result)
  | delete (i : Nat) (wip : WipLoop) (hwip : s.reader.wips[i]? = some wip)
      (hphase : wip.phase = .deleting) :
      Step r s (.delete i)
        ⟨s.reader.setPhase i wip .releasing, s.tracker.delete r.partition wip.offset⟩
  | release (i : Nat) (wip : WipLoop) (hwip : s.reader.wips[i]? = some wip)
      (hphase : wip.phase = .releasing) :
      Step r s (.release i)
        { s with
          reader := { s.reader.setPhase i wip .ended with permits := s.reader.permits + 1 } }

open ReadState

variable {batch : List Nat} {r : ISBReader} {s : ReadState} {offset i : Nat}
  {watermark : Option Int}

theorem step_stepInsert (hphase : s.reader.phase = .attached offset watermark batch)
    (valid : Bool) : Step r s (.insert valid) (s.stepInsert r offset watermark batch valid) := by
  unfold stepInsert
  split_ifs with hvalid
  · subst hvalid
    split
    · rename_i tracker hinsert
      exact .track offset watermark batch _ tracker hphase hinsert
    · rename_i hinsert
      exact .duplicate offset watermark batch hphase (Tracker.insert_eq_none_iff.mp hinsert)
  · rw [Bool.not_eq_true] at hvalid
    subst hvalid
    exact .invalid offset watermark batch hphase

section

variable (r : ISBReader) (s : ReadState)

theorem step_stepReader (action : ReaderAction) :
    Step r s action (s.stepReader r action) := by
  unfold stepReader
  split
  · rename_i hphase
    split_ifs
    · exact .stop hphase
    · exact .enter hphase
  · rename_i hphase
    split_ifs with hfree
    · exact .acquire hphase hfree
    · exact .same _
  · rename_i max hphase
    exact .fetch max hphase
  · rename_i batch idleOffset hphase
    refine .idle batch idleOffset _ hphase ?_
    split_ifs with hbatch hwatermarking
    · exact .inr ⟨none, rfl, fun _ => rfl⟩
    · exact .inr ⟨idleOffset, rfl, fun h => absurd h hbatch⟩
    · exact .inl ⟨rfl, not_not.mp hbatch⟩
  · rename_i offset batch effective result hphase
    split_ifs
    · exact .wmb offset batch effective result hphase
    · exact .same _
  · rename_i offset batch watermark hphase
    split_ifs with htyp hwatermarking
    · exact .same _
    · exact .attach offset batch watermark hphase hwatermarking
    · exact .attachNone offset batch watermark hphase (Bool.eq_false_iff.mpr hwatermarking)
  · rename_i offset watermark batch valid hphase
    exact step_stepInsert hphase valid
  · rename_i offset batch isOpen hphase
    exact .send offset batch isOpen hphase
  · exact .same _

variable {action : ReaderAction}

/-- The steps of a wip loop. -/
theorem step_stepWip
    (haction : (∃ readAck, action = .outcome i readAck) ∨
      (∃ effective result, action = .attempt i effective result) ∨ action = .delete i ∨
        action = .release i) :
    Step r s action (match s.reader.wips[i]? with
        | some wip => s.stepWip r i wip action
        | none => s) := by
  split
  · rename_i wip hwip
    unfold stepWip
    rcases haction with ⟨readAck, rfl⟩ | ⟨effective, result, rfl⟩ | rfl | rfl
    · cases hphase : wip.phase with
      | waiting =>
        cases readAck with
        | ack => exact .outcome i wip .ack .acking hwip hphase (.inl ⟨rfl, rfl⟩)
        | nak options =>
          exact .outcome i wip _ (.naking options) hwip hphase (.inr ⟨options, rfl, rfl⟩)
      | _ => exact .same _
    · cases hphase : wip.phase with
      | acking => exact .call i wip _ effective result hwip (.inl ⟨hphase, rfl⟩)
      | naking options => exact .call i wip _ effective result hwip (.inr ⟨options, hphase, rfl⟩)
      | _ => exact .same _
    · cases hphase : wip.phase with
      | deleting => exact .delete i wip hwip hphase
      | _ => exact .same _
    · cases hphase : wip.phase with
      | releasing => exact .release i wip hwip hphase
      | _ => exact .same _
  · exact .same _

/-- Every step is one of the listed ones. -/
theorem step_spec (action : ReaderAction) :
    Step r s action (s.step r action) := by
  cases action with
  | write typ eventTime => exact .write typ eventTime
  | cancel => exact .cancel
  | expire offset => exact .expire offset
  | outcome i readAck => exact step_stepWip r s (.inl ⟨readAck, rfl⟩)
  | attempt i effective result => exact step_stepWip r s (.inr (.inl ⟨effective, result, rfl⟩))
  | delete => exact step_stepWip r s (.inr (.inr (.inl rfl)))
  | release => exact step_stepWip r s (.inr (.inr (.inr rfl)))
  | isCancelled | acquire | fetch | handleIdleWatermarks | ackWmb
  | attach | insert | send => exact step_stepReader r s _

end

/-! ## Permits -/

/-- The permits are those in the pool, those that the reader holds and one for every wip
loop, and the reader holds enough of them for the rest of its batch. -/
structure Permits (r : ISBReader) (s : ReadState) : Prop where
  account : s.reader.permits + s.reader.held + s.reader.wips.countP WipLoop.running =
    r.maxAckPending
  inHand : s.reader.inHand.length ≤ s.reader.held
  checking : s.reader.phase = .checking → s.reader.held = 0
  acquiring : s.reader.phase = .acquiring → s.reader.held = 0
  fetching : s.reader.phase = .fetching → s.reader.held = r.batch

open WipLoop

section

variable {wip : WipLoop} {slots : List BufferSlot}

theorem countP_running_set {wips : List WipLoop} (hwip : wips[i]? = some wip)
    (hrunning : wip.running = true) (w : WipLoop) :
    (wips.set i w).countP running + (if w.running then 0 else 1) = wips.countP running := by
  obtain ⟨hlt, rfl⟩ := List.getElem?_eq_some_iff.mp hwip
  have hpos := countP_pos_iff.mpr ⟨_, getElem_mem hlt, hrunning⟩
  rw [countP_set hlt]
  split_ifs <;> omega

/-- A wip loop goes on without giving its permit back. -/
theorem Permits.setPhase (h : Permits r s) {phase : WipPhase} (hwip : s.reader.wips[i]? = some wip)
    (hrunning : wip.running = true) (hphase : phase ≠ .ended) {tracker : Tracker Int} :
    Permits r ⟨{ s.reader.setPhase i wip phase with slots := slots }, tracker⟩ := by
  refine ⟨?_, h.inHand, h.checking, h.acquiring, h.fetching⟩
  have hcount := countP_running_set hwip hrunning { wip with phase := phase }
  have hw : running { wip with phase := phase } = true := bne_iff_ne.mpr hphase
  rw [if_pos hw] at hcount
  have haccount := h.account
  simp only [ReaderState.setPhase]
  omega

/-- The reader goes on with a part of what it has in its hands. -/
theorem Permits.processMessageBatch (h : Permits r s) (hbatch : batch.length ≤ s.reader.held)
    {tracker : Tracker Int} :
    Permits r ⟨({ s.reader with slots := slots }).processMessageBatch batch, tracker⟩ := by
  have haccount := h.account
  unfold ReaderState.processMessageBatch
  split_ifs with hempty
  · refine ⟨?_, Nat.zero_le _, fun _ => rfl, nofun, nofun⟩
    simp only [ReaderState.leave]
    omega
  · exact ⟨haccount, hbatch, nofun, nofun, nofun⟩

theorem Permits.stop (h : Permits r s) :
    Permits r { s with reader := ({ s.reader with slots := slots }).leave .stopped } := by
  have haccount := h.account
  refine ⟨?_, Nat.zero_le _, nofun, nofun, nofun⟩
  simp only [ReaderState.leave]
  omega

theorem WipLoop.Calls.running (h : wip.Calls state) : wip.running = true := by
  rcases h with ⟨hphase, -⟩ | ⟨options, hphase, -⟩ <;> simp [WipLoop.running, hphase]

/-- No step creates or loses a permit. -/
theorem Permits.step (h : Permits r s) (action : ReaderAction) : Permits r (s.step r action) := by
  have hstep := step_spec r s action
  generalize s.step r action = s' at hstep
  have haccount := h.account
  have hlength := h.inHand
  cases hstep with
  | same => exact h
  | write typ eventTime | cancel | expire offset =>
    exact ⟨haccount, hlength, h.checking, h.acquiring, h.fetching⟩
  | stop hphase => exact ⟨haccount, Nat.zero_le _, nofun, nofun, nofun⟩
  | enter hphase => exact ⟨haccount, Nat.zero_le _, nofun, fun _ => h.checking hphase, nofun⟩
  | acquire hphase hfree =>
    refine ⟨?_, Nat.zero_le _, nofun, nofun, fun _ => rfl⟩
    have hheld := h.acquiring hphase
    simp only
    omega
  | fetch max hphase =>
    refine ⟨haccount, ?_, nofun, nofun, nofun⟩
    have hheld := h.fetching hphase
    have hle := length_deliverable_le s.reader.slots (min max r.batch)
    simp only [ReaderState.inHand]
    omega
  | idle batch idleOffset tracker hphase htracker =>
    rw [ReaderState.inHand, hphase] at hlength
    exact h.processMessageBatch hlength
  | wmb offset batch effective result hphase =>
    rw [ReaderState.inHand, hphase] at hlength
    unfold stepWmb
    split_ifs
    all_goals first
      | exact h.processMessageBatch (Nat.le_of_succ_le hlength)
      | exact h.stop
  | attach offset batch watermark hphase | attachNone offset batch watermark hphase =>
    rw [ReaderState.inHand, hphase] at hlength
    exact ⟨haccount, hlength, nofun, nofun, nofun⟩
  | track offset watermark batch eventTime tracker hphase hinsert =>
    rw [ReaderState.inHand, hphase, length_cons] at hlength
    refine ⟨?_, ?_, nofun, nofun, nofun⟩
    · simp only [ReaderState.spawnWipLoop, countP_append, countP_singleton, running]
      simp only [bne_iff_ne, ne_eq, reduceCtorEq, not_false_eq_true, if_true]
      omega
    · simp only [ReaderState.inHand, ReaderState.spawnWipLoop]
      omega
  | duplicate offset watermark batch hphase htracked =>
    rw [ReaderState.inHand, hphase] at hlength
    exact h.processMessageBatch (Nat.le_of_succ_le hlength)
  | invalid offset watermark batch hphase => exact h.stop
  | send offset batch isOpen hphase =>
    rw [ReaderState.inHand, hphase] at hlength
    refine h.processMessageBatch ?_
    split_ifs
    · exact hlength
    · exact Nat.zero_le _
  | outcome i wip readAck phase hwip hphase hnext =>
    refine h.setPhase hwip (by simp [running, hphase]) ?_
    rcases hnext with ⟨rfl, -⟩ | ⟨options, rfl, -⟩ <;> exact nofun
  | call i wip state effective result hwip hcalls =>
    unfold callBuffer
    by_cases hends : endsRetry s.reader.cancelled result = true
    · simp only [hends, if_true]
      refine h.setPhase hwip hcalls.running ?_
      exact nofun
    · simp only [hends]
      exact ⟨haccount, hlength, h.checking, h.acquiring, h.fetching⟩
  | delete i wip hwip hphase =>
    refine h.setPhase hwip (by simp [running, hphase]) ?_
    exact nofun
  | release i wip hwip hphase =>
    have hcount := countP_running_set hwip (by simp [running, hphase]) { wip with phase := .ended }
    rw [if_neg (by simp [running])] at hcount
    refine ⟨?_, hlength, h.checking, h.acquiring, h.fetching⟩
    simp only [ReaderState.setPhase]
    omega

theorem Permits.new (r : ISBReader) : Permits r (new r) where
  account := rfl
  inHand := Nat.le_refl 0
  checking _ := rfl
  acquiring h := by cases h
  fetching h := by cases h

end

/-- In every run the permits add up to the limit, which bounds the messages in the hands of the
reader and of the wip loops. -/
theorem permits_conserved (r : ISBReader) (actions : List ReaderAction) :
    let s := (Lib.exec (ReadState.step r) (.new r) actions).reader
    s.permits + s.held + s.wips.countP running = r.maxAckPending ∧
      s.inHand.length + s.wips.countP running ≤ r.maxAckPending := by
  have h : Permits r (Lib.exec (ReadState.step r) (.new r) actions) :=
    Lib.exec_invariant_all (fun _ a h => h.step a) (Permits.new r)
  have hhand := h.inHand
  have haccount := h.account
  refine ⟨haccount, ?_⟩
  omega

end Numaflow.Isb
