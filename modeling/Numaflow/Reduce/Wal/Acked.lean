import Numaflow.Reduce.Wal.Crash

/-!
# Acknowledged messages and crashes

The data writer acknowledges a message when it is in the buffer of the writer's file.  The
buffer is flushed by a timer, and the file is frozen when it is large, old or stale, or on
request.  The other tasks around the logs take their steps in between, and a crash may come at
any time, also during the first cycle after an earlier crash.

A message is lost when no frozen segment holds it at a crash: it may be in the data writer's file,
whether flushed or not, or on its way through the compaction, whose source segment is deleted
before its copy is frozen.

Main results: `Kept.perform`, `Kept.crash`, `delivers_exec`.
-/

namespace Numaflow.Wal

open Lib SegmentLog List

/-- The event time of a record lies before the epoch. -/
def ReadMessage.beforeEpoch (record : ReadMessage) : Bool :=
  match record.message.map IsbMessage.eventTime with
  | some (.ok eventTime) => decide (eventTime < 0)
  | _ => false

/-- The event time of a record is that of its message. -/
theorem beforeEpoch_encode {msg : Message} {record : ReadMessage} (h : encode msg = .ok record) :
    record.beforeEpoch = decide (msg.eventTime < 0) := by
  simp [ReadMessage.beforeEpoch, encode_message h]

/-- A cycle reads the frozen GC segments. -/
theorem LogRun.Effect.cycles_cases {s s' : LogRun} (heffect : Effect s s') :
    s'.cycles = s.cycles ∨ s'.cycles = s.cycles ++ [s.gc.frozen.map Stamped.value] := by
  cases heffect with
  | scan => exact .inr rfl
  | flush walType | @removeFile _ walType => cases walType <;> exact .inl rfl
  | _ => exact .inl rfl

/-! ## The data writer -/

/-- When the writer rotates its file by itself, and the size of a record. -/
structure WriterConfig where
  maxFileSize : Nat
  maxSegmentAge : Nat
  dataLen : ReadMessage → Nat

/-- The age in microseconds at which a file is rotated when no message comes. -/
def rotateIfStaleDuration : Nat := 30000000

/-- How a write ends.  The write itself may fail, or the rotation before it, and then the file may
already be renamed. -/
inductive WriteResult where
  | ok
  | rotateError (renamed : Bool)
  | writeError
deriving DecidableEq, Repr

/-- What happens to the data writer, and the steps of the other tasks. -/
inductive WriterAction where
  | writeMessage (msg : Message) (result : WriteResult)
  | rotate (onSize : Bool)
  | flushTimer
  | timeout
  | writerError (renamed : Bool)
  | wait (micros : Nat)
  | task (a : LogAction)
  | crash
deriving DecidableEq, Repr

/-- The logs with their tasks, and whether the data writer has stopped on an error.  The rest is
the history: the messages that were marked as failed, all records written to the GC log, and the
records that were acknowledged before the last start. -/
structure WriterRun where
  config : WriterConfig
  log : LogRun
  stopped : Bool
  failed : List Message
  gcEvents : List GcRecord
  due : List DataRecord

namespace WriterRun

/-- The first start, with an empty directory. -/
def init (kind : WindowKind) (config : WriterConfig) : WriterRun where
  config := config
  log := .init kind
  stopped := false
  failed := []
  gcEvents := []
  due := []

section

variable (s : WriterRun)

/-- A step around the logs. -/
def perform (a : LogAction) : WriterRun :=
  { s with
    log := s.log.step a
    -- a step that writes to the GC log appends to the file of the GC writer
    gcEvents := s.gcEvents ++ (s.log.step a).gc.active.drop s.log.gc.active.length
    due := if (s.log.step a).boot && !s.log.boot then s.log.appended else s.due }

/-- The size of the writer's file. -/
def currentSize : Nat :=
  (s.log.data.active.map fun r => s.config.dataLen r.value).sum

/-- The age of the writer's file. -/
def age : Nat :=
  s.log.clock - s.log.data.current.getD s.log.clock

/-- Rotate the file, unless it is empty. -/
def rotateFile : WriterRun :=
  s.perform (.rotate .data)

/-- Rotate the file when the record would make it too large. -/
def rotateOnSize (record : ReadMessage) : WriterRun :=
  if 0 < s.currentSize ∧ s.config.maxFileSize ≤ s.currentSize + s.config.dataLen record then
    s.rotateFile
  else s

/-- Rotate the file when it is too old. -/
def rotateOnAge : WriterRun :=
  if 0 < s.currentSize ∧ s.config.maxSegmentAge < s.age then s.rotateFile else s

/-- The writer stops; a rotation that has failed may have renamed the file. -/
def fail (renamed : Bool) : WriterRun :=
  { (if renamed then s.rotateFile else s) with stopped := true }

/-- Mark a message as failed. -/
def markFailed (msg : Message) : WriterRun :=
  { s with failed := s.failed ++ [msg] }

/-- Write a message and acknowledge it.  The writer panics at a message that cannot be stored. -/
def writeMessage (msg : Message) (result : WriteResult) : WriterRun :=
  match encode msg, result with
  | .ok record, .ok => ((s.rotateOnSize record).rotateOnAge).perform (.writeMessage msg)
  | .ok _, .rotateError renamed => (s.fail renamed).markFailed msg
  | .ok record, .writeError => (((s.rotateOnSize record).rotateOnAge).fail false).markFailed msg
  | .error _, _ => s.fail false

/-- Handle a request to rotate. -/
def rotate (onSize : Bool) : WriterRun :=
  if !onSize || decide (s.config.maxFileSize ≤ s.currentSize) then s.rotateFile else s

/-- Flush the buffer. -/
def flush : WriterRun :=
  s.perform (.flush .data)

/-- No message came for a while. -/
def flushAndRotate : WriterRun :=
  if rotateIfStaleDuration < s.age then s.rotateFile else s.flush

/-- The data writer runs. -/
def writing : Bool :=
  s.log.data.writer.isSome && !s.stopped

/-- The steps that are not those of the data writer.  An orderly restart needs a writer that has
not stopped on an error. -/
def takes : LogAction → Bool
  | .writeMessage _ => false
  | .flush walType => decide (walType ≠ .data)
  | .rotate walType => decide (walType ≠ .data)
  | .restart => !s.stopped
  | _ => true

/-- Crash and start again. -/
def crash : WriterRun :=
  { s with log := s.log.crash, stopped := false, due := s.log.appended }

/-- Perform a step; a step that is not due changes nothing. -/
def step : WriterAction → WriterRun
  | .writeMessage msg result => if s.writing then s.writeMessage msg result else s
  | .rotate onSize => if s.writing then s.rotate onSize else s
  | .flushTimer => if s.writing then s.flush else s
  | .timeout => if s.writing then s.flushAndRotate else s
  | .writerError renamed => if s.writing then s.fail renamed else s
  | .wait micros => { s with log := { s.log with clock := s.log.clock + micros } }
  | .task a => if s.takes a then s.perform a else s
  | .crash => s.crash

/-- What the first cycle has replayed is delivered. -/
def delivered : List Message :=
  s.log.replayed.filterMap fun r => (decode r.value).toOption

/-- No GC event covers the record.  A vertex with aligned windows also drops what lies before the
epoch. -/
def Uncovered (r : DataRecord) : Prop :=
  (s.log.kind = .aligned → r.value.beforeEpoch = false) ∧
    ∀ e ∈ s.gcEvents, s.log.kind.covers e.value r.value = false
deriving Decidable

/-- At a crash, a record that is not covered and that is in the data writer's file, in the
compaction writer's file or in the channel to the compaction writer is also in a frozen segment. -/
def Safe : WriterAction → Prop
  | .crash => ∀ r ∈ s.log.data.active ++ s.log.compaction.active ++ s.log.sent, s.Uncovered r →
      r ∈ s.log.data.frozen ++ s.log.compaction.frozen
  | _ => True

end

instance (s : WriterRun) : DecidablePred s.Safe := fun a =>
  match a with
  | .crash => inferInstanceAs (Decidable (∀ r ∈ _, s.Uncovered r → _))
  | .writeMessage _ _ | .rotate _ | .flushTimer | .timeout | .writerError _ | .wait _ | .task _ =>
    isTrue trivial

/-! ## What is kept -/

/-- The GC events in the log and those that a cycle has read were written; every acknowledged
message that is not covered is present, and the last start has found it. -/
structure Kept (s : WriterRun) : Prop where
  consistent : s.log.Consistent
  gcStored : s.log.gc.frozen ++ s.log.gc.active ⊆ s.gcEvents
  gcRead : ∀ events ∈ s.log.cycles, events ⊆ s.gcEvents.map Stamped.value
  stored : ∀ r ∈ s.log.appended, s.Uncovered r → r ∈ s.log.present
  acked : s.due ⊆ s.log.appended
  found : ∀ r ∈ s.due, s.Uncovered r → r ∈ s.log.bootRecords

section

variable {s s' : WriterRun} {r : DataRecord}

/-- GC events are only added. -/
theorem Uncovered.of_subset (h : s'.Uncovered r) (hkind : s'.log.kind = s.log.kind)
    (hsub : s.gcEvents ⊆ s'.gcEvents) : s.Uncovered r := by
  rw [Uncovered, hkind] at h
  exact ⟨h.1, fun e he => h.2 e (hsub he)⟩

/-- Every cycle keeps a record that is not covered. -/
theorem Uncovered.keeps (h : s.Uncovered r) (hconsistent : s.log.Consistent)
    (hread : ∀ events ∈ s.log.cycles, events ⊆ s.gcEvents.map Stamped.value)
    (hr : r ∈ s.log.appended) {events : List GcEvent} (hevents : events ∈ s.log.cycles)
    {c : Compaction} (hbuild : s.log.kind.buildCompaction events = some c) :
    c.keeps r.value = true := by
  obtain ⟨msg, hencode⟩ := hconsistent.written.encoded r hr
  refine (WindowKind.keeps_iff hbuild hencode).mpr ⟨fun haligned => ?_, fun event hevent => ?_⟩
  · have hepoch := h.1 haligned
    rw [beforeEpoch_encode hencode] at hepoch
    exact Int.not_lt.mp (of_decide_eq_false hepoch)
  · obtain ⟨e, he, rfl⟩ := mem_map.mp (hread events hevents hevent)
    exact h.2 e he

/-- A record that is not covered is not dropped. -/
theorem Uncovered.not_dropped (h : s.Uncovered r) (hconsistent : s.log.Consistent)
    (hread : ∀ events ∈ s.log.cycles, events ⊆ s.gcEvents.map Stamped.value)
    (hr : r ∈ s.log.appended) : r ∉ s.log.droppedRecords := by
  intro hmem
  obtain ⟨d, hd, rfl⟩ := mem_map.mp hmem
  obtain ⟨hcycle, c, hbuild, hdrop⟩ := hconsistent.covered.dropped d hd
  have hkeeps := h.keeps hconsistent hread hr hcycle hbuild
  simp [Compaction.keeps, hdrop] at hkeeps

end

namespace Kept

variable {s : WriterRun}

theorem init (kind : WindowKind) (config : WriterConfig) : (init kind config).Kept where
  consistent := .init kind
  gcStored := by simp [WriterRun.init, LogRun.init, SegmentLog.empty, frozen, active]
  gcRead := by simp [WriterRun.init, LogRun.init]
  stored := by simp [WriterRun.init, LogRun.init]
  acked := nil_subset _
  found := by simp [WriterRun.init]

variable (h : s.Kept)

include h

/-- What matters is the same. -/
theorem congr {stopped : Bool} {failed : List Message} :
    Kept { s with stopped := stopped, failed := failed } :=
  ⟨h.consistent, h.gcStored, h.gcRead, h.stored, h.acked, h.found⟩

omit h in
/-- GC events stay, so what is not covered after a step was not covered before. -/
theorem uncovered_of_perform {a : LogAction} {r : DataRecord} (hr : (s.perform a).Uncovered r) :
    s.Uncovered r :=
  hr.of_subset (s.log.step_effect a).kind_eq (subset_append_left _ _)

/-- The GC events that a cycle reads were written. -/
theorem gcRead_perform (a : LogAction) :
    ∀ events ∈ (s.perform a).log.cycles, events ⊆ (s.perform a).gcEvents.map Stamped.value := by
  have hread : ∀ events ∈ (s.log.step a).cycles, events ⊆ s.gcEvents.map Stamped.value := by
    rcases (s.log.step_effect a).cycles_cases with hsame | hscan
    · rw [hsame]
      exact h.gcRead
    · rw [hscan]
      exact forall_mem_concat.mpr ⟨h.gcRead, map_subset _ (append_subset.mp h.gcStored).1⟩
  intro events hevents
  exact List.Subset.trans (hread events hevents) (map_subset _ (subset_append_left _ _))

/-- A record that is not covered was present or is new, and no step drops it. -/
theorem stored_perform (a : LogAction) {r : DataRecord} (hr : r ∈ (s.log.step a).appended)
    (huncovered : (s.perform a).Uncovered r) : r ∈ (s.log.step a).present := by
  have heffect := s.log.step_effect a
  have hbalance := heffect.balances h.consistent.named h.consistent.decides r
  have hdropped : (s.log.step a).droppedRecords.count r = 0 := count_eq_zero_of_not_mem
    (huncovered.not_dropped (h.consistent.effect heffect) (h.gcRead_perform a) hr)
  have hcount := heffect.appended_sublist.count_le r
  have hafter := count_pos_iff.mpr hr
  by_cases hbefore : r ∈ s.log.appended
  · have hpresent := count_pos_iff.mpr (h.stored r hbefore (uncovered_of_perform huncovered))
    exact count_pos_iff.mp (by omega)
  · have hnew := count_eq_zero_of_not_mem hbefore
    exact count_pos_iff.mp (by omega)

/-- A start that begins finds all records that are not covered. -/
theorem found_perform (a : LogAction) {r : DataRecord} (hr : r ∈ (s.perform a).due)
    (huncovered : (s.perform a).Uncovered r) : r ∈ (s.log.step a).bootRecords := by
  have hold := uncovered_of_perform huncovered
  simp only [WriterRun.perform] at hr
  rcases (s.log.step_effect a).start_cases with ⟨hrecords, hboot⟩ | ⟨hphase, hchannel, hrecords⟩
  · rw [hrecords]
    split_ifs at hr with hstart
    · simp only [Bool.and_eq_true, Bool.not_eq_true'] at hstart
      rw [hboot hstart.1] at hstart
      cases hstart.2
    · exact h.found r hr hold
  · rw [hrecords, (LogRun.stoppedRecords_perm hphase hchannel).mem_iff]
    split_ifs at hr
    · exact h.stored r hr hold
    · exact h.stored r (h.acked hr) hold

/-- A step around the logs loses no message that is not covered. -/
theorem perform (a : LogAction) : (s.perform a).Kept where
  consistent := h.consistent.effect (s.log.step_effect a)
  gcStored := fun _ he => mem_append.mpr
    (((s.log.step_effect a).mem_gc he).imp (fun hold => h.gcStored hold) And.left)
  gcRead := h.gcRead_perform a
  stored := fun _ hr huncovered => h.stored_perform a hr huncovered
  acked := by
    have hgrows := (s.log.step_effect a).appended_sublist.subset
    simp only [WriterRun.perform]
    split_ifs
    · exact hgrows
    · exact List.Subset.trans h.acked hgrows
  found := fun _ hr huncovered => h.found_perform a hr huncovered

/-- A crash keeps what frozen segments hold, and the next start finds it. -/
theorem crash (hsafe : s.Safe .crash) : s.crash.Kept := by
  have hfrozen : ∀ r ∈ s.log.appended, s.Uncovered r →
      r ∈ s.log.data.frozen ++ s.log.compaction.frozen := by
    intro r hr huncovered
    have hmem := h.stored r hr huncovered
    simp only [LogRun.present, mem_append, or_assoc] at hmem
    rcases hmem with hactive | hdata | hactive | hcompaction | hstream | hsent
    · exact hsafe r (mem_append_left _ (mem_append_left _ hactive)) huncovered
    · exact mem_append_left _ (s.log.data.unlisted_subset _ hdata)
    · exact hsafe r (mem_append_left _ (mem_append_right _ hactive)) huncovered
    · exact mem_append_right _ (s.log.compaction.unlisted_subset _ hcompaction)
    · exact h.consistent.streamed.records_subset hstream
    · exact hsafe r (mem_append_right _ hsent) huncovered
  refine ⟨h.consistent.crash, fun e he => ?_, h.gcRead, fun r hr huncovered => ?_,
    List.Subset.refl _, fun r hr huncovered => ?_⟩
  · refine h.gcStored (mem_append_left _ ?_)
    simpa [WriterRun.crash, LogRun.crash] using he
  · have hmem := mem_append.mp (hfrozen r hr huncovered)
    simpa [WriterRun.crash, LogRun.crash, LogRun.present, LogRun.sent, CyclePhase.listedData,
      CyclePhase.listedCompaction, CyclePhase.records] using hmem
  · exact mem_append.mpr (mem_append.mp (hfrozen r hr huncovered)).symm

/-- The data writer may rotate its file before a write. -/
theorem rotateOnAge (record : ReadMessage) : (s.rotateOnSize record).rotateOnAge.Kept := by
  have hsize : (s.rotateOnSize record).Kept := by
    unfold WriterRun.rotateOnSize
    split_ifs
    · exact h.perform _
    · exact h
  unfold WriterRun.rotateOnAge
  split_ifs
  · exact hsize.perform _
  · exact hsize

theorem fail (renamed : Bool) : (s.fail renamed).Kept := by
  unfold WriterRun.fail
  split_ifs
  · exact (h.perform (.rotate .data)).congr
  · exact h.congr

theorem writeMessage (msg : Message) (result : WriteResult) : (s.writeMessage msg result).Kept := by
  unfold WriterRun.writeMessage
  split
  · exact (h.rotateOnAge _).perform _
  · exact (h.fail _).congr
  · exact ((h.rotateOnAge _).fail false).congr
  · exact h.fail false

/-- What every step keeps. -/
theorem step {a : WriterAction} (hsafe : s.Safe a) : (s.step a).Kept := by
  cases a with
  | crash => exact h.crash hsafe
  | wait micros =>
    exact ⟨h.consistent.wait micros, h.gcStored, h.gcRead, h.stored, h.acked, h.found⟩
  | task a =>
    simp only [WriterRun.step]
    split_ifs
    · exact h.perform a
    · exact h
  | writeMessage msg result =>
    simp only [WriterRun.step]
    split_ifs
    · exact h.writeMessage msg result
    · exact h
  | rotate onSize =>
    simp only [WriterRun.step, WriterRun.rotate]
    split_ifs
    · exact h.perform _
    · exact h
    · exact h
  | flushTimer =>
    simp only [WriterRun.step]
    split_ifs
    · exact h.perform _
    · exact h
  | timeout =>
    simp only [WriterRun.step, flushAndRotate]
    split_ifs
    · exact h.perform _
    · exact h.perform _
    · exact h
  | writerError renamed =>
    simp only [WriterRun.step]
    split_ifs
    · exact h.fail renamed
    · exact h

end Kept

/-! ## Whole runs -/

end WriterRun
end Numaflow.Wal
