import Numaflow.Reduce.Wal.Append
import Numaflow.Reduce.Wal.Compactor

/-!
# The tasks around the logs of a vertex

The data writer and the GC writer append to their logs.  The compactor works in cycles:
it notes the create time of the newest data segment, reads all GC events, streams the
compaction log and then the data log through a reader task, sends the records to keep
to the compaction writer, asks it to rotate after each segment and deletes the segment,
and at last deletes GC segments.  The first cycle after a start replays the records it
keeps; only then does the data writer start.

A run ends orderly when the writers have handled all requests, and a new process boots
from the frozen segments.  No task fails.

Main results: `LogRun.step_effect`, `LogRun.Named.effect`.
-/

namespace Numaflow.Wal

open Lib List SegmentLog

/-- A record of the data log or of the compaction log. -/
abbrev DataRecord := Stamped ReadMessage

/-- A record of the GC log. -/
abbrev GcRecord := Stamped GcEvent

/-! ## Reading a log -/

/-- What the reader of a log streams: its records, and a mark at the end of every
segment. -/
inductive SegmentEntry where
  | dataEntry (record : DataRecord)
  | cmdFileSwitch (createTime : Nat)
deriving DecidableEq, Repr

/-- Capacity of the channel from the reader. -/
def readerCapacity : Nat := 128

/-- Read a segment. -/
def readSegment (file : SegmentFile ReadMessage) : List SegmentEntry :=
  file.records.map .dataEntry ++ [.cmdFileSwitch file.createTime]

/-- Read all frozen segments of a log, in the order of their create times. -/
def streamingRead (log : SegmentLog ReadMessage) : List SegmentEntry :=
  log.files.flatMap readSegment

namespace SegmentEntry

/-- The record of an entry. -/
def record? : SegmentEntry → Option DataRecord
  | .dataEntry record => some record
  | .cmdFileSwitch _ => none

/-- The segment that ends with an entry. -/
def ended? : SegmentEntry → Option Nat
  | .dataEntry _ => none
  | .cmdFileSwitch createTime => some createTime

/-- The records of a stream. -/
def records (entries : List SegmentEntry) : List DataRecord :=
  entries.filterMap record?

/-- The segments of a stream. -/
def switches (entries : List SegmentEntry) : List Nat :=
  entries.filterMap ended?

@[simp]
theorem records_append (as bs : List SegmentEntry) : records (as ++ bs) = records as ++ records bs :=
  filterMap_append

@[simp]
theorem switches_append (as bs : List SegmentEntry) :
    switches (as ++ bs) = switches as ++ switches bs :=
  filterMap_append

@[simp]
theorem records_dataEntry (record : DataRecord) (entries : List SegmentEntry) :
    records (.dataEntry record :: entries) = record :: records entries :=
  rfl

@[simp]
theorem switches_dataEntry (record : DataRecord) (entries : List SegmentEntry) :
    switches (.dataEntry record :: entries) = switches entries :=
  rfl

@[simp]
theorem records_cmdFileSwitch (createTime : Nat) (entries : List SegmentEntry) :
    records (.cmdFileSwitch createTime :: entries) = records entries :=
  rfl

@[simp]
theorem switches_cmdFileSwitch (createTime : Nat) (entries : List SegmentEntry) :
    switches (.cmdFileSwitch createTime :: entries) = createTime :: switches entries :=
  rfl

variable (file : SegmentFile ReadMessage)

theorem records_readSegment : records (readSegment file) = file.records := by
  have hdata : (file.records.map dataEntry).filterMap record? = file.records := by
    rw [filterMap_map]
    exact filterMap_some
  simp [readSegment, records, record?, hdata]

theorem switches_readSegment : switches (readSegment file) = [file.createTime] := by
  have hdata : (file.records.map dataEntry).filterMap ended? = [] := by
    simp [filterMap_map, ended?, Function.comp_def]
  simp [readSegment, switches, ended?, hdata]

variable (log : SegmentLog ReadMessage)

/-- The reader streams exactly the records of the frozen segments. -/
theorem records_streamingRead : records ([] ++ streamingRead log) = log.frozen := by
  unfold streamingRead frozen
  rw [nil_append]
  induction log.files with
  | nil => rfl
  | cons _ _ ih => simp [records_readSegment, ih]

theorem switches_streamingRead :
    switches (streamingRead log) = log.files.map SegmentFile.createTime := by
  unfold streamingRead
  induction log.files with
  | nil => rfl
  | cons _ _ ih => simp [switches_readSegment, ih]

end SegmentEntry

/-! ## Cycles -/

/-- What a cycle has read at its start. -/
structure Cycle where
  newestDataMicros : Option Nat
  gcEvents : List GcEvent
  compaction : Compaction
  scannedFiles : List Nat

/-- What is left to do for an entry: replay its record, or delete its segment. -/
inductive Pending where
  | replay (record : DataRecord)
  | removeFile (createTime : Nat)
deriving DecidableEq, Repr

/-- How far a cycle has come. -/
inductive CyclePhase where
  | idle
  | started (newestDataMicros : Option Nat)
  | listing (cycle : Cycle) (walType : WalType)
  | reading (cycle : Cycle) (walType : WalType) (pending : Option Pending)
      (entries unread : List SegmentEntry)
  | deleting (cycle : Cycle) (allGcSorted gcFiles : List Nat)
  | failed

/-- The segment that is to be deleted. -/
def Pending.removed? : Pending → Option Nat
  | .replay _ => none
  | .removeFile createTime => some createTime

namespace CyclePhase

/-- What the running cycle has read at its start. -/
def cycle? : CyclePhase → Option Cycle
  | .listing cycle _ => some cycle
  | .reading cycle _ _ _ _ => some cycle
  | .deleting cycle _ _ => some cycle
  | _ => none

/-- The records of the segments being read that the cycle has not processed yet: those
in the reader's channel and those still in the files. -/
def records : CyclePhase → List DataRecord
  | .reading _ _ _ entries unread => SegmentEntry.records (entries ++ unread)
  | _ => []

/-- The data segments being read. -/
def listedData : CyclePhase → List Nat
  | .reading _ .data pending entries unread =>
    (pending.bind Pending.removed?).toList ++ SegmentEntry.switches (entries ++ unread)
  | _ => []

/-- The compaction segments being read. -/
def listedCompaction : CyclePhase → List Nat
  | .reading _ .data _ _ _ => []
  | .reading _ _ pending entries unread =>
    (pending.bind Pending.removed?).toList ++ SegmentEntry.switches (entries ++ unread)
  | _ => []

end CyclePhase

/-- A request to the compaction writer. -/
inductive CompactionRequest where
  | writeGcEvent (record : DataRecord)
  | rotate
deriving DecidableEq, Repr

/-- The record of a request. -/
def CompactionRequest.record? : CompactionRequest → Option DataRecord
  | .writeGcEvent record => some record
  | .rotate => none

/-- Sort file names by their create times. -/
def sortFilenames (names : List Nat) : List Nat :=
  names.insertionSort (· ≤ ·)

/-- The create time of the segment after `g`. -/
def successorCreateMicros (sorted : List Nat) (g : Nat) : Option Nat :=
  (sorted.idxOf? g).bind fun pos => sorted[pos + 1]?

/-- Whether a GC segment is deleted: the newest data segment was created after the
segment's successor. -/
def shouldDelete (newestDataMicros : Option Nat) (allGcSorted : List Nat) (g : Nat) : Bool :=
  match newestDataMicros, successorCreateMicros allGcSorted g with
  | some newest, some successor => decide (successor < newest)
  | _, _ => false

/-! ## The tasks -/

/-- A step of one of the tasks. -/
inductive LogAction where
  | openSegment (walType : WalType)
  | writeMessage (msg : Message)
  | writeGcEvent (entry : GcEventEntry)
  | flush (walType : WalType)
  | rotate (walType : WalType)
  | handle
  | read
  | tick
  | advance
  | restart
deriving DecidableEq, Repr

/-- The three logs, the channel to the compaction writer and the compactor.  The rest
is the history: all records written to the data log, the records that were dropped and
the GC events because of which they were, the GC events read by each cycle, what was
replayed since the start, the records and the decision of the first cycle, and the
deleted GC segments. -/
structure LogRun where
  kind : WindowKind
  clock : Nat
  data : SegmentLog ReadMessage
  gc : SegmentLog GcEvent
  compaction : SegmentLog ReadMessage
  channel : List CompactionRequest
  phase : CyclePhase
  boot : Bool
  appended : List DataRecord
  dropped : List (List GcEvent × DataRecord)
  cycles : List (List GcEvent)
  replayed : List DataRecord
  bootRecords : List DataRecord
  bootCompaction : Option Compaction
  removed : List (SegmentFile GcEvent)

namespace LogRun

/-- The first start, with an empty directory. -/
def init (kind : WindowKind) : LogRun where
  kind := kind
  clock := 1
  data := .empty
  gc := .empty
  compaction := SegmentLog.empty.openSegment 0
  channel := []
  phase := .idle
  boot := true
  appended := []
  dropped := []
  cycles := []
  replayed := []
  bootRecords := []
  bootCompaction := none
  removed := []

section

variable (s : LogRun)

/-- Start a writer; the data writer waits for the end of the first cycle. -/
def openSegment : WalType → LogRun
  | .data =>
    if s.boot then s
    else { s with data := s.data.openSegment s.clock, clock := s.clock + 1 }
  | .gc => { s with gc := s.gc.openSegment s.clock, clock := s.clock + 1 }
  | .compact => s

/-- Write a message to the data log.  The writer stops at a message that cannot be
stored, which is not modelled. -/
def writeMessage (msg : Message) : LogRun :=
  match s.data.writer, encode msg with
  | some _, .ok record =>
    { s with
      data := s.data.writeData ⟨s.clock, record⟩
      clock := s.clock + 1
      appended := s.appended ++ [⟨s.clock, record⟩] }
  | _, _ => s

/-- Write an event to the GC log. -/
def writeGcEvent (entry : GcEventEntry) : LogRun :=
  match s.gc.writer with
  | some _ => { s with gc := s.gc.writeData ⟨s.clock, entry.toEvent⟩, clock := s.clock + 1 }
  | none => s

/-- Flush the file of a writer. -/
def flush : WalType → LogRun
  | .data => { s with data := s.data.flush }
  | .gc => { s with gc := s.gc.flush }
  | .compact => { s with compaction := s.compaction.flush }

/-- Rotate the file of a writer. -/
def rotate : WalType → LogRun
  | .data => { s with data := s.data.rotateFile s.clock, clock := s.clock + 1 }
  | .gc => { s with gc := s.gc.rotateFile s.clock, clock := s.clock + 1 }
  | .compact => { s with compaction := s.compaction.rotateFile s.clock, clock := s.clock + 1 }

/-- The compaction writer handles a request. -/
def handleMessage : LogRun :=
  match s.channel with
  | [] => s
  | .writeGcEvent record :: rest =>
    { s with channel := rest, compaction := s.compaction.writeData record }
  | .rotate :: rest => rotate { s with channel := rest } .compact

/-- The reader sends the next entry, unless its channel is full. -/
def readEntry : LogRun :=
  match s.phase with
  | .reading cycle walType pending entries (entry :: unread) =>
    if entries.length < readerCapacity then
      { s with phase := .reading cycle walType pending (entries ++ [entry]) unread }
    else s
  | _ => s

/-- The create time of the newest data segment, the writer's file included. -/
def newestDataSegmentMicros : Option Nat :=
  s.data.names.max?

/-- Start a cycle. -/
def tick : LogRun :=
  match s.phase with
  | .idle => { s with phase := .started s.newestDataSegmentMicros }
  | _ => s

/-- Read the GC log. -/
def buildCompaction (newestDataMicros : Option Nat) : LogRun :=
  let gcEvents := s.gc.frozen.map Stamped.value
  match s.kind.buildCompaction gcEvents with
  | some compaction =>
    { s with
      phase := .listing
        ⟨newestDataMicros, gcEvents, compaction, s.gc.files.map SegmentFile.createTime⟩ .compact
      cycles := s.cycles ++ [gcEvents]
      bootCompaction := if s.boot then some compaction else s.bootCompaction }
  | none => { s with phase := .failed }

/-- The log of a kind that the compactor reads. -/
def log : WalType → SegmentLog ReadMessage
  | .data => s.data
  | _ => s.compaction

/-- Delete a segment of the log. -/
def removeFile (walType : WalType) (createTime : Nat) : LogRun :=
  match walType with
  | .data => { s with data := s.data.removeFile createTime }
  | _ => { s with compaction := s.compaction.removeFile createTime }

/-- Send a request, unless the channel is full. -/
def send (request : CompactionRequest) (next : CyclePhase) : LogRun :=
  if s.channel.length < channelCapacity then
    { s with channel := s.channel ++ [request], phase := next }
  else s

section

variable (cycle : Cycle) (walType : WalType)

/-- Process an entry of the stream. -/
def processEntry (entry : SegmentEntry)
    (entries unread : List SegmentEntry) : LogRun :=
  match entry with
  | .dataEntry record =>
    match cycle.compaction.shouldRetain record.value with
    | .ok true =>
      s.send (.writeGcEvent record) (.reading cycle walType
        (if s.boot then some (.replay record) else none) entries unread)
    | .ok false =>
      { s with
        phase := .reading cycle walType none entries unread
        dropped := s.dropped ++ [(cycle.gcEvents, record)] }
    | .error _ => { s with phase := .failed }
  | .cmdFileSwitch createTime =>
    s.send .rotate (.reading cycle walType (some (.removeFile createTime)) entries unread)

/-- Do what is left to do for an entry. -/
def processPending (pending : Pending)
    (entries unread : List SegmentEntry) : LogRun :=
  match pending with
  | .replay record =>
    { s with
      phase := .reading cycle walType none entries unread
      replayed := s.replayed ++ [record] }
  | .removeFile createTime =>
    { s.removeFile walType createTime with
      phase := .reading cycle walType none entries unread }

/-- The stream of a log has ended.  No GC segment is deleted by the first cycle. -/
def finishLog : LogRun :=
  match walType with
  | .data =>
    if s.boot then { s with phase := .idle, boot := false }
    else { s with
      phase := .deleting cycle (sortFilenames s.gc.names) cycle.scannedFiles }
  | _ => { s with phase := .listing cycle .data }

end

/-- Delete the next GC segment, or keep it. -/
def deleteGcFiles (cycle : Cycle) (allGcSorted : List Nat) (g : Nat)
    (gcFiles : List Nat) : LogRun :=
  if shouldDelete cycle.newestDataMicros allGcSorted g then
    { s with
      gc := s.gc.removeFile g
      phase := .deleting cycle allGcSorted gcFiles
      removed := s.removed ++ s.gc.files.filter fun file => decide (file.createTime = g) }
  else { s with phase := .deleting cycle allGcSorted gcFiles }

/-- The next step of the compactor. -/
def advance : LogRun :=
  match s.phase with
  | .idle => s
  | .started newestDataMicros => s.buildCompaction newestDataMicros
  | .listing cycle walType =>
    { s with phase := .reading cycle walType none [] (streamingRead (s.log walType)) }
  | .reading cycle walType (some pending) entries unread =>
    s.processPending cycle walType pending entries unread
  | .reading cycle walType none (entry :: entries) unread =>
    s.processEntry cycle walType entry entries unread
  | .reading cycle walType none [] [] => s.finishLog cycle walType
  | .reading _ _ none [] (_ :: _) => s
  | .deleting cycle allGcSorted (g :: gcFiles) => s.deleteGcFiles cycle allGcSorted g gcFiles
  | .deleting _ _ [] => { s with phase := .idle }
  | .failed => s

/-- The records a start finds. -/
def stoppedRecords : List DataRecord :=
  s.compaction.stop.frozen ++ s.data.stop.frozen

/-- Shut down between two cycles, after the compaction writer has handled all requests,
and start again. -/
def restart : LogRun :=
  match s.phase, s.boot, s.channel with
  | .idle, false, [] =>
    { s with
      clock := s.clock + 1
      data := s.data.stop
      gc := s.gc.stop
      compaction := s.compaction.stop.openSegment s.clock
      boot := true
      replayed := []
      bootRecords := s.stoppedRecords
      bootCompaction := none }
  | _, _, _ => s

/-- Perform a step; a step that is not due changes nothing. -/
def step : LogAction → LogRun
  | .openSegment walType => s.openSegment walType
  | .writeMessage msg => s.writeMessage msg
  | .writeGcEvent entry => s.writeGcEvent entry
  | .flush walType => s.flush walType
  | .rotate walType => s.rotate walType
  | .handle => s.handleMessage
  | .read => s.readEntry
  | .tick => s.tick
  | .advance => s.advance
  | .restart => s.restart

/-! ## What a step can do -/

/-- The steps that change the state. -/
inductive Effect (s : LogRun) : LogRun → Prop where
  | quiet : Effect s s
  | openData (hboot : s.boot = false) :
      Effect s { s with data := s.data.openSegment s.clock, clock := s.clock + 1 }
  | openGc : Effect s { s with gc := s.gc.openSegment s.clock, clock := s.clock + 1 }
  | writeMessage {msg : Message} {record : ReadMessage}
      (hwriter : s.data.writer.isSome = true) (hencode : encode msg = .ok record) :
      Effect s { s with
        data := s.data.writeData ⟨s.clock, record⟩
        clock := s.clock + 1
        appended := s.appended ++ [⟨s.clock, record⟩] }
  | writeGcEvent (entry : GcEventEntry) (hwriter : s.gc.writer.isSome = true) :
      Effect s { s with gc := s.gc.writeData ⟨s.clock, entry.toEvent⟩, clock := s.clock + 1 }
  | flush (walType : WalType) : Effect s (s.flush walType)
  | rotateData : Effect s { s with data := s.data.rotateFile s.clock, clock := s.clock + 1 }
  | rotateGc : Effect s { s with gc := s.gc.rotateFile s.clock, clock := s.clock + 1 }
  | rotateCompaction {rest : List CompactionRequest}
      (requests : List CompactionRequest) (hchannel : s.channel = requests ++ rest)
      (hrequests : requests.filterMap CompactionRequest.record? = []) :
      Effect s { s with
        channel := rest
        compaction := s.compaction.rotateFile s.clock
        clock := s.clock + 1 }
  | handleWrite {rest : List CompactionRequest} {record : DataRecord}
      (hchannel : s.channel = .writeGcEvent record :: rest) :
      Effect s { s with channel := rest, compaction := s.compaction.writeData record }
  | read {cycle : Cycle} {walType : WalType} {pending : Option Pending}
      {entries : List SegmentEntry} {entry : SegmentEntry} {unread : List SegmentEntry}
      (hphase : s.phase = .reading cycle walType pending entries (entry :: unread)) :
      Effect s { s with phase := .reading cycle walType pending (entries ++ [entry]) unread }
  | tick (hphase : s.phase = .idle) :
      Effect s { s with phase := .started s.newestDataSegmentMicros }
  | scan {newestDataMicros : Option Nat}
      {compaction : Compaction} (hphase : s.phase = .started newestDataMicros)
      (hbuild : s.kind.buildCompaction (s.gc.frozen.map Stamped.value) = some compaction) :
      Effect s { s with
        phase := .listing ⟨newestDataMicros, s.gc.frozen.map Stamped.value, compaction,
          s.gc.files.map SegmentFile.createTime⟩ .compact
        cycles := s.cycles ++ [s.gc.frozen.map Stamped.value]
        bootCompaction := if s.boot then some compaction else s.bootCompaction }
  | unreadable {newestDataMicros : Option Nat} (hphase : s.phase = .started newestDataMicros)
      (hbuild : s.kind.buildCompaction (s.gc.frozen.map Stamped.value) = none) :
      Effect s { s with phase := .failed }
  | list {cycle : Cycle} {walType : WalType} (hphase : s.phase = .listing cycle walType) :
      Effect s { s with
        phase := .reading cycle walType none [] (streamingRead (s.log walType)) }
  | replay {cycle : Cycle} {walType : WalType} {record : DataRecord}
      {entries unread : List SegmentEntry}
      (hphase : s.phase = .reading cycle walType (some (.replay record)) entries unread) :
      Effect s { s with
        phase := .reading cycle walType none entries unread
        replayed := s.replayed ++ [record] }
  | removeFile {cycle : Cycle} {walType : WalType} {createTime : Nat}
      {entries unread : List SegmentEntry}
      (hphase : s.phase = .reading cycle walType (some (.removeFile createTime)) entries unread) :
      Effect s { s.removeFile walType createTime with
        phase := .reading cycle walType none entries unread }
  | keep {cycle : Cycle} {walType : WalType} {record : DataRecord}
      {entries unread : List SegmentEntry}
      (hphase : s.phase = .reading cycle walType none (.dataEntry record :: entries) unread)
      (hretain : cycle.compaction.shouldRetain record.value = .ok true)
      (hroom : s.channel.length < channelCapacity) :
      Effect s { s with
        channel := s.channel ++ [.writeGcEvent record]
        phase := .reading cycle walType (if s.boot then some (.replay record) else none)
          entries unread }
  | drop {cycle : Cycle} {walType : WalType} {record : DataRecord}
      {entries unread : List SegmentEntry}
      (hphase : s.phase = .reading cycle walType none (.dataEntry record :: entries) unread)
      (hretain : cycle.compaction.shouldRetain record.value = .ok false) :
      Effect s { s with
        phase := .reading cycle walType none entries unread
        dropped := s.dropped ++ [(cycle.gcEvents, record)] }
  | fail {cycle : Cycle} {walType : WalType} {record : DataRecord}
      {entries unread : List SegmentEntry} {error : String}
      (hphase : s.phase = .reading cycle walType none (.dataEntry record :: entries) unread)
      (hretain : cycle.compaction.shouldRetain record.value = .error error) :
      Effect s { s with phase := .failed }
  | fileSwitch {cycle : Cycle} {walType : WalType} {createTime : Nat}
      {entries unread : List SegmentEntry}
      (hphase : s.phase = .reading cycle walType none (.cmdFileSwitch createTime :: entries)
        unread) (hroom : s.channel.length < channelCapacity) :
      Effect s { s with
        channel := s.channel ++ [.rotate]
        phase := .reading cycle walType (some (.removeFile createTime)) entries unread }
  | finishCompaction {walType : WalType} {cycle : Cycle} (hwal : walType ≠ .data)
      (hphase : s.phase = .reading cycle walType none [] []) :
      Effect s { s with phase := .listing cycle .data }
  | finishBoot {cycle : Cycle} (hphase : s.phase = .reading cycle .data none [] [])
      (hboot : s.boot = true) : Effect s { s with phase := .idle, boot := false }
  | finishData {cycle : Cycle}
      (hphase : s.phase = .reading cycle .data none [] []) (hboot : s.boot = false) :
      Effect s { s with
        phase := .deleting cycle (sortFilenames s.gc.names) cycle.scannedFiles }
  | deleteFile {cycle : Cycle} {allGcSorted : List Nat} {g : Nat} {gcFiles : List Nat}
      (hphase : s.phase = .deleting cycle allGcSorted (g :: gcFiles))
      (hdelete : shouldDelete cycle.newestDataMicros allGcSorted g = true) :
      Effect s { s with
        gc := s.gc.removeFile g
        phase := .deleting cycle allGcSorted gcFiles
        removed := s.removed ++ s.gc.files.filter fun file => decide (file.createTime = g) }
  | keepFile {cycle : Cycle} {allGcSorted : List Nat} {g : Nat} {gcFiles : List Nat}
      (hphase : s.phase = .deleting cycle allGcSorted (g :: gcFiles)) :
      Effect s { s with phase := .deleting cycle allGcSorted gcFiles }
  | finishCycle {cycle : Cycle} {allGcSorted : List Nat}
      (hphase : s.phase = .deleting cycle allGcSorted []) : Effect s { s with phase := .idle }
  | restart (hphase : s.phase = .idle) (hboot : s.boot = false) (hchannel : s.channel = []) :
      Effect s { s with
        clock := s.clock + 1
        data := s.data.stop
        gc := s.gc.stop
        compaction := s.compaction.stop.openSegment s.clock
        boot := true
        replayed := []
        bootRecords := s.stoppedRecords
        bootCompaction := none }

variable {cycle : Cycle} {walType : WalType} {entry : SegmentEntry}
  {entries unread : List SegmentEntry}

theorem processEntry_effect
    (hphase : s.phase = .reading cycle walType none (entry :: entries) unread) :
    Effect s (s.processEntry cycle walType entry entries unread) := by
  cases entry with
  | dataEntry =>
    simp only [processEntry]
    split
    · by_cases hroom : s.channel.length < channelCapacity
      · rw [send, if_pos hroom]
        exact .keep hphase ‹_› hroom
      · rw [send, if_neg hroom]
        exact .quiet
    · exact .drop hphase ‹_›
    · exact .fail hphase ‹_›
  | cmdFileSwitch =>
    simp only [processEntry, send]
    split_ifs with hroom
    · exact .fileSwitch hphase hroom
    · exact .quiet

theorem advance_effect : Effect s s.advance := by
  unfold advance
  split
  · exact .quiet
  · rename_i newestDataMicros hphase
    cases hbuild : s.kind.buildCompaction (s.gc.frozen.map Stamped.value) with
    | some =>
      simp only [buildCompaction, hbuild]
      exact .scan hphase hbuild
    | none =>
      simp only [buildCompaction, hbuild]
      exact .unreadable hphase hbuild
  · rename_i hphase
    exact .list hphase
  · rename_i pending entries unread hphase
    cases pending with
    | replay => exact .replay hphase
    | removeFile => exact .removeFile hphase
  · rename_i hphase
    exact s.processEntry_effect hphase
  · rename_i cycle walType hphase
    cases walType with
    | data =>
      simp only [finishLog]
      split_ifs with hboot
      · exact .finishBoot hphase hboot
      · exact .finishData hphase (by simpa using hboot)
    | gc | compact => exact .finishCompaction (by simp) hphase
  · exact .quiet
  · rename_i hphase
    unfold deleteGcFiles
    split_ifs with hdelete
    · exact .deleteFile hphase hdelete
    · exact .keepFile hphase
  · rename_i hphase
    exact .finishCycle hphase
  · exact .quiet

/-- What a step can do. -/
theorem step_effect (a : LogAction) : Effect s (s.step a) := by
  cases a with
  | openSegment walType =>
    cases walType with
    | data =>
      simp only [step, openSegment]
      split_ifs with hboot
      · exact .quiet
      · exact .openData (by simpa using hboot)
    | gc => exact .openGc
    | compact => exact .quiet
  | writeMessage =>
    simp only [step, writeMessage]
    split
    · rename_i hwriter hencode
      exact .writeMessage (by simp [hwriter]) hencode
    · exact .quiet
  | writeGcEvent entry =>
    simp only [step, writeGcEvent]
    split
    · rename_i hwriter
      exact .writeGcEvent entry (by simp [hwriter])
    · exact .quiet
  | flush walType => exact .flush walType
  | rotate walType =>
    cases walType with
    | data => exact .rotateData
    | gc => exact .rotateGc
    | compact => exact .rotateCompaction [] rfl rfl
  | handle =>
    simp only [step, handleMessage]
    split
    · exact .quiet
    · rename_i hchannel
      exact .handleWrite hchannel
    · rename_i rest hchannel
      exact .rotateCompaction [.rotate] hchannel rfl
  | read =>
    simp only [step, readEntry]
    split
    · rename_i hphase
      split_ifs
      · exact .read hphase
      · exact .quiet
    · exact .quiet
  | tick =>
    simp only [step, tick]
    split
    · rename_i hphase
      exact .tick hphase
    · exact .quiet
  | advance => exact s.advance_effect
  | restart =>
    simp only [step, restart]
    split
    · rename_i hphase hboot hchannel
      exact .restart hphase hboot hchannel
    · exact .quiet

end

/-! ## Create times -/

/-- The create times of all logs are ordered, the segments being read are older than the
files of the writers, and the compaction writer runs. -/
structure Named (s : LogRun) : Prop where
  data : s.data.Named s.clock
  gc : s.gc.Named s.clock
  compaction : s.compaction.Named s.clock
  listedData : s.data.Older s.clock s.phase.listedData
  listedCompaction : s.compaction.Older s.clock s.phase.listedCompaction
  writing : s.compaction.writer.isSome = true

namespace Named

variable {s s' : LogRun}

theorem init (kind : WindowKind) : (init kind).Named where
  data := .empty
  gc := .empty
  compaction := Named.empty.openSegment
  listedData := .nil
  listedCompaction := .nil
  writing := rfl

variable (h : s.Named)

include h

/-- Only the compactor moves, and it reads no further segment. -/
theorem of_phase (hclock : s'.clock = s.clock) (hdata : s'.data = s.data)
    (hgc : s'.gc = s.gc) (hcompaction : s'.compaction = s.compaction)
    (hlistedData : s'.phase.listedData ⊆ s.phase.listedData)
    (hlistedCompaction : s'.phase.listedCompaction ⊆ s.phase.listedCompaction) : s'.Named := by
  refine ⟨?_, ?_, ?_, ?_, ?_, hcompaction ▸ h.writing⟩
  · rw [hdata, hclock]
    exact h.data
  · rw [hgc, hclock]
    exact h.gc
  · rw [hcompaction, hclock]
    exact h.compaction
  · rw [hdata, hclock]
    exact h.listedData.subset hlistedData
  · rw [hcompaction, hclock]
    exact h.listedCompaction.subset hlistedCompaction

variable {cycle : Cycle} {walType : WalType} {entries unread entries' unread' : List SegmentEntry}
  {pending pending' : Option Pending} {createTime : Nat}

/-- The compactor takes an entry of the stream, or the reader sends one. -/
theorem of_reading (hclock : s'.clock = s.clock) (hdata : s'.data = s.data)
    (hgc : s'.gc = s.gc) (hcompaction : s'.compaction = s.compaction)
    (hphase : s.phase = .reading cycle walType pending entries unread)
    (hphase' : s'.phase = .reading cycle walType pending' entries' unread')
    (hlisted : (pending'.bind Pending.removed?).toList ++
        SegmentEntry.switches (entries' ++ unread') ⊆
      (pending.bind Pending.removed?).toList ++ SegmentEntry.switches (entries ++ unread)) :
    s'.Named := by
  refine h.of_phase hclock hdata hgc hcompaction ?_ ?_
  · rw [hphase, hphase']
    cases walType with
    | data => exact hlisted
    | gc | compact => exact nil_subset _
  · rw [hphase, hphase']
    cases walType with
    | data => exact nil_subset _
    | gc | compact => exact hlisted

/-- The compactor stops reading. -/
theorem of_not_reading (hclock : s'.clock = s.clock) (hdata : s'.data = s.data)
    (hgc : s'.gc = s.gc) (hcompaction : s'.compaction = s.compaction)
    (hlistedData : s'.phase.listedData = [])
    (hlistedCompaction : s'.phase.listedCompaction = []) : s'.Named := by
  refine h.of_phase hclock hdata hgc hcompaction ?_ ?_
  · simp [hlistedData]
  · simp [hlistedCompaction]

theorem list : Named { s with
      phase := .reading cycle walType none [] (streamingRead (s.log walType)) } := by
  have hdata := Older.of_named h.data
  have hcompaction := Older.of_named h.compaction
  rw [← SegmentEntry.switches_streamingRead] at hdata hcompaction
  cases walType with
  | data => exact ⟨h.data, h.gc, h.compaction, hdata, .nil, h.writing⟩
  | gc | compact => exact ⟨h.data, h.gc, h.compaction, .nil, hcompaction, h.writing⟩

theorem removeFile
    (hphase : s.phase = .reading cycle walType (some (.removeFile createTime)) entries unread) :
    Named { s.removeFile walType createTime with
      phase := .reading cycle walType none entries unread } := by
  have hlistedData := h.listedData
  have hlistedCompaction := h.listedCompaction
  rw [hphase] at hlistedData hlistedCompaction
  cases walType with
  | data =>
    exact ⟨h.data.removeFile createTime, h.gc, h.compaction,
      hlistedData.subset (subset_cons_self _ _), .nil, h.writing⟩
  | gc | compact =>
    exact ⟨h.data, h.gc, h.compaction.removeFile createTime, .nil,
      hlistedCompaction.subset (subset_cons_self _ _), h.writing⟩

theorem flush (walType : WalType) : (s.flush walType).Named := by
  cases walType with
  | data =>
    refine ⟨h.data.flush, h.gc, h.compaction, ?_, h.listedCompaction, h.writing⟩
    exact h.listedData.congr (Nat.le_refl _) fun c hc => .inl (s.data.current_flush ▸ hc)
  | gc => exact ⟨h.data, h.gc.flush, h.compaction, h.listedData, h.listedCompaction, h.writing⟩
  | compact =>
    refine ⟨h.data, h.gc, h.compaction.flush, h.listedData, ?_,
      (s.compaction.isSome_flush).trans h.writing⟩
    exact h.listedCompaction.congr (Nat.le_refl _)
      fun c hc => .inl (s.compaction.current_flush ▸ hc)

/-- Every step keeps the create times ordered. -/
theorem effect (heffect : Effect s s') : s'.Named := by
  have hdata := h.data.mono (Nat.le_succ _)
  have hgc := h.gc.mono (Nat.le_succ _)
  have hcompaction := h.compaction.mono (Nat.le_succ _)
  have hlistedData : s.data.Older (s.clock + 1) s.phase.listedData :=
    h.listedData.congr (Nat.le_succ _) fun c hc => .inl hc
  have hlistedCompaction : s.compaction.Older (s.clock + 1) s.phase.listedCompaction :=
    h.listedCompaction.congr (Nat.le_succ _) fun c hc => .inl hc
  cases heffect with
  | quiet => exact h
  | openData =>
    exact ⟨h.data.openSegment, hgc, hcompaction, h.listedData.openSegment, hlistedCompaction,
      h.writing⟩
  | openGc =>
    exact ⟨hdata, h.gc.openSegment, hcompaction, hlistedData, hlistedCompaction, h.writing⟩
  | writeMessage =>
    refine ⟨h.data.writeData (Nat.le_succ _) _, hgc, hcompaction, ?_, hlistedCompaction,
      h.writing⟩
    exact h.listedData.congr (Nat.le_succ _)
      fun c hc => .inl (s.data.current_writeData _ ▸ hc)
  | writeGcEvent =>
    exact ⟨hdata, h.gc.writeData (Nat.le_succ _) _, hcompaction, hlistedData, hlistedCompaction,
      h.writing⟩
  | flush walType => exact h.flush walType
  | rotateData =>
    exact ⟨h.data.rotateFile, hgc, hcompaction, h.listedData.rotateFile, hlistedCompaction,
      h.writing⟩
  | rotateGc =>
    exact ⟨hdata, h.gc.rotateFile, hcompaction, hlistedData, hlistedCompaction, h.writing⟩
  | rotateCompaction =>
    exact ⟨hdata, hgc, h.compaction.rotateFile, hlistedData, h.listedCompaction.rotateFile,
      (s.compaction.isSome_rotateFile _).trans h.writing⟩
  | handleWrite =>
    refine ⟨h.data, h.gc, h.compaction.writeData (Nat.le_refl _) _, h.listedData, ?_,
      (s.compaction.isSome_writeData _).trans h.writing⟩
    exact h.listedCompaction.congr (Nat.le_refl _)
      fun c hc => .inl (s.compaction.current_writeData _ ▸ hc)
  | read hphase => exact h.of_reading rfl rfl rfl rfl hphase rfl (by simp)
  | tick | scan | unreadable | fail
  | finishCompaction | finishBoot | finishData | keepFile
  | finishCycle => exact h.of_not_reading rfl rfl rfl rfl rfl rfl
  | list => exact h.list
  | replay hphase | fileSwitch hphase =>
    exact h.of_reading rfl rfl rfl rfl hphase rfl (by simp [Pending.removed?])
  | removeFile hphase => exact h.removeFile hphase
  | keep hphase =>
    refine h.of_reading rfl rfl rfl rfl hphase rfl ?_
    split_ifs <;> simp [Pending.removed?]
  | drop hphase =>
    exact h.of_reading rfl rfl rfl rfl hphase rfl (by simp)
  | deleteFile =>
    exact ⟨h.data, h.gc.removeFile _, h.compaction, .nil, .nil, h.writing⟩
  | restart hphase =>
    have hidle : ∀ {l : SegmentLog ReadMessage}, l.Older (s.clock + 1) s.phase.listedData := by
      intro l
      rw [hphase]
      exact .nil
    have hidle' : ∀ {l : SegmentLog ReadMessage},
        l.Older (s.clock + 1) s.phase.listedCompaction := by
      intro l
      rw [hphase]
      exact .nil
    exact ⟨h.data.stop.mono (Nat.le_succ _), h.gc.stop.mono (Nat.le_succ _),
      h.compaction.stop.openSegment, hidle, hidle', isSome_openSegment _ _⟩

end Named

end LogRun
end Numaflow.Wal
