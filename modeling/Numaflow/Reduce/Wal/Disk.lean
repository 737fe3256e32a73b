import Numaflow.Lib.Frame
import Numaflow.Lib.Text
import Numaflow.Reduce.Wal.Segment

/-!
# Segment files on the disk

A segment writer appends length-prefixed records to a buffered file of its directory.
The name of a file holds the type of the log, an index and the time of its creation.
A rotation flushes the file, adds `.frozen` to its name and opens the next one; a
file without payload is not rotated.  The replay lists the frozen files of a type, sorts
them by what it reads from their names and reads one after the other.

Main results: `parseSegmentCreateMicros_of_toList`, `listed_frozen`,
`listed_segmentFileName`, `BufWriter.content_writeAll`.
-/

namespace Numaflow.Wal

open Lib List

namespace WalType

def segmentPrefix : WalType → String
  | .data => "data"
  | .gc => "gc"
  | .compact => "compaction"

/-- No type has a suffix. -/
def segmentSuffix : WalType → String
  | .data => ""
  | .gc => ""
  | .compact => ""

end WalType

/-- The raw data of a record; a machine cannot hold more bytes. -/
abbrev Bytes := { data : List UInt8 // data.length < 2 ^ 63 }

/-- Microseconds since the epoch, which the clock gives as a signed word; a time before the
epoch stops the program. -/
abbrev Micros := Fin (2 ^ 63)

/-- The files of a directory. -/
abbrev Directory := HashMap String (List UInt8)

namespace Disk

/-! ## File names -/

section

variable (walType : WalType)

/-- The name of a new segment. -/
def segmentFileName (idx : Nat) (timestamp : Nat) : String :=
  walType.segmentPrefix ++ "_" ++ toString idx ++ "_" ++ toString timestamp ++ ".wal" ++
    walType.segmentSuffix

section

variable (fileName : String)

/-- The name after a rotation.  A suffix would be cut off first, but no type has one. -/
def frozenFileName : String :=
  fileName ++ ".frozen"

/-- The creation time in a file name, or zero. -/
def parseSegmentCreateMicros : Nat :=
  let parts := fileName.toList.splitOn '_'
  let tsPart := (parts[2]?).getD ['0']
  (parseUnsigned (2 ^ 64) ((tsPart.splitOn '.').headD ['0'])).getD 0

/-- The index in a file name, or zero. -/
def parseSegmentFileIndex : Nat :=
  (((fileName.toList.splitOn '_')[1]?).bind (parseUnsigned (2 ^ 32))).getD 0

/-- What follows the last dot of a file name, if something stands before the dot. -/
def fileExtension : Option (List Char) :=
  match (fileName.toList.splitOn '.').reverse with
  | [] => none
  | ext :: before => if before = [] ∨ before = [[]] then none else some ext

/-- A file is a frozen segment of the given type. -/
def listed : Bool :=
  walType.segmentPrefix.toList.isPrefixOf fileName.toList &&
    fileExtension fileName == some "frozen".toList

end

/-- The frozen segments of a type in a listing of the directory. -/
def listFiles (listing : List (Σ _ : String, List UInt8)) :
    List (Σ _ : String, List UInt8) :=
  listing.filter fun file => listed walType file.1

/-- Earlier files come first; files of one time are ordered by their index. -/
def nameLe (a b : String) : Bool :=
  let tsA := parseSegmentCreateMicros a
  let tsB := parseSegmentCreateMicros b
  decide (tsA < tsB ∨ tsA = tsB ∧ parseSegmentFileIndex a ≤ parseSegmentFileIndex b)

def sortFilenames (files : List (Σ _ : String, List UInt8)) : List (Σ _ : String, List UInt8) :=
  files.mergeSort fun a b => nameLe a.1 b.1

/-! ## Replay -/

/-- An entry that the replay sends. -/
inductive SegmentEntry where
  | dataEntry (size : Nat) (data : List UInt8)
  | cmdFileSwitch (filename : String)
deriving DecidableEq, Repr

/-- The entry for a record. -/
def SegmentEntry.ofData (data : List UInt8) : SegmentEntry :=
  .dataEntry data.length data

/-- The entries of a file, and the error when its last record is cut. -/
def readSegment (content : List UInt8) : List SegmentEntry × Option String :=
  let (records, cut) := readFrames content
  (records.map SegmentEntry.ofData,
    cut.map fun dataLen =>
      "expected to read " ++ toString dataLen ++ ", but couldn't read_exact early eof")

/-- Read files one after the other, up to the first error. -/
def readSegments : List (Σ _ : String, List UInt8) → List SegmentEntry × Option String
  | [] => ([], none)
  | file :: files =>
    match readSegment file.2 with
    | (entries, some error) => (entries, some error)
    | (entries, none) =>
      let (rest, error) := readSegments files
      (entries ++ .cmdFileSwitch file.1 :: rest, error)

/-- Replay all segments of a type. -/
def streamingRead (listing : List (Σ _ : String, List UInt8)) :
    List SegmentEntry × Option String :=
  readSegments (sortFilenames (listFiles walType listing))

end

/-! ## Buffered files -/

/-- A file and the bytes that are not yet written to it. -/
structure BufWriter where
  inner : List UInt8
  buf : List UInt8
deriving DecidableEq, Repr

namespace BufWriter

/-- The size of the buffer. -/
def capacity : Nat := 8192

/-- An empty file. -/
def new : BufWriter := ⟨[], []⟩

section

variable (w : BufWriter)

def flush : BufWriter :=
  ⟨w.inner ++ w.buf, []⟩

/-- Write to the buffer, or past it when the data do not fit. -/
def writeAll (data : List UInt8) : BufWriter :=
  let w := if capacity < w.buf.length + data.length then w.flush else w
  if capacity ≤ data.length then { w with inner := w.inner ++ data }
  else { w with buf := w.buf ++ data }

/-- All bytes that were written. -/
def content : List UInt8 :=
  w.inner ++ w.buf

@[simp]
theorem content_flush : w.flush.content = w.content :=
  append_nil _

/-- Data that pass the buffer find it empty. -/
@[simp]
theorem content_writeAll (data : List UInt8) :
    (w.writeAll data).content = w.content ++ data := by
  unfold writeAll
  by_cases hflush : capacity < w.buf.length + data.length
  · split_ifs
    · simp [content, flush]
    · simp [content, flush]
  · split_ifs with hpast
    · have hempty : w.buf = [] := eq_nil_of_length_eq_zero (by omega)
      simp [content, hempty]
    · simp [content]

end

end BufWriter

/-! ## The writer -/

/-- The clock readings of one round of the writer: for the age of the segment, for the name
of a new one and for its creation time. -/
structure Clock where
  now : Int
  micros : Micros
  created : Int
deriving DecidableEq, Repr

/-- A writer with the directory it writes to.  Times are in nanoseconds. -/
structure SegmentWriteActor where
  walType : WalType
  basePath : Directory
  currentFileName : String
  createTime : Int
  currentFileBuf : BufWriter
  currentSize : Nat
  fileIndex : Nat
  maxFileSize : Nat
  maxSegmentAge : Int

/-- What the writer is told to do: the commands of its channel, a time without commands, and
the flush timer. -/
inductive Event where
  | write (data : Bytes)
  | rotate (onSize : Bool)
  | timeout
  | tick
deriving DecidableEq, Repr

/-- The time after which a segment is stale. -/
def rotateIfStaleDuration : Int := 30 * 1000000000

namespace SegmentWriteActor

/-- Open the first segment. -/
def streamingWrite (walType : WalType) (basePath : Directory) (maxFileSize : Nat)
    (maxSegmentAge : Int) (clock : Clock) : SegmentWriteActor :=
  let name := segmentFileName walType 0 clock.micros
  { walType
    basePath := basePath.insert name []
    currentFileName := name
    createTime := clock.created
    currentFileBuf := .new
    currentSize := 0
    fileIndex := 0
    maxFileSize
    maxSegmentAge }

section

variable (a : SegmentWriteActor)

/-- Give the current file a new content. -/
def setBuf (buf : BufWriter) : SegmentWriteActor :=
  { a with
    basePath := a.basePath.insert a.currentFileName buf.inner
    currentFileBuf := buf }

def flush : SegmentWriteActor :=
  a.setBuf a.currentFileBuf.flush

/-- Rename the current file. -/
def freeze : SegmentWriteActor :=
  { a with
    basePath := (a.basePath.erase a.currentFileName).insert (frozenFileName a.currentFileName)
      a.currentFileBuf.inner }

/-- Open the next file. -/
def openSegment (clock : Clock) : SegmentWriteActor :=
  let name := segmentFileName a.walType (a.fileIndex + 1) clock.micros
  { a with
    basePath := a.basePath.insert name []
    currentFileName := name
    createTime := clock.created
    currentFileBuf := .new
    currentSize := 0
    fileIndex := a.fileIndex + 1 }

/-- Freeze the current file, unless it holds no payload, and open the next one. -/
def rotateFile (openNew : Bool) (clock : Clock) : SegmentWriteActor :=
  if a.currentSize = 0 then a
  else if openNew then a.flush.freeze.openSegment clock
  else a.flush.freeze

/-- Append a record to the current file. -/
def append (data : Bytes) : SegmentWriteActor :=
  { a.setBuf ((a.currentFileBuf.writeAll (leBytes 8 data.1.length)).writeAll data.1) with
    currentSize := a.currentSize + data.1.length }

/-- Append a record, in a new file when the current one is too large or too old. -/
def writeData (data : Bytes) (clock : Clock) : SegmentWriteActor :=
  let a := if 0 < a.currentSize ∧ a.maxFileSize ≤ a.currentSize + data.1.length then
    a.rotateFile true clock else a
  let a := if 0 < a.currentSize ∧ a.maxSegmentAge < clock.now - a.createTime then
    a.rotateFile true clock else a
  a.append data

/-- Rotate a stale file, flush any other. -/
def flushAndRotate (clock : Clock) : SegmentWriteActor :=
  if rotateIfStaleDuration < clock.now - a.createTime then a.rotateFile true clock else a.flush

/-- One round of the writer. -/
def step (action : Event × Clock) : SegmentWriteActor :=
  match action.1 with
  | .write data => a.writeData data action.2
  | .rotate onSize =>
    if onSize = false ∨ a.maxFileSize ≤ a.currentSize then a.rotateFile true action.2 else a
  | .timeout => a.flushAndRotate action.2
  | .tick => a.flush

/-- The directory after the channel is closed and the writer has rotated its last file. -/
def shutdown (clock : Clock) : Directory :=
  (a.rotateFile false clock).basePath

end

theorem fileIndex_rotateFile {a : SegmentWriteActor} (h : a.currentSize ≠ 0) (clock : Clock) :
    (a.rotateFile true clock).fileIndex = a.fileIndex + 1 := by
  rw [rotateFile, if_neg h]
  rfl

variable (a : SegmentWriteActor)

theorem currentSize_rotateFile (clock : Clock) : (a.rotateFile true clock).currentSize = 0 := by
  by_cases hsize : a.currentSize = 0
  · rw [rotateFile, if_pos hsize]
    exact hsize
  · rw [rotateFile, if_neg hsize]
    rfl

/-- A record goes to the current file or to the one after it; a new file is not rotated
again. -/
theorem writeData_cases (data : Bytes) (clock : Clock) : a.writeData data clock = a.append data ∨
      a.currentSize ≠ 0 ∧ a.writeData data clock = (a.rotateFile true clock).append data := by
  unfold writeData
  by_cases hsize : 0 < a.currentSize ∧ a.maxFileSize ≤ a.currentSize + data.1.length
  · right
    refine ⟨hsize.1.ne', ?_⟩
    rw [if_pos hsize]
    have hfresh := a.currentSize_rotateFile clock
    exact congrArg (append · data) (if_neg fun hold => hold.1.ne' hfresh)
  · rw [if_neg hsize]
    by_cases hage : 0 < a.currentSize ∧ a.maxSegmentAge < clock.now - a.createTime
    · exact .inr ⟨hage.1.ne', congrArg (append · data) (if_pos hage)⟩
    · exact .inl (congrArg (append · data) (if_neg hage))

theorem walType_rotateFile (openNew : Bool) (clock : Clock) :
    (a.rotateFile openNew clock).walType = a.walType := by
  unfold rotateFile
  split_ifs <;> rfl

/-- A writer keeps the type of its log. -/
theorem walType_step (action : Event × Clock) : (a.step action).walType = a.walType := by
  obtain ⟨event, clock⟩ := action
  cases event with
  | write data =>
    simp only [step]
    rcases a.writeData_cases data clock with hstep | ⟨-, hstep⟩
    · rw [hstep]
      rfl
    · rw [hstep]
      exact a.walType_rotateFile true clock
  | rotate =>
    simp only [step]
    split_ifs
    · exact a.walType_rotateFile true clock
    · rfl
  | timeout =>
    simp only [step, flushAndRotate]
    split_ifs
    · exact a.walType_rotateFile true clock
    · rfl
  | tick => rfl

end SegmentWriteActor

/-! ## Names are read back -/

variable {timestamp : Nat} {exts : List (List Char)} {name : String}

/-- The creation time stands between the second underscore and the first dot. -/
theorem parseSegmentCreateMicros_of_toList {walType : WalType} {idx : Nat}
    (hname : name.toList = ['_'].intercalate [walType.segmentPrefix.toList, (toString idx).toList,
      ['.'].intercalate ((toString timestamp).toList :: exts)])
    (hunderscore : '_' ∉ ['.'].intercalate ((toString timestamp).toList :: exts))
    (hdot : ∀ ext ∈ exts, '.' ∉ ext) (h : timestamp < 2 ^ 64) :
    parseSegmentCreateMicros name = timestamp := by
  have hletters : '_' ∉ walType.segmentPrefix.toList := by cases walType <;> decide
  have hparts : name.toList.splitOn '_' = [walType.segmentPrefix.toList, (toString idx).toList,
      ['.'].intercalate ((toString timestamp).toList :: exts)] := by
    rw [hname]
    exact splitOn_intercalate '_' (by simpa [hletters] using hunderscore) (by simp)
  have htime : (['.'].intercalate ((toString timestamp).toList :: exts)).splitOn '.' =
      (toString timestamp).toList :: exts := by
    refine splitOn_intercalate '.' (forall_mem_cons.mpr ⟨?_, hdot⟩) (by simp)
    rw [toList_toString]
    exact notMem_toDigits (by decide) timestamp
  rw [parseSegmentCreateMicros, hparts]
  simp only [getElem?_cons_succ, getElem?_cons_zero, Option.getD_some, htime,
    headD_cons, parseUnsigned_toString h]

variable (walType : WalType)

theorem toList_segmentFileName (idx timestamp : Nat) :
    (segmentFileName walType idx timestamp).toList =
      ['_'].intercalate [walType.segmentPrefix.toList, (toString idx).toList,
        ['.'].intercalate [(toString timestamp).toList, "wal".toList]] := by
  cases walType <;> simp [segmentFileName, WalType.segmentSuffix, intercalate]

theorem toList_frozen (idx timestamp : Nat) :
    (frozenFileName (segmentFileName walType idx timestamp)).toList =
      ['_'].intercalate [walType.segmentPrefix.toList, (toString idx).toList,
        ['.'].intercalate [(toString timestamp).toList, "wal".toList, "frozen".toList]] := by
  rw [frozenFileName, String.toList_append, toList_segmentFileName]
  simp [intercalate]

theorem parseSegmentCreateMicros_segmentFileName (idx : Nat) (h : timestamp < 2 ^ 64) :
    parseSegmentCreateMicros (segmentFileName walType idx timestamp) = timestamp :=
  parseSegmentCreateMicros_of_toList (toList_segmentFileName walType idx timestamp)
    (by simp [intercalate]) (by simp) h

theorem parseSegmentCreateMicros_frozen (idx : Nat) (h : timestamp < 2 ^ 64) :
    parseSegmentCreateMicros (frozenFileName (segmentFileName walType idx timestamp)) =
      timestamp :=
  parseSegmentCreateMicros_of_toList (toList_frozen walType idx timestamp)
    (by simp [intercalate]) (by simp) h

/-- The part of a name before its first dot. -/
def stem (walType : WalType) (idx timestamp : Nat) : List Char :=
  ['_'].intercalate
    [walType.segmentPrefix.toList, (toString idx).toList, (toString timestamp).toList]

section

variable (idx timestamp : Nat)

theorem dot_notMem_stem : '.' ∉ stem walType idx timestamp := by
  have hletters : '.' ∉ walType.segmentPrefix.toList := by cases walType <;> decide
  have hdigits := fun n => notMem_toDigits (c := '.') (by decide) n
  simp [stem, intercalate, hletters, hdigits]

theorem fileExtension_frozen :
    fileExtension (frozenFileName (segmentFileName walType idx timestamp)) =
      some "frozen".toList := by
  have hname : (frozenFileName (segmentFileName walType idx timestamp)).toList =
      ['.'].intercalate [stem walType idx timestamp, "wal".toList, "frozen".toList] := by
    rw [toList_frozen]
    simp [stem, intercalate]
  rw [fileExtension, hname, splitOn_intercalate '.' (by simp [dot_notMem_stem]) (by simp)]
  simp

theorem fileExtension_segmentFileName :
    fileExtension (segmentFileName walType idx timestamp) = some "wal".toList := by
  have hname : (segmentFileName walType idx timestamp).toList =
      ['.'].intercalate [stem walType idx timestamp, "wal".toList] := by
    rw [toList_segmentFileName]
    simp [stem, intercalate]
  have hstem : stem walType idx timestamp ≠ [] := by simp [stem, intercalate]
  rw [fileExtension, hname, splitOn_intercalate '.' (by simp [dot_notMem_stem]) (by simp)]
  simp [hstem]

/-- A frozen segment is listed for its type. -/
theorem listed_frozen :
    listed walType (frozenFileName (segmentFileName walType idx timestamp)) = true := by
  rw [listed, fileExtension_frozen, toList_frozen]
  simp [intercalate]

end

/-- A segment that is still open is not listed. -/
theorem listed_segmentFileName (walType walType' : WalType) (idx timestamp : Nat) :
    listed walType (segmentFileName walType' idx timestamp) = false := by
  rw [listed, fileExtension_segmentFileName]
  simp

end Disk
end Numaflow.Wal
