import Numaflow.Reduce.Wal.Segment

/-!
# Writing a log in segments

A writer task appends records to a buffered file, whose name holds the time it was
created.  Rotating flushes the file, renames it to a frozen segment and opens a new
one; an empty file is not rotated.  Only frozen segments are ever read back.

Records carry the time they were written at.  The clock is read for every file that is
opened and every record that is written, and never shows the same time twice.

Main results: `SegmentLog.frozen_rotateFile`, `SegmentLog.active_rotateFile`,
`SegmentLog.Named.rotateFile`, `SegmentLog.Timed.rotateFile`.
-/

namespace Numaflow.Wal

/-- A value with the time at which it was written. -/
structure Stamped (α : Type) where
  time : Nat
  value : α
deriving DecidableEq, Repr

/-- A frozen segment. -/
structure SegmentFile (α : Type) where
  createTime : Nat
  records : List (Stamped α)
deriving DecidableEq, Repr

/-- The file a writer task appends to, and the part of it that is still in the buffer. -/
structure SegmentWriteActor (α : Type) where
  createTime : Nat
  flushed : List (Stamped α)
  buffered : List (Stamped α)
deriving DecidableEq, Repr

open Lib List

namespace SegmentWriteActor

variable {α : Type} {file : SegmentFile α}

section

variable (w : SegmentWriteActor α)

/-- All records written to the file. -/
def records : List (Stamped α) :=
  w.flushed ++ w.buffered

/-- Open an empty file. -/
def openSegment (now : Nat) : SegmentWriteActor α :=
  ⟨now, [], []⟩

/-- Append a record to the buffer. -/
def writeData (x : Stamped α) : SegmentWriteActor α :=
  { w with buffered := w.buffered ++ [x] }

/-- Write the buffer to the file. -/
def flush : SegmentWriteActor α :=
  { w with flushed := w.flushed ++ w.buffered, buffered := [] }

/-- The frozen segment the file becomes, unless it is empty. -/
def frozen : List (SegmentFile α) :=
  if w.records.isEmpty then [] else [⟨w.createTime, w.records⟩]

/-- Freeze the file and open a new one, unless it is empty. -/
def rotateFile (now : Nat) : SegmentWriteActor α :=
  if w.records.isEmpty then w else openSegment now

end

@[simp]
theorem records_openSegment (now : Nat) : (openSegment now : SegmentWriteActor α).records = [] :=
  rfl

variable (w : SegmentWriteActor α)

@[simp]
theorem records_writeData (x : Stamped α) : (w.writeData x).records = w.records ++ [x] := by
  simp [records, writeData]

@[simp]
theorem records_flush : w.flush.records = w.records := by
  simp [records, flush]

@[simp]
theorem records_rotateFile (now : Nat) : (w.rotateFile now).records = [] := by
  unfold rotateFile
  split_ifs with hempty
  · exact isEmpty_iff.mp hempty
  · rfl

theorem createTime_of_mem_frozen {w : SegmentWriteActor α} (h : file ∈ w.frozen) :
    file.createTime = w.createTime := by
  unfold frozen at h
  split_ifs at h
  · cases h
  · rw [mem_singleton.mp h]

theorem flatMap_frozen : w.frozen.flatMap SegmentFile.records = w.records := by
  unfold frozen
  split_ifs with hempty
  · exact (isEmpty_iff.mp hempty).symm
  · simp

end SegmentWriteActor

/-- The frozen segments of a log, its writer if it is running, and the create times of
the files that earlier writers left without freezing them. -/
structure SegmentLog (α : Type) where
  files : List (SegmentFile α)
  writer : Option (SegmentWriteActor α)
  left : List Nat

open SegmentWriteActor

namespace SegmentLog

variable {α : Type} {file : SegmentFile α}

/-- A log without files. -/
def empty : SegmentLog α :=
  ⟨[], none, []⟩

section

variable (l : SegmentLog α)

/-- Start the writer. -/
def openSegment (now : Nat) : SegmentLog α :=
  match l.writer with
  | none => { l with writer := some (.openSegment now) }
  | some _ => l

/-- Write a record. -/
def writeData (x : Stamped α) : SegmentLog α :=
  { l with writer := l.writer.map fun w => w.writeData x }

/-- Flush the writer's file. -/
def flush : SegmentLog α :=
  { l with writer := l.writer.map SegmentWriteActor.flush }

/-- Rotate the writer's file. -/
def rotateFile (now : Nat) : SegmentLog α :=
  match l.writer with
  | none => l
  | some w => { l with files := l.files ++ w.frozen, writer := some (w.rotateFile now) }

/-- Stop the writer: it freezes its file, or leaves it when it is empty. -/
def stop : SegmentLog α :=
  match l.writer with
  | none => l
  | some w =>
    { files := l.files ++ w.frozen
      writer := none
      left := if w.records.isEmpty then l.left ++ [w.createTime] else l.left }

/-- Delete a frozen segment. -/
def removeFile (createTime : Nat) : SegmentLog α :=
  { l with files := l.files.filter fun file => decide (file.createTime ≠ createTime) }

/-- The records in frozen segments. -/
def frozen : List (Stamped α) :=
  l.files.flatMap SegmentFile.records

/-- The records in the writer's file. -/
def active : List (Stamped α) :=
  (l.writer.map SegmentWriteActor.records).getD []

/-- The create time of the writer's file. -/
def current : Option Nat :=
  l.writer.map SegmentWriteActor.createTime

/-- The process crashes: the writer's file keeps its name, with what was flushed to it, and is
not frozen. -/
def crash : SegmentLog α :=
  { l with writer := none, left := l.left ++ l.current.toList }

/-- The create times of all files of the log. -/
def names : List Nat :=
  l.files.map SegmentFile.createTime ++ l.left ++ l.current.toList

/-- The records in the frozen segments other than those with the given create times. -/
def unlisted (listed : List Nat) : List (Stamped α) :=
  (l.files.filter fun file => decide (file.createTime ∉ listed)).flatMap SegmentFile.records

end

/-! ## Records -/

section

variable (l : SegmentLog α)

@[simp]
theorem frozen_crash : l.crash.frozen = l.frozen :=
  rfl

@[simp]
theorem active_crash : l.crash.active = [] :=
  rfl

@[simp]
theorem frozen_writeData (x : Stamped α) : (l.writeData x).frozen = l.frozen :=
  rfl

@[simp]
theorem frozen_flush : l.flush.frozen = l.frozen :=
  rfl

@[simp]
theorem active_removeFile (createTime : Nat) : (l.removeFile createTime).active = l.active :=
  rfl

theorem frozen_removeFile_subset (createTime : Nat) :
    (l.removeFile createTime).frozen ⊆ l.frozen := by
  intro r hr
  obtain ⟨file, hfile, hr⟩ := mem_flatMap.mp hr
  exact mem_flatMap.mpr ⟨file, (mem_filter.mp hfile).1, hr⟩

@[simp]
theorem frozen_openSegment (now : Nat) : (l.openSegment now).frozen = l.frozen := by
  unfold openSegment
  split <;> rfl

@[simp]
theorem active_openSegment (now : Nat) : (l.openSegment now).active = l.active := by
  unfold openSegment
  split
  · rename_i hwriter
    simp [active, hwriter]
  · rfl

@[simp]
theorem active_flush : l.flush.active = l.active := by
  cases hwriter : l.writer with
  | none | some => simp [active, flush, hwriter]

end

variable {l : SegmentLog α}

theorem active_writeData (h : l.writer.isSome = true) (x : Stamped α) :
    (l.writeData x).active = l.active ++ [x] := by
  obtain ⟨w, hw⟩ := Option.isSome_iff_exists.mp h
  simp [active, writeData, hw]

section

variable (l : SegmentLog α) (now : Nat)

@[simp]
theorem active_rotateFile : (l.rotateFile now).active = [] := by
  unfold rotateFile
  split
  · rename_i hwriter
    simp [active, hwriter]
  · simp [active]

/-- Rotating moves the records of the file to a frozen segment. -/
theorem frozen_rotateFile : (l.rotateFile now).frozen = l.frozen ++ l.active := by
  unfold rotateFile
  split
  · rename_i hwriter
    simp [frozen, active, hwriter]
  · rename_i w hwriter
    simp [frozen, active, hwriter, w.flatMap_frozen]

@[simp]
theorem active_stop : l.stop.active = [] := by
  unfold stop
  split
  · rename_i hwriter
    simp [active, hwriter]
  · rfl

/-- A writer that stops freezes its file as in a rotation. -/
theorem files_stop : l.stop.files = (l.rotateFile now).files := by
  unfold stop rotateFile
  split <;> rfl

theorem frozen_stop : l.stop.frozen = l.frozen ++ l.active := by
  rw [frozen, l.files_stop 0]
  exact l.frozen_rotateFile 0

/-! ## Whether the writer runs -/

@[simp]
theorem isSome_openSegment : (l.openSegment now).writer.isSome = true := by
  unfold openSegment
  split
  · rfl
  · rename_i hwriter
    simp [hwriter]

@[simp]
theorem isSome_writeData (x : Stamped α) : (l.writeData x).writer.isSome = l.writer.isSome := by
  simp [writeData]

@[simp]
theorem isSome_flush : l.flush.writer.isSome = l.writer.isSome := by
  simp [flush]

@[simp]
theorem isSome_rotateFile : (l.rotateFile now).writer.isSome = l.writer.isSome := by
  unfold rotateFile
  split
  · rfl
  · rename_i hwriter
    simp [hwriter]

/-! ## Segments that are being read -/

@[simp]
theorem unlisted_nil : l.unlisted [] = l.frozen := by
  have hfilter : l.files.filter (fun file => decide (file.createTime ∉ [])) = l.files := by
    simp
  rw [unlisted, hfilter, frozen]

variable (listed : List Nat)

theorem unlisted_subset : l.unlisted listed ⊆ l.frozen := by
  intro r hr
  obtain ⟨file, hfile, hr⟩ := mem_flatMap.mp hr
  exact mem_flatMap.mpr ⟨file, (mem_filter.mp hfile).1, hr⟩

theorem unlisted_all : l.unlisted (l.files.map SegmentFile.createTime) = [] := by
  have hfilter : l.files.filter
      (fun file => decide (file.createTime ∉ l.files.map SegmentFile.createTime)) = [] := by
    rw [filter_eq_nil_iff]
    intro file hfile
    simpa using ⟨file, hfile, rfl⟩
  rw [unlisted, hfilter, flatMap_nil]

@[simp]
theorem unlisted_writeData (x : Stamped α) (listed : List Nat) :
    (l.writeData x).unlisted listed = l.unlisted listed :=
  rfl

@[simp]
theorem unlisted_flush : l.flush.unlisted listed = l.unlisted listed :=
  rfl

@[simp]
theorem unlisted_openSegment : (l.openSegment now).unlisted listed = l.unlisted listed := by
  unfold openSegment
  split <;> rfl

/-- Deleting a segment that is being read takes no other segment away. -/
theorem unlisted_removeFile (createTime : Nat) (listed : List Nat) :
    (l.removeFile createTime).unlisted listed = l.unlisted (createTime :: listed) := by
  unfold unlisted removeFile
  rw [filter_filter]
  congr 2
  funext file
  simp [Bool.and_comm]

end

variable {listed : List Nat}

/-- A new segment is not one of those that are being read. -/
theorem unlisted_rotateFile (h : ∀ c ∈ l.current, c ∉ listed) (now : Nat) :
    (l.rotateFile now).unlisted listed = l.unlisted listed ++ l.active := by
  unfold rotateFile
  split
  · rename_i hwriter
    simp [active, hwriter]
  · rename_i w hwriter
    have hfrozen : (w.frozen.filter fun file => decide (file.createTime ∉ listed)) = w.frozen := by
      rw [filter_eq_self]
      intro file hfile
      have hname := createTime_of_mem_frozen hfile
      have hnot := h w.createTime (by simp [current, hwriter])
      simpa [hname] using hnot
    simp only [unlisted, filter_append, hfrozen, flatMap_append, w.flatMap_frozen, active,
      hwriter, Option.map_some, Option.getD_some]

/-! ## Create times -/

/-- The create times are distinct and lie in the past, and the writer's file is the
latest one. -/
structure Named (l : SegmentLog α) (clock : Nat) : Prop where
  nodup : l.names.Nodup
  below : ∀ t ∈ l.names, t < clock
  sorted : (l.files.map SegmentFile.createTime).Pairwise (· < ·)
  latest : ∀ c ∈ l.current, ∀ t ∈ l.files.map SegmentFile.createTime ++ l.left, t < c

@[simp]
theorem current_writeData (l : SegmentLog α) (x : Stamped α) :
    (l.writeData x).current = l.current := by
  cases hwriter : l.writer <;> simp [current, writeData, hwriter, SegmentWriteActor.writeData]

@[simp]
theorem current_flush (l : SegmentLog α) : l.flush.current = l.current := by
  cases hwriter : l.writer <;> simp [current, flush, hwriter, SegmentWriteActor.flush]

variable {r : Stamped α} {w : SegmentWriteActor α} {c now : Nat}

/-- A record in the writer's file is in a file with a create time. -/
theorem exists_current (h : r ∈ l.active) : ∃ c, c ∈ l.current := by
  cases hwriter : l.writer with
  | none => simp [active, hwriter] at h
  | some w => exact ⟨w.createTime, by simp [current, hwriter]⟩

/-- A rotation leaves an empty file alone. -/
theorem rotateFile_of_nil (hwriter : l.writer = some w) (hempty : w.records = []) (now : Nat) :
    l.rotateFile now = l := by
  have hfrozen : w.frozen = [] := by simp [SegmentWriteActor.frozen, hempty]
  have hrotate : w.rotateFile now = w := by simp [SegmentWriteActor.rotateFile, hempty]
  rw [rotateFile, hwriter]
  simp only [hfrozen, hrotate, append_nil, ← hwriter]

/-- A rotation freezes a file with records. -/
theorem rotateFile_of_ne_nil (hwriter : l.writer = some w) (hfilled : w.records ≠ []) (now : Nat) :
    l.rotateFile now =
      { l with
        files := l.files ++ [⟨w.createTime, w.records⟩]
        writer := some (.openSegment now) } := by
  have hfrozen : w.frozen = [⟨w.createTime, w.records⟩] := by
    simp [SegmentWriteActor.frozen, hfilled]
  have hrotate : w.rotateFile now = .openSegment now := by
    simp [SegmentWriteActor.rotateFile, hfilled]
  rw [rotateFile, hwriter]
  simp only [hfrozen, hrotate]

theorem rotateFile_cases (l : SegmentLog α) (now : Nat) :
    l.rotateFile now = l ∨ ∃ w, l.writer = some w ∧
      l.rotateFile now =
        { l with
          files := l.files ++ [⟨w.createTime, w.records⟩]
          writer := some (.openSegment now) } := by
  cases hwriter : l.writer with
  | none => exact .inl (by simp [rotateFile, hwriter])
  | some w =>
    by_cases hempty : w.records = []
    · exact .inl (rotateFile_of_nil hwriter hempty now)
    · exact .inr ⟨w, rfl, rotateFile_of_ne_nil hwriter hempty now⟩

/-- A rotation deletes no segment. -/
theorem files_rotateFile_subset (l : SegmentLog α) (now : Nat) :
    l.files ⊆ (l.rotateFile now).files := by
  rcases l.rotateFile_cases now with hsame | ⟨w, -, hrotate⟩
  · rw [hsame]
    exact List.Subset.refl _
  · rw [hrotate]
    exact subset_append_left _ _

theorem openSegment_cases (l : SegmentLog α) (now : Nat) :
    l.openSegment now = l ∨ l.openSegment now = { l with writer := some (.openSegment now) } ∧
      (l.openSegment now).names = l.names ++ [now] ∧ l.active = [] := by
  cases hwriter : l.writer with
  | some => exact .inl (by simp [openSegment, hwriter])
  | none =>
    refine .inr ⟨by simp [openSegment, hwriter], ?_, by simp [active, hwriter]⟩
    simp [openSegment, names, current, hwriter, SegmentWriteActor.openSegment]

theorem mem_current_openSegment (h : c ∈ (l.openSegment now).current) :
    c ∈ l.current ∨ c = now := by
  rcases l.openSegment_cases now with hsame | ⟨hopen, -⟩
  · exact .inl (hsame ▸ h)
  · rw [hopen] at h
    exact .inr (Option.some.inj h).symm

theorem mem_current_rotateFile (h : c ∈ (l.rotateFile now).current) :
    c ∈ l.current ∨ c = now := by
  rcases l.rotateFile_cases now with hsame | ⟨w, -, hrotate⟩
  · exact .inl (hsame ▸ h)
  · rw [hrotate] at h
    exact .inr (Option.some.inj h).symm

/-- A file that is frozen keeps its name. -/
theorem names_perm_of_writer (h : l.writer = some w) :
    (map SegmentFile.createTime (l.files ++ [⟨w.createTime, w.records⟩]) ++ l.left).Perm
      l.names := by
  have hperm := (perm_append_singleton w.createTime l.left).symm
  simpa [names, current, h] using hperm.append_left _

/-- A stopped writer leaves its file under the name it had. -/
theorem names_stop (l : SegmentLog α) : l.stop.names.Perm l.names := by
  cases hwriter : l.writer with
  | none => simp [stop, hwriter]
  | some w =>
    by_cases hempty : w.records.isEmpty = true
    · simp [stop, hwriter, names, current, SegmentWriteActor.frozen, hempty]
    · simpa [stop, hwriter, names, current, SegmentWriteActor.frozen, hempty] using
        names_perm_of_writer hwriter

variable {l' : SegmentLog α} {clock later : Nat}

namespace Named

theorem empty : (empty : SegmentLog α).Named clock := by
  constructor <;> simp [SegmentLog.empty, names, current]

variable (h : l.Named clock)

include h

/-- Only the create times matter. -/
theorem congr (hle : clock ≤ later)
    (hfiles : l'.files.map SegmentFile.createTime = l.files.map SegmentFile.createTime)
    (hleft : l'.left = l.left) (hcurrent : l'.current = l.current) : l'.Named later := by
  have hnames : l'.names = l.names := by rw [names, names, hfiles, hleft, hcurrent]
  refine ⟨hnames ▸ h.nodup, fun t ht => ?_, hfiles ▸ h.sorted, ?_⟩
  · exact Nat.lt_of_lt_of_le (h.below t (hnames ▸ ht)) hle
  · rw [hfiles, hleft, hcurrent]
    exact h.latest

theorem mono (hle : clock ≤ later) : l.Named later :=
  h.congr hle rfl rfl rfl

variable {t : Nat}

/-- The writer's file is the latest one. -/
theorem le_current (hc : c ∈ l.current) (ht : t ∈ l.names) : t ≤ c := by
  rcases mem_append.mp ht with ht | ht
  · exact Nat.le_of_lt (h.latest c hc t ht)
  · exact Nat.le_of_eq (Option.mem_unique (Option.mem_toList.mp ht) hc)

theorem writeData (hle : clock ≤ later) (x : Stamped α) : (l.writeData x).Named later :=
  h.congr hle rfl rfl (l.current_writeData x)

theorem flush : l.flush.Named clock :=
  h.congr (Nat.le_refl _) rfl rfl l.current_flush

theorem nodup_names_append : (l.names ++ [clock]).Nodup := by
  refine h.nodup.append (nodup_singleton _) ?_
  rw [disjoint_singleton]
  exact fun hmem => Nat.lt_irrefl _ (h.below _ hmem)

theorem below_append : ∀ t ∈ l.names ++ [clock], t < clock + 1 :=
  forall_mem_concat.mpr ⟨fun t ht => Nat.lt_succ_of_lt (h.below t ht), Nat.lt_succ_self _⟩

theorem openSegment : (l.openSegment clock).Named (clock + 1) := by
  rcases l.openSegment_cases clock with hsame | ⟨hopen, hnames, -⟩
  · rw [hsame]
    exact h.mono (Nat.le_succ _)
  · refine ⟨?_, ?_, by rw [hopen]; exact h.sorted, fun c hc t ht => ?_⟩
    · rw [hnames]
      exact nodup_names_append h
    · rw [hnames]
      exact h.below_append
    · rw [hopen] at hc ht
      cases hc
      exact h.below t (mem_append_left _ ht)

/-- The new file is the latest one. -/
theorem rotateFile : (l.rotateFile clock).Named (clock + 1) := by
  rcases l.rotateFile_cases clock with hsame | ⟨w, hwriter, hrotate⟩
  · rw [hsame]
    exact h.mono (Nat.le_succ _)
  · have hc : w.createTime ∈ l.current := by simp [current, hwriter]
    have hperm := names_perm_of_writer hwriter
    have hnames : (l.rotateFile clock).names.Perm (l.names ++ [clock]) :=
      hrotate ▸ hperm.append_right [clock]
    refine ⟨hnames.nodup_iff.mpr h.nodup_names_append,
      fun t ht => h.below_append t (hnames.mem_iff.mp ht), ?_, fun c hc' t ht => ?_⟩
    · rw [hrotate, map_append, pairwise_append]
      refine ⟨h.sorted, pairwise_singleton _ _, fun t ht c hc' => ?_⟩
      rw [show c = w.createTime from by simpa using hc']
      exact h.latest w.createTime hc t (mem_append_left _ ht)
    · rw [hrotate] at hc' ht
      cases hc'
      exact h.below t (hperm.mem_iff.mp ht)

theorem stop : l.stop.Named clock := by
  cases hwriter : l.writer with
  | none =>
    have hsame : l.stop = l := by simp [SegmentLog.stop, hwriter]
    rw [hsame]
    exact h
  | some =>
    have hcurrent : l.stop.current = none := by simp [SegmentLog.stop, hwriter, current]
    have hperm := names_stop l
    exact ⟨hperm.nodup_iff.mpr h.nodup, fun t ht => h.below t (hperm.mem_iff.mp ht),
      l.files_stop clock ▸ h.rotateFile.sorted, by simp [hcurrent]⟩

/-- A crash leaves all files under their names. -/
theorem crash : l.crash.Named clock := by
  have hnames : l.crash.names = l.names := by
    simp [names, SegmentLog.crash, current]
  exact ⟨hnames ▸ h.nodup, hnames ▸ h.below, h.sorted, by simp [SegmentLog.crash, current]⟩

theorem removeFile (createTime : Nat) : (l.removeFile createTime).Named clock := by
  have hsub : ((l.removeFile createTime).files.map SegmentFile.createTime).Sublist
      (l.files.map SegmentFile.createTime) := filter_sublist.map _
  have hnames : (l.removeFile createTime).names.Sublist l.names :=
    (hsub.append_right _).append_right _
  refine ⟨h.nodup.sublist hnames, fun t ht => h.below t (hnames.subset ht), h.sorted.sublist hsub,
    fun c hc t ht => h.latest c hc t ?_⟩
  exact (hsub.append_right _).subset ht

end Named

/-- The given times lie before the writer's file was created. -/
def Older (l : SegmentLog α) (clock : Nat) (listed : List Nat) : Prop :=
  ∀ t ∈ listed, t < clock ∧ ∀ c ∈ l.current, t < c

namespace Older

theorem nil : l.Older clock [] := by
  simp [Older]

/-- The frozen segments are older than the writer's file. -/
theorem of_named (h : l.Named clock) : l.Older clock (l.files.map SegmentFile.createTime) :=
  fun t ht => ⟨h.below t (mem_append_left _ (mem_append_left _ ht)),
    fun c hc => h.latest c hc t (mem_append_left _ ht)⟩

variable (h : l.Older clock listed)

include h

/-- Another file of the writer is created at the current time. -/
theorem congr (hle : clock ≤ later)
    (hcurrent : ∀ c ∈ l'.current, c ∈ l.current ∨ c = clock) : l'.Older later listed := by
  intro t ht
  obtain ⟨hclock, hlatest⟩ := h t ht
  refine ⟨Nat.lt_of_lt_of_le hclock hle, fun c hc => ?_⟩
  rcases hcurrent c hc with hold | rfl
  · exact hlatest c hold
  · exact hclock

variable {listed' : List Nat}

theorem subset (hsub : listed' ⊆ listed) : l.Older clock listed' :=
  fun t ht => h t (hsub ht)

theorem openSegment : (l.openSegment clock).Older (clock + 1) listed :=
  h.congr (Nat.le_succ _) fun _ hc => mem_current_openSegment hc

theorem rotateFile : (l.rotateFile clock).Older (clock + 1) listed :=
  h.congr (Nat.le_succ _) fun _ hc => mem_current_rotateFile hc

theorem not_mem : ∀ c ∈ l.current, c ∉ listed :=
  fun c hc hmem => Nat.lt_irrefl c ((h c hmem).2 c hc)

end Older

/-! ## Write times -/

/-- Records were written in the past, after their file was created and before any later
file of the log was. -/
structure Timed (l : SegmentLog α) (clock : Nat) : Prop where
  past : ∀ r ∈ l.frozen ++ l.active, r.time < clock
  after : ∀ c ∈ l.current, ∀ r ∈ l.active, c < r.time
  before : ∀ file ∈ l.files, ∀ r ∈ file.records, ∀ t ∈ l.names, file.createTime < t → r.time < t

namespace Timed

theorem empty : (empty : SegmentLog α).Timed clock := by
  constructor <;> simp [SegmentLog.empty, frozen, active, current]

variable (h : l.Timed clock)

include h

theorem mono (hle : clock ≤ later) : l.Timed later :=
  ⟨fun r hr => Nat.lt_of_lt_of_le (h.past r hr) hle, h.after, h.before⟩

omit h in
theorem mem_frozen (hfile : file ∈ l.files) (hr : r ∈ file.records) : r ∈ l.frozen :=
  mem_flatMap.mpr ⟨file, hfile, hr⟩

theorem flush : l.flush.Timed clock := by
  refine ⟨?_, ?_, ?_⟩
  · rw [active_flush]
    exact h.past
  · rw [current_flush, active_flush]
    exact h.after
  · rw [names, current_flush]
    exact h.before

theorem removeFile (createTime : Nat) : (l.removeFile createTime).Timed clock := by
  have hfiles : ∀ file ∈ (l.removeFile createTime).files, file ∈ l.files :=
    fun file hfile => (mem_filter.mp hfile).1
  refine ⟨fun r hr => h.past r ?_, h.after, fun file hfile r hr t ht => ?_⟩
  · rcases mem_append.mp hr with hr | hr
    · exact mem_append_left _ (l.frozen_removeFile_subset createTime hr)
    · exact mem_append_right _ hr
  · refine h.before file (hfiles file hfile) r hr t ?_
    have hsub : (l.removeFile createTime).names.Sublist l.names :=
      ((filter_sublist.map _).append_right _).append_right _
    exact hsub.subset ht

theorem writeData (hnamed : l.Named clock) (x : α) :
    (l.writeData ⟨clock, x⟩).Timed (clock + 1) := by
  cases hwriter : l.writer with
  | none =>
    have hsame : l.writeData ⟨clock, x⟩ = l := by
      cases l
      cases hwriter
      rfl
    rw [hsame]
    exact h.mono (Nat.le_succ _)
  | some =>
    have hactive := active_writeData (l := l) (by simp [hwriter]) ⟨clock, x⟩
    refine ⟨?_, ?_, ?_⟩
    · rw [hactive]
      intro r hr
      rw [← append_assoc, mem_append, mem_singleton] at hr
      rcases hr with hr | rfl
      · exact Nat.lt_succ_of_lt (h.past r hr)
      · exact Nat.lt_succ_self _
    · rw [current_writeData, hactive]
      intro c hc r hr
      rw [mem_append, mem_singleton] at hr
      rcases hr with hr | rfl
      · exact h.after c hc r hr
      · exact hnamed.below c (mem_append_right _ (Option.mem_toList.mpr hc))
    · rw [names, current_writeData]
      exact h.before

/-- A file that is opened now is later than all records. -/
theorem openSegment : (l.openSegment clock).Timed (clock + 1) := by
  rcases l.openSegment_cases clock with hsame | ⟨hopen, hnames, hactive⟩
  · rw [hsame]
    exact h.mono (Nat.le_succ _)
  · refine ⟨?_, ?_, fun file hfile r hr t ht hlt => ?_⟩
    · rw [frozen_openSegment, active_openSegment]
      exact fun r hr => Nat.lt_succ_of_lt (h.past r hr)
    · rw [active_openSegment, hactive]
      simp
    · rw [hopen] at hfile
      rw [hnames] at ht
      exact forall_mem_concat.mpr ⟨(h.before file hfile r hr),
        fun _ => h.past r (mem_append_left _ (mem_frozen hfile hr))⟩ t ht hlt

/-- Nothing is written to a file after it is frozen. -/
theorem rotateFile (hnamed : l.Named clock) : (l.rotateFile clock).Timed (clock + 1) := by
  rcases l.rotateFile_cases clock with hsame | ⟨w, hwriter, hrotate⟩
  · rw [hsame]
    exact h.mono (Nat.le_succ _)
  · have hc : w.createTime ∈ l.current := by simp [current, hwriter]
    have hactive : l.active = w.records := by simp [active, hwriter]
    refine ⟨?_, ?_, fun file hfile r hr t ht hlt => ?_⟩
    · rw [frozen_rotateFile, active_rotateFile, append_nil]
      exact fun r hr => Nat.lt_succ_of_lt (h.past r hr)
    · simp
    · rw [hrotate] at hfile ht
      have hnames : t ∈ l.names ∨ t = clock :=
        (mem_append.mp ht).imp (names_perm_of_writer hwriter).mem_iff.mp mem_singleton.mp
      rcases mem_append.mp hfile with hold | hnew
      · rcases hnames with ht | rfl
        · exact h.before file hold r hr t ht hlt
        · exact h.past r (mem_append_left _ (mem_frozen hold hr))
      · rw [mem_singleton.mp hnew] at hr hlt
        rcases hnames with ht | rfl
        · -- no file is later than the writer's
          exact absurd hlt (Nat.not_lt.mpr (hnamed.le_current hc ht))
        · exact h.past r (mem_append_right _ (hactive ▸ hr))

theorem stop (hnamed : l.Named clock) : l.stop.Timed clock := by
  cases hwriter : l.writer with
  | none =>
    have hsame : l.stop = l := by simp [SegmentLog.stop, hwriter]
    rw [hsame]
    exact h
  | some w =>
    have hc : w.createTime ∈ l.current := by simp [current, hwriter]
    refine ⟨?_, ?_, fun file hfile r hr t ht hlt => ?_⟩
    · rw [frozen_stop, active_stop, append_nil]
      exact h.past
    · simp
    · have ht := (names_stop l).mem_iff.mp ht
      have hfiles : l.stop.files = l.files ++ w.frozen := by simp [SegmentLog.stop, hwriter]
      rw [hfiles] at hfile
      rcases mem_append.mp hfile with hfile | hfile
      · exact h.before file hfile r hr t ht hlt
      · have hname := createTime_of_mem_frozen hfile
        exact absurd hlt (Nat.not_lt.mpr (hname ▸ hnamed.le_current hc ht))

end Timed

end SegmentLog
end Numaflow.Wal
