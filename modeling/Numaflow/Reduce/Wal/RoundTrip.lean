import Numaflow.Reduce.Wal.Append
import Numaflow.Reduce.Wal.Disk

/-!
# What is written is replayed

The writer of segment files implements the log of records: every round of it is a sequence
of writes and rotations of the log, and the frozen files hold the frozen segments of the
log.  Read back in the order of their names they give the records of the log in the order
in which they were written.

Main results: `Implements.step`, `sortFilenames_of_stored`, `streamingRead_shutdown`.
-/

namespace Numaflow.Wal

/-! ## What a log holds -/

namespace SegmentLog

variable {α : Type}

/-- The values in frozen segments and in the writer's file. -/
def recorded (l : SegmentLog α) : List α :=
  (l.frozen ++ l.active).map Stamped.value

theorem recorded_writeData {l : SegmentLog α} (h : l.writer.isSome = true) (x : Stamped α) :
    (l.writeData x).recorded = l.recorded ++ [x.value] := by
  simp [recorded, active_writeData h]

theorem recorded_rotateFile (l : SegmentLog α) (now : Nat) :
    (l.rotateFile now).recorded = l.recorded := by
  simp [recorded, frozen_rotateFile]

end SegmentLog

open SegmentLog List

namespace Disk

open Lib

/-- The bytes of records. -/
def framed (payloads : List Bytes) : List UInt8 :=
  payloads.flatMap fun data => frame data.1

@[simp]
theorem framed_append (l l' : List Bytes) : framed (l ++ l') = framed l ++ framed l' :=
  flatMap_append

@[simp]
theorem framed_singleton (data : Bytes) : framed [data] = frame data.1 := by
  simp [framed]

/-- A file holds the records of a segment under the name of the segment. -/
def Stores (walType : WalType) (file : Σ _ : String, List UInt8) (segment : SegmentFile Bytes) :
    Prop :=
  ∃ idx, file = ⟨frozenFileName (segmentFileName walType idx segment.createTime),
    framed (segment.records.map Stamped.value)⟩

/-- The frozen files of a directory hold the given segments. -/
def StoresAll (walType : WalType) (basePath : Directory) (segments : List (SegmentFile Bytes)) :
    Prop :=
  ∃ stored, (listFiles walType basePath.entries).Perm stored ∧
    List.Forall₂ (Stores walType) stored segments

/-- The files of a writer hold the segments of a log, and its current file holds what is in
the writer of the log. -/
structure Implements (a : SegmentWriteActor) (log : SegmentLog Bytes)
    (w : Wal.SegmentWriteActor Bytes) : Prop where
  writer : log.writer = some w
  named : log.Named (w.createTime + 1)
  bounded : w.createTime < 2 ^ 63
  filled : ∀ segment ∈ log.files, segment.records ≠ []
  stored : StoresAll a.walType a.basePath log.files
  name : a.currentFileName = segmentFileName a.walType a.fileIndex w.createTime
  content : a.currentFileBuf.content = framed (w.records.map Stamped.value)
  size : a.currentSize = (w.records.map fun r => r.value.1.length).sum
  payload : ∀ r ∈ w.records, r.value.1 ≠ []

/-! ## Files -/

variable {walType : WalType} {name : String} {segments : List (SegmentFile Bytes)}
  {stored : List (Σ _ : String, List UInt8)}

/-- Writing a file that is not listed. -/
theorem listFiles_insert_unlisted (h : listed walType name = false) (basePath : Directory)
    (content : List UInt8) : listFiles walType (basePath.insert name content).entries =
      listFiles walType basePath.entries := by
  rw [listFiles, AList.entries_insert, filter_cons_of_neg (by simp [h])]
  refine HashMap.filter_kerase fun file _ hfile hname => ?_
  rw [hname, h] at hfile
  cases hfile

/-- Writing a file that is listed and has a new name. -/
theorem listFiles_insert_listed {basePath : Directory} (h : listed walType name = true)
    (hnew : ∀ file ∈ listFiles walType basePath.entries, file.1 ≠ name) (content : List UInt8) :
    listFiles walType (basePath.insert name content).entries =
      ⟨name, content⟩ :: listFiles walType basePath.entries := by
  rw [listFiles, AList.entries_insert, filter_cons_of_pos (by simp [h])]
  congr 1
  exact HashMap.filter_kerase fun file hfile hp => hnew file (mem_filter.mpr ⟨hfile, hp⟩)

/-- Removing a file that is not listed. -/
theorem listFiles_erase_unlisted (h : listed walType name = false) (basePath : Directory) :
    listFiles walType (basePath.erase name).entries = listFiles walType basePath.entries := by
  refine HashMap.filter_kerase fun file _ hfile hname => ?_
  rw [hname, h] at hfile
  cases hfile

variable {basePath basePath' : Directory} {file : (_ : String) × List UInt8} {a b : String}
  {data : Bytes} {clock : Clock}

theorem StoresAll.congr (h : StoresAll walType basePath segments)
    (hsame : listFiles walType basePath'.entries = listFiles walType basePath.entries) :
    StoresAll walType basePath' segments := by
  obtain ⟨stored, hperm, hstores⟩ := h
  exact ⟨stored, hsame ▸ hperm, hstores⟩

/-- The creation times that the replay reads from the names. -/
theorem Stores.parse {segment : SegmentFile Bytes} (h : Stores walType file segment)
    (hbounded : segment.createTime < 2 ^ 63) :
    parseSegmentCreateMicros file.1 = segment.createTime := by
  obtain ⟨idx, rfl⟩ := h
  exact parseSegmentCreateMicros_frozen walType idx (by omega)

theorem map_parse_of_stores (h : List.Forall₂ (Stores walType) stored segments)
    (hbounded : ∀ segment ∈ segments, segment.createTime < 2 ^ 63) :
    stored.map (fun file => parseSegmentCreateMicros file.1) =
      segments.map SegmentFile.createTime := by
  induction h with
  | nil => rfl
  | cons hfile _ ih =>
    obtain ⟨hhead, hrest⟩ := forall_mem_cons.mp hbounded
    rw [map_cons, map_cons, hfile.parse hhead, ih hrest]

/-! ## The order of the names -/

theorem nameLe_trans (a b c : String) (hab : nameLe a b = true) (hbc : nameLe b c = true) :
    nameLe a c = true := by
  simp only [nameLe, decide_eq_true_eq] at hab hbc ⊢
  omega

theorem nameLe_total (a b : String) : (nameLe a b || nameLe b a) = true := by
  simp only [nameLe, Bool.or_eq_true, decide_eq_true_eq]
  omega

theorem nameLe_of_lt (h : parseSegmentCreateMicros a < parseSegmentCreateMicros b) :
    nameLe a b = true := by
  simp only [nameLe, decide_eq_true_eq]
  exact .inl h

/-- The files are sorted as the segments of the log are. -/
theorem sortFilenames_of_stored {files : List (Σ _ : String, List UInt8)}
    (hperm : files.Perm stored) (hstores : List.Forall₂ (Stores walType) stored segments)
    (hbounded : ∀ segment ∈ segments, segment.createTime < 2 ^ 63)
    (hsorted : (segments.map SegmentFile.createTime).Pairwise (· < ·)) :
    sortFilenames files = stored := by
  rw [← map_parse_of_stores hstores hbounded] at hsorted
  have hpermSort : (sortFilenames files).Perm stored := (mergeSort_perm _ _).trans hperm
  have hsort : (sortFilenames files).Pairwise fun a b => nameLe a.1 b.1 = true := by
    refine pairwise_mergeSort ?_ ?_ files
    · exact fun a b c => nameLe_trans a.1 b.1 c.1
    · exact fun a b => nameLe_total a.1 b.1
  have hstored : stored.Pairwise fun a b => nameLe a.1 b.1 = true := by
    rw [pairwise_map] at hsorted
    exact hsorted.imp nameLe_of_lt
  refine List.Perm.eq_of_pairwise (fun a b ha hb hab hba => ?_) hsort hstored hpermSort
  -- files of one creation time are the same
  have hnodup := hsorted.imp fun hlt => hlt.ne
  refine inj_on_of_nodup_map hnodup (hpermSort.mem_iff.mp ha) hb ?_
  simp only [nameLe, decide_eq_true_eq] at hab hba
  omega

/-! ## Reading -/

/-- What the replay sends for a segment: its payloads and the switch to the next file. -/
def replayed (segment : String × List Bytes) : List SegmentEntry :=
  segment.2.map (fun data => .ofData data.1) ++ [.cmdFileSwitch segment.1]

theorem readSegment_framed (payloads : List Bytes) :
    readSegment (framed payloads) = (payloads.map fun data => .ofData data.1, none) := by
  have hread : readFrames (framed payloads) = (payloads.map Subtype.val, none) := by
    have hframed : framed payloads = (payloads.map Subtype.val).flatMap frame := by simp [framed]
    rw [hframed]
    apply readFrames_flatMap_frame
    intro data hdata
    obtain ⟨payload, -, rfl⟩ := mem_map.mp hdata
    exact payload.2.trans (by decide)
  rw [readSegment, hread]
  simp

/-- Files that hold the segments of a log are read to their end. -/
theorem readSegments_of_stores (h : List.Forall₂ (Stores walType) stored segments)
    (hfilled : ∀ segment ∈ segments, segment.records ≠ []) :
    ∃ parts : List (String × List Bytes), (∀ part ∈ parts, part.2 ≠ []) ∧
      parts.map Prod.fst = stored.map Sigma.fst ∧
      parts.flatMap Prod.snd = (segments.flatMap SegmentFile.records).map Stamped.value ∧
      readSegments stored = (parts.flatMap replayed, none) := by
  induction h with
  | nil => exact ⟨[], by simp, rfl, rfl, rfl⟩
  | @cons _ segment _ _ hfile _ ih =>
    obtain ⟨hhead, hrest⟩ := forall_mem_cons.mp hfilled
    obtain ⟨parts, hne, hnames, hvalues, hread⟩ := ih hrest
    obtain ⟨idx, rfl⟩ := hfile
    refine ⟨(frozenFileName (segmentFileName walType idx segment.createTime),
      segment.records.map Stamped.value) :: parts, ?_, ?_, ?_, ?_⟩
    · exact forall_mem_cons.mpr ⟨by simpa using hhead, hne⟩
    · rw [map_cons, map_cons, hnames]
    · rw [flatMap_cons, flatMap_cons, map_append, hvalues]
    · rw [readSegments, readSegment_framed, hread]
      simp [replayed]

/-! ## Writing -/

namespace Implements

variable {a : SegmentWriteActor} {log : SegmentLog Bytes} {w : Wal.SegmentWriteActor Bytes}
  (h : Implements a log w)

include h

theorem currentSize_eq_zero_iff : a.currentSize = 0 ↔ w.records = [] := by
  rw [h.size]
  constructor
  · intro hsum
    rw [eq_nil_iff_forall_not_mem]
    intro r hr
    have hzero := sum_eq_zero_iff.mp hsum _ (mem_map_of_mem hr)
    exact h.payload r hr (eq_nil_of_length_eq_zero hzero)
  · intro hempty
    rw [hempty]
    rfl

theorem listFiles_setBuf (buf : BufWriter) :
    listFiles a.walType (a.setBuf buf).basePath.entries = listFiles a.walType a.basePath.entries :=
  listFiles_insert_unlisted (by rw [h.name]; exact listed_segmentFileName _ _ _ _) _ _

theorem flush : Implements a.flush log w where
  writer := h.writer
  named := h.named
  bounded := h.bounded
  filled := h.filled
  stored := h.stored.congr (h.listFiles_setBuf _)
  name := h.name
  content := (BufWriter.content_flush _).trans h.content
  size := h.size
  payload := h.payload

/-- A record is added to the current file. -/
theorem append (hdata : data.1 ≠ []) (time : Nat) :
    Implements (a.append data) (log.writeData ⟨time, data⟩) (w.writeData ⟨time, data⟩) where
  writer := by simp [writeData, h.writer]
  named := h.named.writeData (Nat.le_refl _) _
  bounded := h.bounded
  filled := h.filled
  stored := h.stored.congr (h.listFiles_setBuf _)
  name := h.name
  content := by
    have hcontent : (a.append data).currentFileBuf.content =
        a.currentFileBuf.content ++ frame data.1 := by
      simp [SegmentWriteActor.append, SegmentWriteActor.setBuf, frame]
    rw [hcontent, h.content]
    simp
  size := by
    have hsize : (a.append data).currentSize = a.currentSize + data.1.length := rfl
    rw [hsize, h.size]
    simp
  payload := by
    intro r hr
    rw [SegmentWriteActor.records_writeData, mem_append, mem_singleton] at hr
    rcases hr with hr | rfl
    · exact h.payload r hr
    · exact hdata

/-- The name that a frozen file gets is new. -/
theorem frozen_new : ∀ file ∈ listFiles a.walType a.basePath.entries,
      file.1 ≠ frozenFileName a.currentFileName := by
  intro file hfile hname
  obtain ⟨stored, hperm, hstores⟩ := h.stored
  have hcurrent : w.createTime ∈ log.current := by simp [current, h.writer]
  have hbefore : ∀ segment ∈ log.files, segment.createTime < w.createTime := fun segment hsegment =>
    h.named.latest _ hcurrent _ (mem_append_left _ (mem_map_of_mem hsegment))
  have hparse := map_parse_of_stores hstores
    fun segment hsegment => (hbefore segment hsegment).trans h.bounded
  have hmem := hparse ▸ mem_map_of_mem (hperm.mem_iff.mp hfile)
  obtain ⟨segment, hsegment, htime⟩ := mem_map.mp hmem
  rw [hname, h.name, parseSegmentCreateMicros_frozen _ _ (h.bounded.trans (by decide))] at htime
  exact absurd htime (hbefore segment hsegment).ne

/-- A frozen file holds the records of the writer. -/
theorem storesAll_freeze :
    StoresAll a.walType a.flush.freeze.basePath (log.files ++ [⟨w.createTime, w.records⟩]) := by
  obtain ⟨stored, hperm, hstores⟩ := h.stored
  have hunlisted : listed a.walType a.currentFileName = false := by
    rw [h.name]
    exact listed_segmentFileName _ _ _ _
  have hlisted : listed a.walType (frozenFileName a.currentFileName) = true := by
    rw [h.name]
    exact listed_frozen _ _ _
  have hsame : listFiles a.walType (a.flush.basePath.erase a.flush.currentFileName).entries =
      listFiles a.walType a.basePath.entries :=
    (listFiles_erase_unlisted hunlisted _).trans (h.listFiles_setBuf _)
  have hfreeze : listFiles a.walType a.flush.freeze.basePath.entries =
      ⟨frozenFileName a.currentFileName, a.currentFileBuf.content⟩ ::
        listFiles a.walType a.basePath.entries := by
    rw [← hsame]
    refine listFiles_insert_listed hlisted ?_ _
    rw [hsame]
    exact h.frozen_new
  refine ⟨stored ++ [⟨frozenFileName a.currentFileName, a.currentFileBuf.content⟩], ?_, ?_⟩
  · rw [hfreeze]
    exact (hperm.cons _).trans (perm_append_singleton _ _).symm
  · refine rel_append hstores (.cons ⟨a.fileIndex, ?_⟩ .nil)
    rw [h.name, h.content]

theorem filled_append (hfilled : w.records ≠ []) :
    ∀ segment ∈ log.files ++ [⟨w.createTime, w.records⟩], segment.records ≠ [] :=
  forall_mem_concat.mpr ⟨h.filled, hfilled⟩

/-- The current file is frozen and a later one is opened, unless it is empty. -/
theorem rotateFile (hlater : a.currentSize ≠ 0 → w.createTime < clock.micros) :
    ∃ w', Implements (a.rotateFile true clock) (log.rotateFile clock.micros) w' := by
  by_cases hempty : w.records = []
  · refine ⟨w, ?_⟩
    rw [rotateFile_of_nil h.writer hempty, SegmentWriteActor.rotateFile,
      if_pos (h.currentSize_eq_zero_iff.mpr hempty)]
    exact h
  · have hsize : a.currentSize ≠ 0 := fun hzero => hempty (h.currentSize_eq_zero_iff.mp hzero)
    refine ⟨.openSegment clock.micros, ?_⟩
    have hnamed := (h.named.mono (Nat.succ_le_of_lt (hlater hsize))).rotateFile
    rw [rotateFile_of_ne_nil h.writer hempty] at hnamed ⊢
    rw [SegmentWriteActor.rotateFile, if_neg hsize]
    exact {
      writer := rfl
      named := hnamed
      bounded := clock.micros.2
      filled := h.filled_append hempty
      stored := h.storesAll_freeze.congr (listFiles_insert_unlisted
        (listed_segmentFileName _ _ _ _) _ _)
      name := rfl
      content := rfl
      size := rfl
      payload := by simp }

/-- The segments that are frozen when the writer stops. -/
theorem shutdown (clock : Clock) : StoresAll a.walType (a.shutdown clock) log.stop.files ∧
      ∀ segment ∈ log.stop.files, segment.records ≠ [] := by
  unfold SegmentWriteActor.shutdown SegmentWriteActor.rotateFile
  have hstop : log.stop.files = log.files ++ w.frozen := by simp [stop, h.writer]
  by_cases hempty : w.records = []
  · have hfrozen : w.frozen = [] := by simp [SegmentWriteActor.frozen, hempty]
    rw [if_pos (h.currentSize_eq_zero_iff.mpr hempty), hstop, hfrozen, append_nil]
    exact ⟨h.stored, h.filled⟩
  · have hfrozen : w.frozen = [⟨w.createTime, w.records⟩] := by
      simp [SegmentWriteActor.frozen, hempty]
    have hsize : a.currentSize ≠ 0 := fun hzero => hempty (h.currentSize_eq_zero_iff.mp hzero)
    rw [if_neg hsize, hstop, hfrozen]
    exact ⟨h.storesAll_freeze, h.filled_append hempty⟩

end Implements

/-! ## Runs -/

/-- A file that is opened has a later creation time than the one before. -/
def Increasing (a : SegmentWriteActor) (action : Event × Clock) : Prop :=
  (a.step action).fileIndex ≠ a.fileIndex →
    parseSegmentCreateMicros a.currentFileName < action.2.micros
deriving Decidable

/-- The payload of a round. -/
def payload : Event × Clock → Option Bytes
  | (.write data, _) => some data
  | _ => none

/-- The files agree with a log that holds the given payloads. -/
def Holds (a : SegmentWriteActor) (written : List Bytes) : Prop :=
  ∃ log w, Implements a log w ∧ log.recorded = written

namespace Holds

variable {a : SegmentWriteActor} {written : List Bytes} (h : Holds a written)

include h

theorem flush : Holds a.flush written := by
  obtain ⟨log, w, himpl, hrecorded⟩ := h
  exact ⟨log, w, himpl.flush, hrecorded⟩

theorem append (hdata : data.1 ≠ []) : Holds (a.append data) (written ++ [data]) := by
  obtain ⟨log, w, himpl, rfl⟩ := h
  refine ⟨_, _, himpl.append hdata 0, ?_⟩
  exact recorded_writeData (by simp [himpl.writer]) _

theorem rotateFile
    (hlater : a.currentSize ≠ 0 → parseSegmentCreateMicros a.currentFileName < clock.micros) :
    Holds (a.rotateFile true clock) written := by
  obtain ⟨log, w, himpl, rfl⟩ := h
  rw [himpl.name, parseSegmentCreateMicros_segmentFileName _ _ (himpl.bounded.trans (by decide))]
    at hlater
  obtain ⟨w', himpl'⟩ := himpl.rotateFile hlater
  exact ⟨_, w', himpl', recorded_rotateFile _ _⟩

variable {action : Event × Clock} {actions : List (Event × Clock)}

/-- What one round adds. -/
theorem step (hincreasing : Increasing a action) (hpayload : ∀ data ∈ payload action, data.1 ≠ []) :
    Holds (a.step action) (written ++ (payload action).toList) := by
  obtain ⟨event, clock⟩ := action
  have hrotate : a.step (event, clock) = a.rotateFile true clock →
      Holds (a.rotateFile true clock) written := fun hstep => h.rotateFile fun hsize => by
    refine hincreasing ?_
    rw [hstep, SegmentWriteActor.fileIndex_rotateFile hsize]
    exact Nat.succ_ne_self _
  cases event with
  | write data =>
    have hdata := hpayload data rfl
    rcases a.writeData_cases data clock with hstep | ⟨hsize, hstep⟩
    · simp only [SegmentWriteActor.step, hstep]
      exact h.append hdata
    · have hlater := hincreasing (by
        simp only [SegmentWriteActor.step, hstep]
        exact (SegmentWriteActor.fileIndex_rotateFile hsize clock).trans_ne (Nat.succ_ne_self _))
      simp only [SegmentWriteActor.step, hstep]
      exact (h.rotateFile fun _ => hlater).append hdata
  | rotate =>
    simp only [payload, Option.toList_none, append_nil]
    simp only [SegmentWriteActor.step] at hrotate ⊢
    split_ifs with hforced
    · exact hrotate (if_pos hforced)
    · exact h
  | timeout =>
    simp only [payload, Option.toList_none, append_nil]
    simp only [SegmentWriteActor.step, SegmentWriteActor.flushAndRotate] at hrotate ⊢
    split_ifs with hstale
    · exact hrotate (if_pos hstale)
    · exact h.flush
  | tick =>
    simp only [payload, Option.toList_none, append_nil]
    exact h.flush

/-- What a run adds. -/
theorem exec (hincreasing : Along Increasing SegmentWriteActor.step a actions)
    (hpayload : ∀ data ∈ actions.filterMap payload, data.1 ≠ []) :
    Holds (exec SegmentWriteActor.step a actions) (written ++ actions.filterMap payload) := by
  induction actions generalizing a written with
  | nil => simpa [Lib.exec] using h
  | cons action actions ih =>
    have hhead : ∀ data ∈ payload action, data.1 ≠ [] := fun data hdata =>
      hpayload data (mem_filterMap.mpr ⟨action, mem_cons_self, hdata⟩)
    have htail := ih (h.step hincreasing.1 hhead) hincreasing.2 fun data hdata => by
      obtain ⟨action', hmem, heq⟩ := mem_filterMap.mp hdata
      exact hpayload data (mem_filterMap.mpr ⟨action', mem_cons_of_mem _ hmem, heq⟩)
    rw [append_assoc] at htail
    have hsplit : (action :: actions).filterMap payload =
        (payload action).toList ++ actions.filterMap payload := by
      rw [filterMap_cons]
      cases payload action <;> rfl
    rw [hsplit]
    exact htail

end Holds

/-- A writer that starts in a directory without segments of its type. -/
theorem holds_streamingWrite (hbase : listFiles walType basePath.entries = []) (maxFileSize : Nat)
    (maxSegmentAge : Int) (clock : Clock) :
    Holds (.streamingWrite walType basePath maxFileSize maxSegmentAge clock) [] := by
  refine ⟨⟨[], some (.openSegment clock.micros), []⟩, .openSegment clock.micros, ?_, rfl⟩
  exact {
    writer := rfl
    named := SegmentLog.Named.empty.openSegment
    bounded := clock.micros.2
    filled := by simp
    stored := ⟨[], by
      rw [SegmentWriteActor.streamingWrite, listFiles_insert_unlisted
        (listed_segmentFileName _ _ _ _), hbase], .nil⟩
    name := rfl
    content := rfl
    size := rfl
    payload := by simp }

/-- After any writes and rotations and the final shutdown, the replay sends the payloads in
the order they were written in, with one switch after each segment, and no error. -/
theorem streamingRead_shutdown (walType : WalType) (basePath : Directory)
    (hbase : listFiles walType basePath.entries = []) (maxFileSize : Nat) (maxSegmentAge : Int)
    (start stop : Clock) (actions : List (Event × Clock))
    (hpayload : ∀ data ∈ actions.filterMap payload, data.1 ≠ [])
    (hincreasing : Along Increasing SegmentWriteActor.step
      (.streamingWrite walType basePath maxFileSize maxSegmentAge start) actions)
    (listing : List (Σ _ : String, List UInt8))
    (hlisting : listing.Perm ((exec SegmentWriteActor.step
        (.streamingWrite walType basePath maxFileSize maxSegmentAge start) actions).shutdown
          stop).entries) :
    ∃ parts : List (String × List Bytes), (∀ part ∈ parts, part.2 ≠ []) ∧
      (parts.map Prod.fst).Perm ((listFiles walType listing).map Sigma.fst) ∧
      parts.flatMap Prod.snd = actions.filterMap payload ∧
      streamingRead walType listing = (parts.flatMap replayed, none) := by
  obtain ⟨log, w, himpl, hrecorded⟩ :=
    (holds_streamingWrite hbase maxFileSize maxSegmentAge start).exec hincreasing hpayload
  have htype : (exec SegmentWriteActor.step
      (.streamingWrite walType basePath maxFileSize maxSegmentAge start) actions).walType =
        walType :=
    exec_invariant_all (I := fun a : SegmentWriteActor => a.walType = walType)
      (fun a action ha => (a.walType_step action).trans ha) rfl
  obtain ⟨⟨stored, hperm, hstores⟩, hfilled⟩ := himpl.shutdown stop
  rw [htype] at hperm hstores
  have hperm' : (listFiles walType listing).Perm stored := (hlisting.filter _).trans hperm
  have hnamed := himpl.named.stop
  have hbounded : ∀ segment ∈ log.stop.files, segment.createTime < 2 ^ 63 := by
    intro segment hsegment
    have hbelow := hnamed.below segment.createTime
      (List.mem_append_left _ (List.mem_append_left _ (List.mem_map_of_mem hsegment)))
    have hlast := himpl.bounded
    omega
  obtain ⟨parts, hne, hnames, hvalues, hread⟩ := readSegments_of_stores hstores hfilled
  refine ⟨parts, hne, hnames ▸ (hperm'.map _).symm, ?_, ?_⟩
  · rw [hvalues, ← List.nil_append (actions.filterMap payload), ← hrecorded]
    exact congrArg (List.map Stamped.value) log.frozen_stop
  · rw [streamingRead, sortFilenames_of_stored hperm' hstores hbounded hnamed.sorted, hread]

/-- The readings of a clock that shows whole seconds. -/
def atSecond (s : Nat) (h : s * 1000000 < 2 ^ 63) : Clock :=
  ⟨s * 1000000000, ⟨s * 1000000, h⟩, s * 1000000000⟩

/-- Two payloads in one segment, a forced rotation, and a third payload. -/
theorem streamingRead_shutdown_twoSegments : let actions : List (Event × Clock) :=
      [(.write ⟨[1, 2], by decide⟩, atSecond 1 (by decide)),
        (.write ⟨[3], by decide⟩, atSecond 2 (by decide)),
        (.rotate false, atSecond 3 (by decide)),
        (.write ⟨[4], by decide⟩, atSecond 4 (by decide))]
    let basePath := (exec SegmentWriteActor.step (.streamingWrite .gc ∅ 100 60000000000
      (atSecond 0 (by decide))) actions).shutdown (atSecond 5 (by decide))
    ∃ parts : List (String × List Bytes), (∀ part ∈ parts, part.2 ≠ []) ∧
      (parts.map Prod.fst).Perm ((listFiles .gc basePath.entries).map Sigma.fst) ∧
      parts.flatMap Prod.snd = actions.filterMap payload ∧
      streamingRead .gc basePath.entries = (parts.flatMap replayed, none) :=
  streamingRead_shutdown .gc ∅ rfl 100 60000000000 (atSecond 0 (by decide))
    (atSecond 5 (by decide)) _ (by decide) (by decide) _ (List.Perm.refl _)

end Disk
end Numaflow.Wal
