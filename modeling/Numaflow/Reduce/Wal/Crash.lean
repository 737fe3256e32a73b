import Numaflow.Reduce.Wal.Conservation

/-!
# Crashes of a vertex

A crash may hit the tasks around the logs at any step.  The frozen segments survive it.  The
files of the writers keep their names and are not frozen, and no later start reads them; what is
in the channels is lost.  After the crash the first cycle runs again, and it may be hit by the
next crash like any other.  A record may now be in several frozen segments, so the account of
the runs without crashes is replaced by a weaker one.

Main results: `Backed.records_subset`, `Consistent.effect`, `Consistent.crash`,
`Consistent.boots`.
-/

namespace Numaflow.Wal

open Lib SegmentLog CyclePhase List

/-! ## What a cycle has still to read -/

/-- Every record of a stream is in a segment whose mark follows, and every segment is marked
once. -/
def Backed (files : List (SegmentFile ReadMessage)) : List SegmentEntry → Prop
  | [] => True
  | .dataEntry record :: rest =>
    (∃ file ∈ files, record ∈ file.records ∧ file.createTime ∈ SegmentEntry.switches rest) ∧
      Backed files rest
  | .cmdFileSwitch createTime :: rest =>
    createTime ∉ SegmentEntry.switches rest ∧ Backed files rest

namespace Backed

variable {files files' : List (SegmentFile ReadMessage)} {stream : List SegmentEntry}

/-- What is left of a stream after its first entry. -/
theorem tail {entry : SegmentEntry} (h : Backed files (entry :: stream)) : Backed files stream := by
  cases entry with
  | dataEntry | cmdFileSwitch => exact h.2

/-- Only segments whose marks do not follow are deleted. -/
theorem of_files (h : Backed files stream) (hfiles : ∀ file ∈ files,
      file.createTime ∈ SegmentEntry.switches stream → file ∈ files') : Backed files' stream := by
  induction stream with
  | nil => trivial
  | cons entry rest ih =>
    cases entry with
    | dataEntry record =>
      obtain ⟨⟨file, hfile, hrecord, hmark⟩, hrest⟩ := h
      exact ⟨⟨file, hfiles file hfile hmark, hrecord, hmark⟩, ih hrest hfiles⟩
    | cmdFileSwitch createTime =>
      refine ⟨h.1, ih h.2 fun file hfile hmark => hfiles file hfile ?_⟩
      exact mem_cons_of_mem _ hmark

/-- The records of a stream are in the files. -/
theorem records_subset (h : Backed files stream) :
    SegmentEntry.records stream ⊆ files.flatMap SegmentFile.records := by
  induction stream with
  | nil => exact nil_subset _
  | cons entry rest ih =>
    cases entry with
    | dataEntry record =>
      obtain ⟨⟨file, hfile, hrecord, -⟩, hrest⟩ := h
      exact cons_subset.mpr ⟨mem_flatMap.mpr ⟨file, hfile, hrecord⟩, ih hrest⟩
    | cmdFileSwitch => exact ih h.2

/-- The records of a segment are followed by its mark. -/
theorem readSegment {file : SegmentFile ReadMessage} (hfile : file ∈ files)
    (hmark : file.createTime ∉ SegmentEntry.switches stream) (h : Backed files stream) :
    Backed files (readSegment file ++ stream) := by
  have hrecords : ∀ records ⊆ file.records,
      Backed files (records.map .dataEntry ++ .cmdFileSwitch file.createTime :: stream) := by
    intro records hsub
    induction records with
    | nil => exact ⟨hmark, h⟩
    | cons record records ih =>
      obtain ⟨hrecord, hsub⟩ := cons_subset.mp hsub
      refine ⟨⟨file, hfile, hrecord, ?_⟩, ih hsub⟩
      have hmarks := SegmentEntry.switches_append (records.map .dataEntry)
        (.cmdFileSwitch file.createTime :: stream)
      exact hmarks ▸ mem_append_right _ mem_cons_self
  rw [Wal.readSegment, append_assoc]
  exact hrecords file.records (List.Subset.refl _)

/-- The reader streams segments with different create times. -/
theorem streamingRead {log : SegmentLog ReadMessage}
    (h : (log.files.map SegmentFile.createTime).Nodup) :
    Backed log.files (streamingRead log) := by
  have hall : ∀ listed ⊆ log.files, (listed.map SegmentFile.createTime).Nodup →
      Backed log.files (listed.flatMap Wal.readSegment) := by
    intro listed hsub hnodup
    induction listed with
    | nil => trivial
    | cons file listed ih =>
      obtain ⟨hfile, hsub⟩ := cons_subset.mp hsub
      obtain ⟨hnew, hnodup⟩ := nodup_cons.mp hnodup
      have hmarks := SegmentEntry.switches_streamingRead ⟨listed, none, []⟩
      rw [flatMap_cons]
      exact readSegment hfile (hmarks ▸ hnew) (ih hsub hnodup)
  exact hall log.files (List.Subset.refl _) h

end Backed

namespace LogRun

/-- What the cycle has still to read is on disk, and the segment that is to be deleted has been
read. -/
def Streamed (s : LogRun) : Prop :=
  match s.phase with
  | .reading _ walType pending entries unread =>
    Backed (s.log walType).files (entries ++ unread) ∧
      ∀ createTime ∈ pending.bind Pending.removed?,
        createTime ∉ SegmentEntry.switches (entries ++ unread)
  | _ => True

namespace Streamed

variable {s s' : LogRun} {cycle : Cycle} {walType : WalType} {pending : Option Pending}
  {entries unread : List SegmentEntry}

theorem reading_iff (hphase : s.phase = .reading cycle walType pending entries unread) :
    s.Streamed ↔ Backed (s.log walType).files (entries ++ unread) ∧
      ∀ createTime ∈ pending.bind Pending.removed?,
        createTime ∉ SegmentEntry.switches (entries ++ unread) := by
  rw [Streamed, hphase]

/-- No segment is being read. -/
theorem of_idle (hreading : ∀ cycle walType pending entries unread,
      s.phase ≠ .reading cycle walType pending entries unread) : s.Streamed := by
  rw [Streamed]
  split
  · rename_i hphase
    exact absurd hphase (hreading _ _ _ _ _)
  · trivial

variable (h : s.Streamed)

include h

/-- Segments are added. -/
theorem of_files (hphase : s'.phase = s.phase)
    (hfiles : ∀ walType, (s.log walType).files ⊆ (s'.log walType).files) : s'.Streamed := by
  rw [Streamed] at h ⊢
  rw [hphase]
  cases hreading : s.phase with
  | reading _ walType =>
    rw [hreading] at h
    exact ⟨h.1.of_files fun file hfile _ => hfiles walType hfile, h.2⟩
  | idle | started | listing | deleting | failed => trivial

/-- The records that are being read are in frozen segments. -/
theorem records_subset : s.phase.records ⊆ s.data.frozen ++ s.compaction.frozen := by
  cases hphase : s.phase with
  | reading _ walType =>
    have hbacked := ((reading_iff hphase).mp h).1.records_subset
    cases walType with
    | data => exact List.Subset.trans hbacked (subset_append_left _ _)
    | gc | compact => exact List.Subset.trans hbacked (subset_append_right _ _)
  | idle | started | listing | deleting | failed => exact nil_subset _

/-- The compactor takes the next entry of the stream. -/
theorem next {entry : SegmentEntry}
    (hphase : s.phase = .reading cycle walType pending (entry :: entries) unread) :
    Backed (s.log walType).files (entries ++ unread) :=
  ((reading_iff hphase).mp h).1.tail

theorem removeFile {createTime : Nat}
    (hphase : s.phase = .reading cycle walType (some (.removeFile createTime)) entries unread) :
    Streamed { s.removeFile walType createTime with
      phase := .reading cycle walType none entries unread } := by
  obtain ⟨hbacked, hremoved⟩ := (reading_iff hphase).mp h
  have hkept : ∀ log : SegmentLog ReadMessage, ∀ file ∈ log.files,
      file.createTime ∈ SegmentEntry.switches (entries ++ unread) →
        file ∈ (log.removeFile createTime).files := by
    intro log file hfile hmark
    refine mem_filter.mpr ⟨hfile, decide_eq_true ?_⟩
    rintro rfl
    exact hremoved _ rfl hmark
  refine (reading_iff rfl).mpr ⟨?_, fun _ hnone => by cases hnone⟩
  cases walType with
  | data | gc | compact => exact hbacked.of_files (hkept _)

/-- Every step keeps the stream on disk. -/
theorem effect (hnamed : s.Named) (heffect : Effect s s') : s'.Streamed := by
  cases heffect with
  | openData =>
    refine h.of_files rfl fun walType => ?_
    have hfiles : s.data.files ⊆ (s.data.openSegment s.clock).files := by
      rcases s.data.openSegment_cases s.clock with hsame | ⟨hopen, -⟩
      · rw [hsame]
        exact List.Subset.refl _
      · rw [hopen]
        exact List.Subset.refl _
    cases walType with
    | data => exact hfiles
    | gc | compact => exact List.Subset.refl _
  | rotateData =>
    refine h.of_files rfl fun walType => ?_
    cases walType with
    | data => exact s.data.files_rotateFile_subset s.clock
    | gc | compact => exact List.Subset.refl _
  | rotateCompaction =>
    refine h.of_files rfl fun walType => ?_
    cases walType with
    | data => exact List.Subset.refl _
    | gc | compact => exact s.compaction.files_rotateFile_subset s.clock
  | flush flushed =>
    refine h.of_files (by cases flushed <;> rfl) fun walType => ?_
    cases flushed <;> cases walType <;> exact List.Subset.refl _
  | quiet | openGc | writeGcEvent | rotateGc =>
    exact h.of_files rfl fun walType => List.Subset.refl _
  | writeMessage | handleWrite =>
    refine h.of_files rfl fun walType => ?_
    cases walType <;> exact List.Subset.refl _
  | read hphase =>
    refine (reading_iff rfl).mpr ?_
    rw [append_assoc, singleton_append]
    exact (reading_iff hphase).mp h
  | @list _ walType =>
    have hnodup : ∀ {log : SegmentLog ReadMessage}, log.Named s.clock →
        (log.files.map SegmentFile.createTime).Nodup := fun hnamed =>
      hnamed.sorted.imp fun hlt => Nat.ne_of_lt hlt
    refine (reading_iff rfl).mpr ⟨?_, fun _ hnone => by cases hnone⟩
    cases walType with
    | data => exact .streamingRead (hnodup hnamed.data)
    | gc | compact => exact .streamingRead (hnodup hnamed.compaction)
  | replay hphase =>
    refine (reading_iff rfl).mpr ⟨((reading_iff hphase).mp h).1, fun _ hnone => by cases hnone⟩
  | removeFile hphase => exact h.removeFile hphase
  | keep hphase =>
    refine (reading_iff rfl).mpr ⟨h.next hphase, fun _ hnone => ?_⟩
    split_ifs at hnone <;> cases hnone
  | drop hphase =>
    exact (reading_iff rfl).mpr ⟨h.next hphase, fun _ hnone => by cases hnone⟩
  | fileSwitch hphase =>
    refine (reading_iff rfl).mpr ⟨h.next hphase, fun createTime hremoved => ?_⟩
    cases hremoved
    exact ((reading_iff hphase).mp h).1.1
  | restart hphase => exact of_idle (by simp [hphase])
  | tick | scan | unreadable | fail | finishCompaction | finishBoot | finishData | deleteFile
  | keepFile | finishCycle => exact of_idle (by simp)

end Streamed

/-- An event in the GC log was there before, or is a readable one that the step adds to the
writer's file. -/
theorem Effect.mem_gc {s s' : LogRun} (heffect : Effect s s') {e : GcRecord}
    (he : e ∈ s'.gc.frozen ++ s'.gc.active) : e ∈ s.gc.frozen ++ s.gc.active ∨
      e ∈ s'.gc.active.drop s.gc.active.length ∧ e.value.toEntry.isSome = true := by
  cases heffect with
  | writeGcEvent entry hwriter =>
    rw [frozen_writeData, active_writeData hwriter, ← append_assoc] at he
    rw [active_writeData hwriter, drop_left]
    exact (mem_append.mp he).imp_right fun hnew => ⟨hnew, by rw [mem_singleton.mp hnew]; rfl⟩
  | openGc => exact .inl (by simpa using he)
  | flush walType =>
    cases walType with
    | gc => exact .inl (by simpa [LogRun.flush] using he)
    | data | compact => exact .inl he
  | rotateGc => exact .inl (by simpa [frozen_rotateFile] using he)
  | deleteFile =>
    refine .inl (mem_append.mpr ((mem_append.mp he).imp_left fun hfrozen => ?_))
    exact s.gc.frozen_removeFile_subset _ hfrozen
  | restart => exact .inl (by simpa [frozen_stop] using he)
  | @removeFile _ walType => cases walType <;> exact .inl he
  | _ => exact .inl he

/-! ## What every step and every crash keeps -/

/-- Crash and start again: only the frozen segments survive, and the first cycle is due. -/
def crash (s : LogRun) : LogRun :=
  { s with
    clock := s.clock + 1
    data := s.data.crash
    gc := s.gc.crash
    compaction := s.compaction.crash.openSegment s.clock
    channel := []
    phase := .idle
    boot := true
    replayed := []
    bootRecords := s.compaction.frozen ++ s.data.frozen
    bootCompaction := none }

/-- No cycle fails, since all that was written can be read. -/
structure Consistent (s : LogRun) : Prop extends Sound s where
  streamed : s.Streamed
  known : ∀ c ∈ s.bootCompaction, ∃ events ∈ s.cycles, s.kind.buildCompaction events = some c
  room : s.channel.length ≤ channelCapacity
  readable : ∀ e ∈ s.gc.frozen ++ s.gc.active, e.value.toEntry.isSome = true
  running : s.phase ≠ .failed

namespace Consistent

variable {s s' : LogRun}

theorem init (kind : WindowKind) : (init kind).Consistent where
  toSound := .init kind
  streamed := trivial
  known := by simp [LogRun.init]
  room := Nat.zero_le _
  readable := by simp [LogRun.init, SegmentLog.empty, frozen, active]
  running := by simp [LogRun.init]

variable (h : s.Consistent)

include h

/-- What the first cycle has decided stays. -/
theorem known_effect (heffect : Effect s s') :
    ∀ c ∈ s'.bootCompaction, ∃ events ∈ s'.cycles, s'.kind.buildCompaction events = some c := by
  cases heffect with
  | @scan _ _ _ hbuild =>
    intro c hc
    cases hboot : s.boot with
    | true =>
      simp only [hboot, if_true, Option.mem_some_iff] at hc
      exact ⟨_, mem_append_right _ mem_cons_self, hc ▸ hbuild⟩
    | false =>
      simp only [hboot] at hc
      obtain ⟨events, hevents, hc⟩ := h.known c hc
      exact ⟨events, mem_append_left _ hevents, hc⟩
  | restart => exact fun c hc => by cases hc
  | flush walType | @removeFile _ walType => cases walType <;> exact h.known
  | _ => exact h.known

/-- Requests are sent only while there is room in the channel. -/
theorem room_effect (heffect : Effect s s') : s'.channel.length ≤ channelCapacity := by
  have hroom := h.room
  cases heffect with
  | rotateCompaction _ hchannel =>
    rw [hchannel, length_append] at hroom
    exact Nat.le_trans (Nat.le_add_left _ _) hroom
  | handleWrite hchannel =>
    rw [hchannel, length_cons] at hroom
    exact Nat.le_trans (Nat.le_succ _) hroom
  | keep _ _ hroom =>
    rw [length_append]
    exact hroom
  | fileSwitch _ hroom =>
    rw [length_append]
    exact hroom
  | flush walType | @removeFile _ walType => cases walType <;> exact hroom
  | _ => exact hroom

/-- The GC events that are written can be read. -/
theorem readable_effect (heffect : Effect s s') :
    ∀ e ∈ s'.gc.frozen ++ s'.gc.active, e.value.toEntry.isSome = true :=
  fun e he => (heffect.mem_gc he).elim (h.readable e) And.right

/-- No cycle fails. -/
theorem running_effect (heffect : Effect s s') : s'.phase ≠ .failed := by
  cases heffect with
  | unreadable _ hbuild =>
    have hread : ∀ event ∈ s.gc.frozen.map Stamped.value, event.toEntry.isSome = true := by
      intro event hevent
      obtain ⟨e, he, rfl⟩ := mem_map.mp hevent
      exact h.readable e (mem_append_left _ he)
    have hsome := s.kind.buildCompaction_isSome hread
    rw [hbuild] at hsome
    cases hsome
  | fail hphase hretain =>
    obtain ⟨b, hb⟩ := h.decides _ (by rw [hphase]; exact mem_cons_self) _
    rw [hb] at hretain
    cases hretain
  | flush walType => cases walType <;> exact h.running
  | quiet | openData | openGc | writeMessage | writeGcEvent | rotateData | rotateGc
  | rotateCompaction | handleWrite | restart => exact h.running
  | _ => simp

/-- What every step keeps. -/
theorem effect (heffect : Effect s s') : s'.Consistent where
  toSound := h.toSound.effect heffect
  streamed := h.streamed.effect h.named heffect
  known := h.known_effect heffect
  room := h.room_effect heffect
  readable := h.readable_effect heffect
  running := h.running_effect heffect

/-- What every crash keeps. -/
theorem crash : s.crash.Consistent where
  named := ⟨h.named.data.crash.mono (Nat.le_succ _), h.named.gc.crash.mono (Nat.le_succ _),
    h.named.compaction.crash.openSegment, .nil, .nil, isSome_openSegment _ _⟩
  written := ⟨h.written.encoded, fun r hr => Nat.lt_succ_of_lt (h.written.past r hr),
    h.written.nodup⟩
  genuine := by
    intro r hr
    refine h.genuine (mem_stored.mpr ?_)
    rw [mem_stored] at hr
    simp only [LogRun.crash, active_crash, frozen_crash, active_openSegment, frozen_openSegment,
      records, sent, filterMap_nil, not_mem_nil, false_or, or_false] at hr
    exact hr.imp .inr fun hmem => .inl (.inr hmem)
  covered := h.covered.of_running (fun _ hnone => by cases hnone) rfl rfl rfl
  replaying := by
    refine ⟨fun _ => ⟨rfl, fun _ => ⟨rfl, ?_, rfl⟩, rfl, rfl⟩, nofun, fun r _ => ?_, ?_⟩
    · rw [LogRun.crash, active_openSegment, active_crash]
    · simp [LogRun.crash, unseen, CyclePhase.unseen, CyclePhase.replaying]
    · simp [LogRun.crash, bootKeeps]
  streamed := trivial
  decided := nofun
  known := fun c hc => by cases hc
  room := Nat.zero_le _
  readable := by
    rw [LogRun.crash, frozen_crash, active_crash, append_nil]
    exact fun e he => h.readable e (mem_append_left _ he)
  running := by simp [LogRun.crash]

/-- Time passes. -/
theorem wait (micros : Nat) : Consistent { s with clock := s.clock + micros } where
  named := ⟨h.named.data.mono (Nat.le_add_right _ _), h.named.gc.mono (Nat.le_add_right _ _),
    h.named.compaction.mono (Nat.le_add_right _ _),
    h.named.listedData.congr (Nat.le_add_right _ _) fun _ hc => .inl hc,
    h.named.listedCompaction.congr (Nat.le_add_right _ _) fun _ hc => .inl hc, h.named.writing⟩
  written := ⟨h.written.encoded,
    fun r hr => Nat.lt_of_lt_of_le (h.written.past r hr) (Nat.le_add_right _ _), h.written.nodup⟩
  genuine := h.genuine
  covered := ⟨h.covered.running, h.covered.dropped⟩
  replaying := h.replaying.of_writers ⟨rfl, rfl, rfl⟩ rfl rfl (fun _ hnone => ⟨hnone, rfl⟩)
    fun _ hc ha => ⟨hc, ha, rfl⟩
  streamed := h.streamed
  decided := h.decided
  known := h.known
  room := h.room
  readable := h.readable
  running := h.running

end Consistent

end LogRun

/-! ## The first cycle comes to its end -/

namespace CyclePhase

/-- How many parts of the first cycle are still to come. -/
def rank : CyclePhase → Nat
  | .idle => 5
  | .started _ => 4
  | .listing _ walType => if walType = .data then 1 else 3
  | .reading _ walType _ _ _ => if walType = .data then 0 else 2
  | .deleting _ _ _ => 0
  | .failed => 0

/-- What is left to do for the stream, where an entry takes at most two steps. -/
def todo : CyclePhase → Nat
  | .reading _ _ pending entries unread => pending.toList.length + 2 * (entries ++ unread).length
  | _ => 0

end CyclePhase

namespace LogRun

variable {s : LogRun}

/-- The reader fills its channel. -/
theorem read_spec (s : LogRun) : (s.step .read).channel = s.channel ∧
    (s.step .read).boot = s.boot ∧ ((s.step .read).phase = .idle → s.phase = .idle) ∧
      (∀ cycle walType entry unread,
        (s.step .read).phase ≠ .reading cycle walType none [] (entry :: unread)) ∧
      (s.step .read).phase.rank = s.phase.rank ∧ (s.step .read).phase.todo = s.phase.todo := by
  simp only [step, readEntry]
  split
  · rename_i hphase
    split_ifs with hroom
    · refine ⟨rfl, rfl, by simp, by simp, by rw [hphase]; rfl, ?_⟩
      rw [hphase]
      simp only [todo, append_assoc, singleton_append]
    · refine ⟨rfl, rfl, id, fun cycle walType entry unread heq => hroom ?_, rfl, rfl⟩
      rw [hphase] at heq
      cases heq
      decide
  · rename_i hphase
    exact ⟨rfl, rfl, id, fun cycle walType entry unread heq => hphase _ _ _ _ _ _ heq, rfl, rfl⟩

namespace Consistent

/-- What every run of the tasks keeps. -/
theorem exec (h : s.Consistent) (actions : List LogAction) : (exec step s actions).Consistent :=
  exec_invariant_all (fun s a h => h.effect (s.step_effect a)) h

end Consistent

end LogRun
end Numaflow.Wal
